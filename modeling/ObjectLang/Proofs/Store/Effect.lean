import ObjectLang.Proofs.Store.Chains

/-!
# Effects

What a step may do to a sound store: let it grow, keep it sound, and write
locals only where it is allowed to. The outermost frame is apart: a definition
binds the name of a new class or module there, from wherever it is evaluated.
-/

namespace ObjectLang

namespace Store

/-! ## Effects -/

/-- The class or module `c`, named `n`, is one that `s` does not have yet. -/
structure Registers (s s' : Store) (n : String) (c : ClassId) : Prop where
  fresh : ¬ s.HasClass c
  proper : s'.Proper c
  name : (s'.cls c).name = n
  enclosing : (s'.cls c).enclosing = none

/-- A step from `s` to `s'` that writes locals of `W`, of new frames, and class and module names
in the outermost frame. -/
structure Effect (W : FrameId → Prop) (s s' : Store) : Prop where
  sound : s'.Sound
  grows : s.Grows s'
  locals : ∀ f, s.HasFrame f → f ≠ Machine.root → ¬ W f →
    (s'.frame f).locals = (s.frame f).locals
  registers : ¬ W Machine.root → ∀ n,
    (s'.frame Machine.root).locals.get? n = (s.frame Machine.root).locals.get? n ∨
      ∃ c, (s'.frame Machine.root).locals.get? n = some (.cls c) ∧ s.Registers s' n c

theorem Registers.after {s s' s'' : Store} {n : String} {c : ClassId} (h : s.Registers s' n c)
    (g : s'.Grows s'') : s.Registers s'' n c :=
  have k := g.cls h.proper.has
  ⟨h.fresh, h.proper.grows g, k.name.trans h.name, k.enclosing.trans h.enclosing⟩

theorem Registers.before {s s' s'' : Store} {n : String} {c : ClassId} (h : s'.Registers s'' n c)
    (g : s.Grows s') : s.Registers s'' n c :=
  ⟨fun hc => h.fresh (g.hasClass hc), h.proper, h.name, h.enclosing⟩

namespace Effect

variable {W W' : FrameId → Prop} {s s' s'' : Store}

theorem refl (h : s.Sound) : Effect W s s :=
  ⟨h, .refl s, fun _ _ _ _ => rfl, fun _ _ => .inl rfl⟩

/-- What the second step writes in frames made by the first one is no effect on `s`. -/
theorem trans (e : Effect W s s') (e' : Effect W' s' s'')
    (hw : ∀ f, s.HasFrame f ∨ f = Machine.root → W' f → W f) : Effect W s s'' where
  sound := e'.sound
  grows := e.grows.trans e'.grows
  locals := by
    intro f hf hr hn
    rw [e'.locals f (e.grows.hasFrame hf) hr fun h => hn (hw f (.inl hf) h), e.locals f hf hr hn]
  registers := by
    intro hn n
    rcases e'.registers (fun h => hn (hw _ (.inr rfl) h)) n with h' | ⟨c, h', r⟩
    · rcases e.registers hn n with h | ⟨c, h, r⟩
      · exact .inl (h'.trans h)
      · exact .inr ⟨c, h'.trans h, r.after e'.grows⟩
    · exact .inr ⟨c, h', r.before e.grows⟩

theorem widen (e : Effect W' s s') (hw : ∀ f, W' f → W f) : Effect W s s' :=
  ⟨e.sound, e.grows, fun f hf hr hn => e.locals f hf hr fun h => hn (hw f h),
    fun hn => e.registers fun h => hn (hw _ h)⟩

theorem ofFrames (h : s'.Sound) (g : s.Grows s') (e : s'.frames = s.frames) : Effect W s s' := by
  have same : ∀ f, s'.frame f = s.frame f := fun f => by rw [Store.frame, e]; rfl
  exact ⟨h, g, fun f _ _ _ => by rw [same], fun _ n => .inl (by rw [same])⟩

end Effect

/-! ## Reading behind a change -/

section
variable {s : Store}

theorem frame_addFrame (fr : Frame) (g : FrameId) :
    (s.addFrame fr).2.frame g = if g.index = s.frames.size then fr else s.frame g := by
  simp only [frame, addFrame, Array.getElem?_push]
  by_cases e : g.index = s.frames.size <;> simp [e]

theorem frame_setLocal {f : FrameId} (hf : s.HasFrame f) (n : String) (v : Value) (g : FrameId) :
    (s.setLocal f n v).frame g =
      if g = f then { s.frame f with locals := (s.frame f).locals.set n v } else s.frame g := by
  simp only [frame, setLocal, modifyFrame, Array.getElem?_modify]
  by_cases e : g = f
  · subst e
    rw [if_pos rfl, if_pos rfl, frames_get hf]
    rfl
  · rw [if_neg fun same => e (congrArg FrameId.mk same).symm, if_neg e]

theorem locals_setLocal {f : FrameId} (hf : s.HasFrame f) (n : String) (v : Value) :
    ((s.setLocal f n v).frame f).locals = (s.frame f).locals.set n v := by
  rw [frame_setLocal hf, if_pos rfl]

theorem hasClass_addClass (d : ClassData) : (s.addClass d).2.HasClass (s.addClass d).1 := by
  simp [HasClass, addClass]

theorem cls_addClass (d : ClassData) : (s.addClass d).2.cls (s.addClass d).1 = d := by
  simp [cls, addClass]

theorem cls_addClass_old (d : ClassData) {c : ClassId} (hc : s.HasClass c) :
    (s.addClass d).2.cls c = s.cls c := by
  simp [cls, addClass, Array.getElem?_push, Nat.ne_of_lt hc]

theorem cls_modifyClass {c : ClassId} (hc : s.HasClass c) (g : ClassData → ClassData)
    (d : ClassId) : (s.modifyClass c g).cls d = if d = c then g (s.cls c) else s.cls d := by
  simp only [cls, modifyClass, Array.getElem?_modify]
  by_cases e : d = c
  · subst e
    rw [if_pos rfl, if_pos rfl, classes_get hc]
    rfl
  · rw [if_neg fun same => e (congrArg ClassId.mk same).symm, if_neg e]

end

/-! ## New entries -/

section
variable {W : FrameId → Prop} {s : Store} (h : s.Sound)
include h

theorem effect_addFrame {fr : Frame} (hf : s.FrameSound s.frames.size fr) :
    Effect W s (s.addFrame fr).2 := by
  have g := s.grows_addFrame fr
  have h' := h.grows g
  have old : ∀ f, s.HasFrame f → (s.addFrame fr).2.frame f = s.frame f := fun f hf => by
    rw [frame_addFrame, if_neg (Nat.ne_of_lt hf)]
  exact {
    sound := { h' with
      rooted := by simp [addFrame]
      frames := h'.frames.push (hf.grows g) }
    grows := g
    locals := fun f hf _ _ => by rw [old f hf]
    registers := fun _ n => .inl (by rw [old _ h.hasRoot]) }

theorem effect_addObject {o : ObjectData} (ho : s.ObjectSound o) (hc : s.Instantiable o.cls) :
    Effect W s (s.addObject o).2 :=
  have g := s.grows_addObject o
  have h' := h.grows g
  .ofFrames { h' with objects := h'.objects.push ⟨ho.grows g, hc.grows g⟩ } g rfl

theorem effect_addClass {d : ClassData} (hd : s.ClassSound s.classes.size d) :
    Effect W s (s.addClass d).2 :=
  have g := s.grows_addClass d
  have h' := h.grows g
  .ofFrames { h' with classes := h'.classes.push (hd.grows g) } g rfl

theorem effect_addArray {vs : Array Value} (hv : ∀ v ∈ vs, s.Knows v) :
    Effect W s (s.addArray vs).2 :=
  have g := s.grows_addArray vs
  have h' := h.grows g
  .ofFrames { h' with arrays := h'.arrays.push fun v hm => (hv v hm).grows g } g rfl

theorem effect_addHash {t : HashTable} (ht : s.HashSound t) : Effect W s (s.addHash t).2 :=
  have g := s.grows_addHash t
  have h' := h.grows g
  .ofFrames { h' with hashes := h'.hashes.push (ht.grows g) } g rfl

theorem effect_addBlock {b : Block} (hb : s.HasFrame b.frame) : Effect W s (s.addBlock b).2 :=
  have g := s.grows_addBlock b
  have h' := h.grows g
  .ofFrames { h' with blocks := h'.blocks.push (g.hasFrame hb) } g rfl

theorem effect_print (text : String) : Effect W s (s.print text) :=
  have g : s.Grows (s.print text) := { Grows.refl s with }
  .ofFrames { h.grows g with } g rfl

theorem effect_tick : Effect W s s.tick :=
  .ofFrames { h.grows s.grows_tick with } s.grows_tick rfl

theorem effect_release (f : FrameId) (kept : List Value) : Effect W s (s.release f kept) :=
  have g := s.grows_release f kept
  .ofFrames { h.grows g with } g rfl

/-! ## Changed entries -/

theorem effect_setLocal {f : FrameId} (hf : W f) (n : String) {v : Value} (hv : s.Knows v) :
    Effect W s (s.setLocal f n v) := by
  have g := s.grows_setLocal f n v
  have h' := h.grows g
  have old : ∀ k, k ≠ f → (s.setLocal f n v).frame k = s.frame k := by
    intro k hk
    have : f.index ≠ k.index := fun e => hk (congrArg FrameId.mk e.symm)
    rw [Store.frame, setLocal, modifyFrame, Array.getElem?_modify, if_neg this]
    rfl
  exact {
    sound := { h' with
      rooted := by simpa [setLocal, modifyFrame] using h.rooted
      frames := h'.frames.modify fun fr _ hfr =>
        ⟨hfr.parent, hfr.locals.set (hv.grows g) n, hfr.self, hfr.enclosing⟩ }
    grows := g
    locals := fun k _ _ hk => by rw [old k fun e => hk (e ▸ hf)]
    registers := fun hk _ => .inl (by rw [old Machine.root fun e => hk (e ▸ hf)]) }

theorem effect_modifyClass (c : ClassId) {k : ClassData → ClassData}
    (hk : ∀ d, s.classes[c.index]? = some d → d.Keeps (k d))
    (hs : ∀ s', s.Grows s' → ∀ d, s.classes[c.index]? = some d → s'.ClassSound c.index d →
      s'.ClassSound c.index (k d)) : Effect W s (s.modifyClass c k) :=
  have g := s.grows_modifyClass c hk
  have h' := h.grows g
  .ofFrames { h' with classes := h'.classes.modify (hs _ g) } g rfl

theorem effect_setMethod (c : ClassId) (n : String) {m : Callable} (hm : s.Admits m) :
    Effect W s (s.setMethod c n m) :=
  effect_modifyClass h c (fun _ _ => { ClassData.Keeps.refl _ with }) fun _ g _ _ hd =>
    { hd with methods := hd.methods.set (hm.grows g) n }

theorem effect_setConstant (c : ClassId) (n : String) {v : Value} (hv : s.Knows v) :
    Effect W s (s.setConstant c n v) :=
  effect_modifyClass h c (fun _ _ => { ClassData.Keeps.refl _ with }) fun _ g _ _ hd =>
    { hd with constants := hd.constants.set (hv.grows g) n }

theorem effect_setClassVar (c : ClassId) (n : String) {v : Value} (hv : s.Knows v) :
    Effect W s (s.setClassVar c n v) :=
  effect_modifyClass h _ (fun _ _ => { ClassData.Keeps.refl _ with }) fun _ g _ _ hd =>
    { hd with classVars := hd.classVars.set (hv.grows g) n }

theorem effect_modifyArray (a : ArrayId) {k : Array Value → Array Value}
    (hk : ∀ vs, (∀ v ∈ vs, s.Knows v) → ∀ v ∈ k vs, s.Knows v) :
    Effect W s (s.modifyArray a k) :=
  have g := s.grows_modifyArray a k
  have h' := h.grows g
  have known := h.arrays.modify (j := a.index) fun vs _ hvs => hk vs hvs
  .ofFrames { h' with arrays := known.mono fun _ _ hv v hm => (hv v hm).grows g } g rfl

theorem effect_modifyHash (t : HashId) {k : HashTable → HashTable}
    (hk : ∀ x, s.HashSound x → s.HashSound (k x)) : Effect W s (s.modifyHash t k) :=
  have g := s.grows_modifyHash t k
  have h' := h.grows g
  have known := h.hashes.modify (j := t.index) fun x _ hx => hk x hx
  .ofFrames { h' with hashes := known.mono fun _ _ hx => hx.grows g } g rfl

theorem effect_modifyObjectOf (v : Value) {k : ObjectData → ObjectData}
    (hk : ∀ o, s.objectOf? v = some o → o.Keeps (k o))
    (hs : ∀ s', s.Grows s' → ∀ o, s.objectOf? v = some o → s'.ObjectSound o →
      s'.ObjectSound (k o)) : Effect W s (s.modifyObjectOf v k) := by
  cases v with
  | object i =>
    have of : ∀ {x}, s.objects[i.index]? = some x → s.objectOf? (.object i) = some x := by
      intro x hx
      simp only [Store.objectOf?, Store.object, hx]; rfl
    have g := s.grows_modifyObject i fun x hx => hk x (of hx)
    have h' := h.grows g
    refine .ofFrames { h' with objects := h'.objects.modify fun x hx ho => ?_ } g rfl
    have cls := (hk x (of hx)).cls
    exact ⟨hs _ g x (of hx) ho.1, by rw [cls]; exact ho.2⟩
  | cls c =>
    have of : ∀ {d}, s.classes[c.index]? = some d → s.objectOf? (.cls c) = some d.object := by
      intro d hd
      simp only [Store.objectOf?, Store.cls, hd]; rfl
    exact effect_modifyClass h c (fun d hd => { ClassData.Keeps.refl d with
      object := hk _ (of hd) }) fun s' g d hd hs' => { hs' with
      object := hs s' g _ (of hd) hs'.object }
  | _ => exact .refl h

theorem effect_setField (v : Value) (n : String) {w : Value} (hw : s.Knows w) :
    Effect W s (s.setField v n w) :=
  effect_modifyObjectOf h v (fun _ _ => ⟨rfl, fun _ hc => hc⟩) fun _ g _ _ ho =>
    { ho with fields := ho.fields.set (hw.grows g) n }

/-! ## Classes of an object, and definitions -/

omit h in
theorem objectOf?_addClass {v : Value} (hv : s.Knows v) (d : ClassData) :
    (s.addClass d).2.objectOf? v = s.objectOf? v := by
  cases v with
  | cls c => rw [Store.objectOf?, cls_addClass_old d hv.has, Store.objectOf?]
  | _ => rfl

/-- The class of its own methods is made once. -/
theorem effect_addSingleton {v : Value} (hv : s.Knows v) (owner : String) :
    Effect W s (s.addSingleton v owner) := by
  unfold addSingleton
  cases hv' : s.objectOf? v with
  | none => exact .refl h
  | some o =>
    cases hc : o.singleton with
    | some c => simpa only [hc] using Effect.refl h
    | none =>
      simp only [hc]
      have ho := h.objectOf? hv hv'
      generalize hd : (⟨⟨(s.cls o.cls).object.cls, .empty, none⟩, "#<Class:" ++ owner ++ ">",
        .singleton, some o.cls, none, .empty, .empty, .empty⟩ : ClassData) = d
      have e₁ : Effect W s (s.addClass d).2 := effect_addClass h <| hd ▸
        { object := ⟨(h.cls ho.cls.has).object.cls, Table.forall_empty _, nofun⟩
          superclass := ⟨ho.cls.has, ho.cls⟩
          enclosing := nofun
          methods := Table.forall_empty _
          constants := Table.forall_empty _
          classVars := Table.forall_empty _ }
      have own : (s.addClass d).2.Singleton o.cls (s.addClass d).1 :=
        ⟨hasClass_addClass d, by rw [cls_addClass, ← hd], by rw [cls_addClass, ← hd]⟩
      have eq : ∀ {x}, (s.addClass d).2.objectOf? v = some x → x = o := fun hx =>
        (Option.some.inj (hv'.symm.trans ((objectOf?_addClass hv d).symm.trans hx))).symm
      refine e₁.trans (effect_modifyObjectOf e₁.sound v (fun x hx => ?_) fun s' g x hx hs => ?_)
        fun _ _ hw => hw
      · rw [eq hx]
        exact ⟨rfl, fun c hc' => by rw [hc] at hc'; cases hc'⟩
      · rw [eq hx] at hs ⊢
        exact { hs with singleton := fun c hc => by cases hc; exact own.grows g }

omit h in
theorem effect_register {s' : Store} (e : Effect W s s') {n : String} {c : ClassId}
    (r : s.Registers s' n c) : Effect W s (s'.setLocal Machine.root n (.cls c)) := by
  have e' : Effect (· = Machine.root) s' (s'.setLocal Machine.root n (.cls c)) :=
    effect_setLocal (W := (· = Machine.root)) e.sound rfl n (v := .cls c) r.proper
  have all := (e.widen (W := fun f => f = Machine.root ∨ W f) fun _ hw => .inr hw).trans e'
    fun _ _ hw => .inl hw
  refine ⟨all.sound, all.grows, fun f hf hr hn => all.locals f hf hr (not_or.mpr ⟨hr, hn⟩), ?_⟩
  intro hn m
  rw [locals_setLocal e.sound.hasRoot, Table.get?_set]
  by_cases hm : m = n
  · subst hm
    rw [if_pos rfl]
    exact .inr ⟨c, rfl, r.after e'.grows⟩
  · rw [if_neg hm]
    exact (e.registers hn m).imp_right fun ⟨d, hd, r⟩ => ⟨d, hd, r.after e'.grows⟩

theorem effect_addDefinition {f : FrameId} (hf : s.HasFrame f) {container : Option ClassId}
    (hc : ∀ c, container = some c → s.Proper c) (n : String) {kind : ClassKind}
    (hk : kind ≠ .singleton) {metaclass superclass : ClassId} (hm : s.Proper metaclass)
    (hs : s.Proper superclass) :
    Effect W s (s.addDefinition f container n kind metaclass superclass).2 ∧
      (s.addDefinition f container n kind metaclass superclass).2.Proper
        (s.addDefinition f container n kind metaclass superclass).1 := by
  unfold addDefinition
  generalize hd : (⟨⟨metaclass, .empty, none⟩, container.elim n fun c => (s.cls c).name ++ "::" ++ n,
    kind, some superclass, container, .empty, .empty, .empty⟩ : ClassData) = d
  have e : Effect W s (s.addClass d).2 := effect_addClass h <| hd ▸
    { object := ⟨hm, Table.forall_empty _, nofun⟩
      superclass := ⟨hs.has, hs⟩
      enclosing := fun c e => ⟨(hc c e).has, hc c e⟩
      methods := Table.forall_empty _
      constants := Table.forall_empty _
      classVars := Table.forall_empty _ }
  have new : (s.addClass d).2.Proper (s.addClass d).1 :=
    ⟨hasClass_addClass d, by rw [cls_addClass, ← hd]; exact hk⟩
  cases container with
  | some outer =>
    have e' := effect_setConstant (W := W) e.sound outer n (v := .cls (s.addClass d).1) new
    simp only [hd]
    exact ⟨e.trans e' fun _ _ hw => hw, new.grows e'.grows⟩
  | none =>
    have r : s.Registers (s.addClass d).2 n (s.addClass d).1 :=
      ⟨Nat.lt_irrefl _, new, by rw [cls_addClass, ← hd]; rfl, by rw [cls_addClass, ← hd]⟩
    simp only [hd, e.sound.root_eq (e.grows.hasFrame hf)]
    exact ⟨effect_register e r, new.grows (grows_setLocal _ _ _ _)⟩

end

end Store

end ObjectLang
