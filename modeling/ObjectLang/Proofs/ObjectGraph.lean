import ObjectLang.Proofs.Eval.Monotone
import ObjectLang.Proofs.Eval.Sequence
import ObjectLang.Proofs.FrameIsolation

/-!
# The object graph

Whatever programs do, every chain of superclasses, of enclosing modules and of
scopes comes to an end, instances belong to ordinary classes, and the class of
one object's own methods never turns up as a value. Names of built-in classes
may be bound to other things, so none of this rests on what a name means. Links
are never changed, but one to an enclosing module that nothing else holds is
lost when that is let go.
-/

namespace ObjectLang

open Store Eval

/-! ## Reachable machines -/

/-- A machine that evaluations lead to, each in any frame there is, from a new machine. Between
them, classes and modules may be let go. -/
inductive Machine.Reachable : Machine → Prop where
  | start (r : Runtime) (output : Output) : Reachable ⟨coreStoreOn r output⟩
  | step {m : Machine} {f : FrameId} {e : Expr} {s : Store} : Reachable m → m.store.HasFrame f →
      (eval f e m.store).EndsIn s → Reachable ⟨s⟩
  | release {m : Machine} (f : FrameId) (kept : List Value) : Reachable m →
      Reachable ⟨m.store.release f kept⟩

theorem Machine.Reachable.sound {m : Machine} (h : m.Reachable) : m.store.Sound := by
  induction h with
  | start r output => exact core_sound r output
  | step _ hf ends ih => exact ((performer_sound.expr _ ih hf).effect ends).sound
  | release f kept _ ih => exact (effect_release (W := (· = f)) ih f kept).sound

theorem Machine.Reachable.grows {m : Machine} (h : m.Reachable) :
    ∃ r output, (coreStoreOn r output).Grows m.store := by
  induction h with
  | start r output => exact ⟨r, output, .refl _⟩
  | step hm hf ends ih =>
    obtain ⟨r, output, g⟩ := ih
    exact ⟨r, output, g.trans ((performer_sound.expr _ hm.sound hf).effect ends).grows⟩
  | @release m f kept _ ih =>
    obtain ⟨r, output, g⟩ := ih
    exact ⟨r, output, g.trans (m.store.grows_release f kept)⟩

theorem Machine.Reachable.commands {f : FrameId} {last v : Value} {cs : List Expr} {s s' : Store}
    (h : Machine.Reachable ⟨s⟩) (hf : s.HasFrame f)
    (run : commandsFrom performer f last cs s = .value v s') : Machine.Reachable ⟨s'⟩ := by
  induction cs generalizing last s with
  | nil =>
    cases run
    exact h
  | cons c cs ih =>
    obtain ⟨w, s₁, first, rest⟩ := value_of_bind run
    have step : Machine.Reachable ⟨s₁⟩ := h.step hf (by rw [eval, first]; rfl)
    have grows := ((performer_sound.expr c h.sound hf).effect (by rw [first]; rfl)).grows
    exact ih (step.release f [w]) (grows.hasFrame hf) rest

/-- A program with a value leads from one reachable machine to another. -/
theorem Machine.Reachable.program {m : Machine} (h : m.Reachable) {v : Value} {cs : List Expr}
    {s : Store} (run : evalProgram root cs m.store = .value v s) : Machine.Reachable ⟨s⟩ :=
  (h.release root []).commands (h.release root []).sound.hasRoot run

namespace Store

/-! ## Where values stand -/

inductive Occurs (s : Store) : Value → Prop where
  | bound {f : FrameId} {n : String} {v : Value} : s.HasFrame f →
      (s.frame f).locals.get? n = some v → Occurs s v
  | self {f : FrameId} {v : Value} : s.HasFrame f → (s.frame f).self = some v → Occurs s v
  | objectField {o : ObjectId} {n : String} {v : Value} : s.HasObject o →
      (s.object o).fields.get? n = some v → Occurs s v
  | classField {c : ClassId} {n : String} {v : Value} : s.HasClass c →
      (s.cls c).object.fields.get? n = some v → Occurs s v
  | constant {c : ClassId} {n : String} {v : Value} : s.HasClass c →
      (s.cls c).constants.get? n = some v → Occurs s v
  | classVar {c : ClassId} {n : String} {v : Value} : s.HasClass c →
      (s.cls c).classVars.get? n = some v → Occurs s v
  | element {a : ArrayId} {v : Value} : s.HasArray a → v ∈ s.array a → Occurs s v
  | hashKey {t : HashId} {e : HashEntry} : s.HasHash t → e ∈ (s.hash t).entries → Occurs s e.given
  | hashValue {t : HashId} {e : HashEntry} : s.HasHash t → e ∈ (s.hash t).entries →
      Occurs s e.value

theorem Occurs.known {s : Store} (h : s.Sound) {v : Value} (hv : s.Occurs v) : s.Knows v := by
  cases hv with
  | bound _ e => exact (h.locals _).get? e
  | self hf e => exact (h.frame hf).self v e
  | objectField ho e => exact (h.object ho).1.fields.get? e
  | classField hc e => exact (h.cls hc).object.fields.get? e
  | constant _ e => exact (h.constants _).get? e
  | classVar _ e => exact (h.classVars _).get? e
  | element _ hv => exact h.array _ v hv
  | hashKey _ he => exact (h.hash _ _ he).1
  | hashValue _ he => exact (h.hash _ _ he).2

/-- The value is the class of one object's own methods. -/
def IsSingleton (s : Store) (v : Value) : Prop :=
  ∃ c, v = .cls c ∧ (s.cls c).kind = .singleton

theorem Knows.not_isSingleton {s : Store} {v : Value} (h : s.Knows v) : ¬ s.IsSingleton v := by
  intro both
  obtain ⟨c, rfl, hc⟩ := both
  exact h.kind hc

/-! ## The graph -/

abbrev superclass? (s : Store) (c : ClassId) : Option ClassId := (s.cls c).superclass

abbrev parent? (s : Store) (f : FrameId) : Option FrameId := (s.frame f).parent

/-- Chains end, links lead to entries of the right kind, and no value is a class of one object's
own methods. -/
structure WellLinked (s : Store) : Prop where
  lineage : ∀ c, s.HasClass c → Walk s.superclass? c (s.lineage c) ∧ (s.lineage c).Nodup ∧
    (s.lineage c).getLast? = some objectClass
  superclass : ∀ c, s.HasClass c → (s.superclass? c = none ↔ c = objectClass)
  object : s.HasClass objectClass ∧ (s.cls objectClass).name = "Object" ∧
    (s.cls objectClass).kind = .cls
  nesting : ∀ c, s.HasClass c → Walk s.enclosing? c (s.nesting c)
  scopes : ∀ f, s.HasFrame f → Walk s.parent? f (s.scopes f)
  instanceClass : ∀ o, s.HasObject o → s.HasClass (s.object o).cls ∧
    (s.cls (s.object o).cls).kind = .cls
  classClass : ∀ c, s.HasClass c → s.HasClass (s.cls c).object.cls
  values : ∀ v, s.Occurs v → ¬ s.IsSingleton v
  objectSingleton : ∀ o c, s.HasObject o → (s.object o).singleton = some c →
    s.Singleton (s.object o).cls c
  classSingleton : ∀ d c, s.HasClass d → (s.cls d).object.singleton = some c →
    s.Singleton (s.cls d).object.cls c

theorem SoundIn.wellLinked {s : Store} (h : s.Sound) {r : Runtime} {output : Output}
    (g : (coreStoreOn r output).Grows s) : s.WellLinked where
  lineage := fun c hc => ⟨h.lineage_walk hc, h.lineage_nodup hc, h.lineage_last hc⟩
  superclass := fun c hc => h.superclass_eq_none_iff hc
  object := by
    have has : (coreStoreOn r output).HasClass objectClass := (by decide : 0 < 14)
    have k := g.cls has
    exact ⟨g.hasClass has, k.name, k.kind⟩
  nesting := fun c hc => h.nesting_walk hc
  scopes := fun f hf => h.scopes_walk hf
  instanceClass := fun o ho => ⟨(h.object ho).2.has, (h.object ho).2.kind⟩
  classClass := fun c hc => (h.cls hc).object.cls.has
  values := fun v hv => (hv.known h).not_isSingleton
  objectSingleton := fun o c ho hc => (h.object ho).1.singleton c hc
  classSingleton := fun d c hd hc => (h.cls hd).object.singleton c hc

end Store

/-! ## Searches along chains -/

/-- Going from `a` along `next` until `found` answers, or to the end, takes finitely many
steps and gives the result. -/
inductive Search {α β : Type} (next : α → Option α) (found : α → Option β) :
    α → Option β → Prop where
  | hit {a : α} {b : β} : found a = some b → Search next found a (some b)
  | miss {a : α} : found a = none → next a = none → Search next found a none
  | step {a a' : α} {o : Option β} : found a = none → next a = some a' →
      Search next found a' o → Search next found a o

theorem Walk.search {α β : Type} {next : α → Option α} {a : α} {l : List α} (w : Walk next a l)
    (found : α → Option β) : Search next found a (l.findSome? found) := by
  induction w with
  | @stop a e =>
    rw [List.findSome?_cons]
    cases hf : found a with
    | some b => exact .hit hf
    | none => exact .miss hf e
  | @step a b l e _ ih =>
    rw [List.findSome?_cons]
    cases hf : found a with
    | some b => exact .hit hf
    | none => exact .step hf e ih

namespace Store

/-- What is looked up along classes, enclosing modules and scopes is found by searches that
end. -/
structure LookupsEnd (s : Store) : Prop where
  instanceMethod : ∀ c n, s.HasClass c →
    Search s.superclass? (fun d => (s.cls d).methods.get? n) c (s.instanceMethod? c n)
  instanceMethodNames : ∀ c, s.HasClass c → ∃ l, Walk s.superclass? c l ∧
    s.instanceMethodNames c = (l.flatMap fun d => (s.cls d).methods.names).eraseDups
  inheritsFrom : ∀ c d, s.HasClass c → ∃ o,
    Search s.superclass? (Option.guard (· == d)) c o ∧ s.inheritsFrom c d = o.isSome
  classVar : ∀ c n, s.HasClass c →
    Search s.superclass? (fun d => (s.cls d).classVars.get? n) c (s.classVar? c n)
  classVarHolder : ∀ c n, s.HasClass c →
    Search s.superclass? (Option.guard fun d => (s.cls d).classVars.contains n) c
      (s.classVarHolder? c n)
  constant : ∀ f n, s.HasFrame f → ∃ o o',
    (s.frame f).enclosing.elim (o = none) (fun c =>
      Search s.enclosing? (fun d => (s.cls d).constants.get? n) c o) ∧
    Search s.parent? (fun g => (s.frame g).locals.get? n) f o' ∧ s.constant? f n = o.or o'

theorem SoundIn.lookupsEnd {s : Store} (h : s.Sound) : s.LookupsEnd where
  instanceMethod := fun c n hc => (h.lineage_walk hc).search _
  instanceMethodNames := fun c hc => ⟨_, h.lineage_walk hc, rfl⟩
  inheritsFrom := by
    intro c d hc
    refine ⟨_, (h.lineage_walk hc).search _, ?_⟩
    rw [← List.find?_eq_findSome?_guard, inheritsFrom, Bool.eq_iff_iff, List.find?_isSome,
      List.contains_iff_mem]
    simp
  classVar := fun c n hc => (h.lineage_walk hc).search _
  classVarHolder := by
    intro c n hc
    rw [classVarHolder?, List.find?_eq_findSome?_guard]
    exact (h.lineage_walk hc).search _
  constant := by
    intro f n hf
    cases e : (s.frame f).enclosing with
    | none =>
      refine ⟨none, _, rfl, (h.scopes_walk hf).search _, ?_⟩
      rw [Store.constant?, e]
      rfl
    | some c =>
      refine ⟨_, _, (h.nesting_walk ((h.frame hf).enclosing c e).has).search _,
        (h.scopes_walk hf).search _, ?_⟩
      rw [Store.constant?, e]
      rfl

end Store

/-! ## The invariant of every run -/

namespace Store

/-- All that was there is linked as before, but that the link to an enclosing module is lost as soon
as that is not there any more. -/
structure KeepsLinks (s s' : Store) : Prop where
  grows : s.Grows s'
  enclosing : ∀ c, s.HasClass c → s'.enclosing? c = (s.enclosing? c).filter s'.alive

theorem Grows.keepsLinks {s s' : Store} (g : s.Grows s') : s.KeepsLinks s' :=
  ⟨g, fun _ hc => g.enclosing? hc⟩

end Store

/-- In every reachable machine the graph is well linked and lookups end. A further evaluation
keeps all links, and its value is no class of one object's own methods. Links are kept as well when
classes and modules are let go, which are those that nothing holds. -/
theorem object_graph {m : Machine} (hm : m.Reachable) :
    m.store.WellLinked ∧ m.store.LookupsEnd ∧
    (∀ f e, m.store.HasFrame f →
      match eval f e m.store with
      | .value v s => m.store.KeepsLinks s ∧ ¬ s.IsSingleton v
      | .fault _ s => m.store.KeepsLinks s
      | .unfinished => True) ∧
    ∀ f kept, m.store.HasFrame f → m.store.KeepsLinks (m.store.release f kept) ∧
      ∀ c, m.store.HasClass c → (m.store.cls c).kind ≠ .singleton →
        ((m.store.release f kept).alive c = true ↔ m.store.alive c = true ∧
          m.store.IsHeld (.frame f :: kept.filterMap Value.reference?) (.cls c)) := by
  obtain ⟨r, output, g⟩ := hm.grows
  refine ⟨hm.sound.wellLinked g, hm.sound.lookupsEnd, fun f e hf => ?_, fun f kept hf => ?_⟩
  · have answers := performer_sound.expr e hm.sound hf
    unfold Answers Does at answers
    rw [eval]
    cases run : performer (.expr f e) m.store with
    | value v s =>
      rw [run] at answers
      exact ⟨answers.1.grows.keepsLinks, answers.2.not_isSingleton⟩
    | fault fault s =>
      rw [run] at answers
      exact answers.grows.keepsLinks
    | unfinished => trivial
  · exact ⟨(m.store.grows_release f kept).keepsLinks, fun c hc proper => alive_release hf hc proper⟩

/-- The name of the first class can be bound to something else. -/
theorem object_graph_rebound :
    ∃ m : Machine, m.Reachable ∧ m.class? "Object" = none ∧ m.store.WellLinked := by
  have ends : (eval Machine.root (.assign "Object" (.literal .nil)) coreStore).EndsIn
      (coreStore.setLocal Machine.root "Object" .nil) := performer_endsIn 2 rfl
  have reached : Machine.Reachable ⟨coreStore.setLocal Machine.root "Object" .nil⟩ :=
    .step (.start .usual coreStore.output) (core_sound .usual coreStore.output).hasRoot ends
  refine ⟨_, reached, ?_, (object_graph reached).1⟩
  have locals := locals_setLocal (core_sound .usual coreStore.output).hasRoot "Object" .nil
  simp only [Machine.class?, registeredClass?, reached.sound.root_eq reached.sound.hasRoot]
  rw [show coreStoreOn .usual coreStore.output = coreStore from rfl] at locals
  rw [locals, Table.get?_set, if_pos rfl]

/-- Makes a module inside of another one and keeps only the inner one. -/
def innerModule : List Expr :=
  [.moduleDef "M" (.moduleDef "N" (.sequence [])), .assign "n" (.doubleColon (.name "M") "N")]

/-- Nothing holds the outer module once its name is bound to something else. Then the inner module,
which is still there, has no module around it any more. -/
theorem enclosing_module_lost : ∃ (m m' : Machine) (v w : Value) (c d : ClassId),
    m.Reachable ∧ m'.Reachable ∧
    evalProgram Machine.root innerModule coreStore = .value v m.store ∧
    evalProgram Machine.root [.assign "M" (.literal .nil)] m.store = .value w m'.store ∧
    v.reference? = some (.cls c) ∧ m.store.enclosing? c = some d ∧
    m'.store.alive c = true ∧ m'.store.enclosing? c = none := by
  have runs : (commandsFrom (perform 5) Machine.root .nil innerModule).HasValue coreStore
      fun v s => v.reference? = some (.cls ⟨15⟩) ∧ s.enclosing? ⟨15⟩ = some ⟨14⟩ ∧
        (commandsFrom (perform 5) Machine.root .nil [.assign "M" (.literal .nil)]).HasValue
          (s.release Machine.root []) fun _ s' =>
            s'.alive ⟨15⟩ = true ∧ s'.enclosing? ⟨15⟩ = none := by
    decide +kernel
  obtain ⟨v, s, first, inner, before, w, s', second, there, behind⟩ := runs
  have run : evalProgram Machine.root innerModule coreStore = .value v s :=
    evalProgram_of_perform 5 rfl rfl first
  have rebound : evalProgram Machine.root [.assign "M" (.literal .nil)] s = .value w s' :=
    commandsFrom_of_perform rfl second
  have reached : Machine.Reachable ⟨s⟩ :=
    (Machine.Reachable.start .usual coreStore.output).program run
  exact ⟨⟨s⟩, ⟨s'⟩, v, w, ⟨15⟩, ⟨14⟩, reached, reached.program rebound, run, rebound, inner, before,
    there, behind⟩

end ObjectLang
