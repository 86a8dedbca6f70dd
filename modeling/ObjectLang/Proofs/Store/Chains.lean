import ObjectLang.Machine
import ObjectLang.Proofs.Store.Sound

/-!
# Chains in a sound store

Links lead to earlier entries, so following them comes to an end: a chain that
is read with as much fuel as its start has predecessors is read as a whole. What
is found along a chain is something the store knows.
-/

namespace ObjectLang

/-! ## Walks -/

/-- Following `next` from `a` visits the members of the list and then stops. -/
inductive Walk {α : Type} (next : α → Option α) : α → List α → Prop where
  | stop {a : α} : next a = none → Walk next a [a]
  | step {a b : α} {l : List α} : next a = some b → Walk next b l → Walk next a (a :: l)

section
variable {α : Type} {next : α → Option α}

theorem Walk.unique {a : α} {l l' : List α} (h : Walk next a l) (h' : Walk next a l') :
    l = l' := by
  induction h generalizing l' with
  | stop e =>
    cases h' with
    | stop _ => rfl
    | step e' _ => cases e.symm.trans e'
  | step e _ ih =>
    cases h' with
    | stop e' => cases e.symm.trans e'
    | step e' w =>
      cases e.symm.trans e'
      rw [ih w]

theorem Walk.last {a : α} {l : List α} (h : Walk next a l) :
    ∃ z, l.getLast? = some z ∧ next z = none := by
  induction h with
  | stop e => exact ⟨_, rfl, e⟩
  | @step a b l _ w ih =>
    obtain ⟨z, hz, e⟩ := ih
    refine ⟨z, ?_, e⟩
    cases w <;> simpa using hz

theorem Walk.forall {P : α → Prop} (hP : ∀ x y, P x → next x = some y → P y) {a : α}
    {l : List α} (h : Walk next a l) (ha : P a) : ∀ x ∈ l, P x := by
  induction h with
  | stop e => intro x hx; rw [List.mem_singleton.mp hx]; exact ha
  | step e _ ih =>
    intro x hx
    rcases List.mem_cons.mp hx with rfl | hx
    · exact ha
    · exact ih (hP _ _ ha e) x hx

/-- A walk that leads down in a measure visits nothing twice. -/
theorem Walk.descends {P : α → Prop} {m : α → Nat}
    (hP : ∀ x y, P x → next x = some y → m y < m x ∧ P y) {a : α} {l : List α}
    (h : Walk next a l) (ha : P a) : l.Pairwise (m · > m ·) ∧ ∀ x ∈ l, m x ≤ m a := by
  induction h with
  | stop e => simp
  | @step a b l e _ ih =>
    obtain ⟨hlt, hb⟩ := hP _ _ ha e
    obtain ⟨hp, hle⟩ := ih hb
    refine ⟨List.pairwise_cons.mpr ⟨fun x hx => ?_, hp⟩, fun x hx => ?_⟩
    · have := hle x hx; omega
    · rcases List.mem_cons.mp hx with rfl | hx
      · exact Nat.le_refl _
      · have := hle x hx; omega

theorem Walk.nodup {P : α → Prop} {m : α → Nat}
    (hP : ∀ x y, P x → next x = some y → m y < m x ∧ P y) {a : α} {l : List α}
    (h : Walk next a l) (ha : P a) : l.Nodup := by
  refine (h.descends hP ha).1.imp fun {x y} hxy e => ?_
  rw [e] at hxy
  omega

/-- Fuel beyond the measure of the start is enough for the whole walk. -/
theorem walk_chain {P : α → Prop} {m : α → Nat}
    (hP : ∀ x y, P x → next x = some y → m y < m x ∧ P y) :
    ∀ (fuel : Nat) (a : α), P a → m a < fuel → Walk next a (chain next fuel a)
  | 0, _, _, h => absurd h (Nat.not_lt_zero _)
  | fuel + 1, a, ha, h => by
    rw [chain]
    cases e : next a with
    | none => exact .stop e
    | some b =>
      obtain ⟨hlt, hb⟩ := hP a b ha e
      exact .step e (walk_chain hP fuel b hb (by omega))

end

theorem Entries.getD {α : Type} {P : Nat → α → Prop} {xs : Array α} (h : Entries P xs) {i : Nat}
    {a : α} (ha : P i a) : P i (xs[i]?.getD a) := by
  cases e : xs[i]? with
  | none => exact ha
  | some x => exact h i x e

theorem findSome?_of_forall {α β : Type} {g : α → Option β} {P : β → Prop}
    (hg : ∀ a b, g a = some b → P b) {l : List α} {b : β} (h : l.findSome? g = some b) : P b := by
  obtain ⟨a, _, e⟩ := List.exists_of_findSome?_eq_some h
  exact hg a b e

/-- A search for the first answer, where the answer at `h` is now `v`. -/
theorem findSome?_of_slot {α β : Type} [DecidableEq α] {g g' : α → Option β} {h : α} {v : β}
    (slot : ∀ a, g' a = if a = h then some v else g a) (l : List α) :
    l.findSome? g' = if l.find? (fun a => (g' a).isSome) = some h then some v
      else l.findSome? g := by
  induction l with
  | nil => rfl
  | cons a l ih =>
    rw [List.findSome?_cons, List.find?_cons, List.findSome?_cons]
    by_cases own : a = h
    · subst own
      simp [slot]
    · have same : g' a = g a := by simp [slot, own]
      cases found : g a with
      | some b => simp [same, found, own]
      | none => simpa [same, found] using ih

namespace Store.SoundIn

variable {s : Store} (h : s.Sound)
include h

/-! ## Entries of references -/

theorem frame {f : FrameId} (hf : s.HasFrame f) : s.FrameSound f.index (s.frame f) :=
  h.frames _ _ (frames_get hf)

theorem object {o : ObjectId} (ho : s.HasObject o) :
    s.ObjectSound (s.object o) ∧ s.Instantiable (s.object o).cls :=
  h.objects _ _ (objects_get ho)

theorem cls {c : ClassId} (hc : s.HasClass c) : s.ClassSound c.index (s.cls c) :=
  h.classes _ _ (classes_get hc)

theorem locals (f : FrameId) : (s.frame f).locals.Forall s.Knows :=
  Entries.getD (P := fun _ fr => fr.locals.Forall s.Knows) (h.frames.mono fun _ _ => (·.locals))
    (Table.forall_empty _)

theorem methods (c : ClassId) : (s.cls c).methods.Forall s.Admits :=
  Entries.getD (P := fun _ d => d.methods.Forall s.Admits) (h.classes.mono fun _ _ => (·.methods))
    (Table.forall_empty _)

theorem constants (c : ClassId) : (s.cls c).constants.Forall s.Knows :=
  Entries.getD (P := fun _ d => d.constants.Forall s.Knows)
    (h.classes.mono fun _ _ => (·.constants)) (Table.forall_empty _)

theorem classVars (c : ClassId) : (s.cls c).classVars.Forall s.Knows :=
  Entries.getD (P := fun _ d => d.classVars.Forall s.Knows)
    (h.classes.mono fun _ _ => (·.classVars)) (Table.forall_empty _)

theorem array (a : ArrayId) : ∀ v ∈ s.array a, s.Knows v :=
  Entries.getD (P := fun _ vs => ∀ v ∈ vs, s.Knows v) h.arrays (by simp)

theorem hash (t : HashId) : s.HashSound (s.hash t) :=
  Entries.getD (P := fun _ t => s.HashSound t) h.hashes
    (by intro e he; simp [HashTable.empty] at he)

theorem block (p : ProcId) : s.HasFrame (s.block p).frame :=
  Entries.getD (P := fun _ (b : Block) => s.HasFrame b.frame) h.blocks h.rooted

/-! ## Scopes -/

theorem hasRoot : s.HasFrame Machine.root :=
  h.rooted

theorem parent_lt (f g : FrameId) (hf : s.HasFrame f) (e : (s.frame f).parent = some g) :
    g.index < f.index ∧ s.HasFrame g := by
  have hp := (h.frame hf).parent
  rw [e] at hp
  exact ⟨hp, Nat.lt_trans hp hf⟩

theorem scopes_walk {f : FrameId} (hf : s.HasFrame f) :
    Walk (fun g => (s.frame g).parent) f (s.scopes f) :=
  walk_chain h.parent_lt _ f hf (Nat.lt_succ_self _)

theorem root_eq {f : FrameId} (hf : s.HasFrame f) : s.root f = Machine.root := by
  obtain ⟨z, hz, e⟩ := (h.scopes_walk hf).last
  have has : s.HasFrame z :=
    (h.scopes_walk hf).forall (fun x y hx e => (h.parent_lt x y hx e).2) hf z
      (List.mem_of_getLast? hz)
  have hi := (h.frame has).parent
  rw [e] at hi
  rw [root, hz]
  exact congrArg FrameId.mk hi

/-! ## Classes -/

theorem superclass_lt (c d : ClassId) (hc : s.HasClass c) (e : (s.cls c).superclass = some d) :
    d.index < c.index ∧ s.HasClass d := by
  have hs := (h.cls hc).superclass
  rw [e] at hs
  exact ⟨hs.1, hs.2.has⟩

theorem enclosing_lt (c d : ClassId) (hc : s.HasClass c) (e : s.enclosing? c = some d) :
    d.index < c.index ∧ s.HasClass d :=
  ((h.cls hc).enclosing d (Option.filter_eq_some_iff.mp e).1).imp_right (·.has)

theorem lineage_walk {c : ClassId} (hc : s.HasClass c) :
    Walk (fun d => (s.cls d).superclass) c (s.lineage c) :=
  walk_chain h.superclass_lt _ c hc (Nat.lt_succ_self _)

theorem nesting_walk {c : ClassId} (hc : s.HasClass c) :
    Walk s.enclosing? c (s.nesting c) :=
  walk_chain h.enclosing_lt _ c hc (Nat.lt_succ_self _)

theorem lineage_nodup {c : ClassId} (hc : s.HasClass c) : (s.lineage c).Nodup :=
  (h.lineage_walk hc).nodup h.superclass_lt hc

theorem lineage_last {c : ClassId} (hc : s.HasClass c) :
    (s.lineage c).getLast? = some objectClass := by
  obtain ⟨z, hz, e⟩ := (h.lineage_walk hc).last
  have has : s.HasClass z :=
    (h.lineage_walk hc).forall (fun x y hx e => (h.superclass_lt x y hx e).2) hc z
      (List.mem_of_getLast? hz)
  have hi := (h.cls has).superclass
  rw [e] at hi
  rw [hz]
  exact congrArg (some ∘ ClassId.mk) hi

theorem superclass_eq_none_iff {c : ClassId} (hc : s.HasClass c) :
    (s.cls c).superclass = none ↔ c = objectClass := by
  have hs := (h.cls hc).superclass
  constructor
  · intro e
    rw [e] at hs
    exact congrArg ClassId.mk hs
  · intro e
    subst e
    cases e : (s.cls objectClass).superclass with
    | none => rfl
    | some p => rw [e] at hs; exact absurd hs.1 (Nat.not_lt_zero _)

/-! ## What lookups find -/

theorem lookup? {f : FrameId} {n : String} {v : Value} (e : s.lookup? f n = some v) :
    s.Knows v :=
  findSome?_of_forall (fun g _ hg => (h.locals g).get? hg) e

theorem registeredClass? {f : FrameId} {n : String} {c : ClassId}
    (e : s.registeredClass? f n = some c) : s.Proper c := by
  unfold Store.registeredClass? at e
  split at e
  · next d hd => cases e; exact (h.locals _).get? hd
  · cases e

theorem constant? {f : FrameId} {n : String} {v : Value} (e : s.constant? f n = some v) :
    s.Knows v := by
  unfold Store.constant? at e
  rcases Option.or_eq_some_iff.mp e with e | ⟨_, e⟩
  · exact findSome?_of_forall (fun c _ hc => (h.constants c).get? hc) e
  · exact h.lookup? e

theorem classVar? {c : ClassId} {n : String} {v : Value} (e : s.classVar? c n = some v) :
    s.Knows v :=
  findSome?_of_forall (fun d _ hd => (h.classVars d).get? hd) e

theorem instanceMethod? {c : ClassId} {n : String} {m : Callable}
    (e : s.instanceMethod? c n = some m) : s.Admits m :=
  findSome?_of_forall (fun d _ hd => (h.methods d).get? hd) e

theorem objectMethod? {o : ObjectData} {n : String} {m : Callable}
    (e : s.objectMethod? o n = some m) : s.Admits m := by
  unfold Store.objectMethod? at e
  rcases Option.or_eq_some_iff.mp e with e | ⟨_, e⟩
  · obtain ⟨c, _, e⟩ := Option.bind_eq_some_iff.mp e
    exact (h.methods c).get? e
  · exact h.instanceMethod? e

theorem method? {f : FrameId} {v : Value} (hv : s.Knows v) {n : String} {m : Callable}
    (e : s.method? f v n = some m) : s.MayRun m (some v) := by
  unfold Store.method? at e
  split at e
  · exact .inl (h.objectMethod? e)
  · next c =>
    unfold Store.classMethod? at e
    split at e
    · next hc => cases e; exact .inr ⟨rfl, c, rfl, hv.has, hc.2⟩
    · exact .inl (h.objectMethod? e)
  · obtain ⟨c, _, e⟩ := Option.bind_eq_some_iff.mp e
    exact .inl (h.instanceMethod? e)

theorem objectOf? {v : Value} (hv : s.Knows v) {o : ObjectData} (e : s.objectOf? v = some o) :
    s.ObjectSound o := by
  cases v with
  | object i => cases e; exact (h.object hv).1
  | cls c => cases e; exact (h.cls hv.has).object
  | _ => cases e

theorem classOf? {f : FrameId} {v : Value} (hv : s.Knows v) {c : ClassId}
    (e : s.classOf? f v = some c) : s.Proper c := by
  unfold Store.classOf? at e
  split at e
  · next o ho => cases e; exact (h.objectOf? hv ho).cls
  · obtain ⟨n, _, e⟩ := Option.bind_eq_some_iff.mp e
    exact h.registeredClass? e

end Store.SoundIn

end ObjectLang
