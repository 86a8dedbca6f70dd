import Mathlib
import ObjectLang.Proofs.MethodResolution
import ObjectLang.Proofs.RunStates

/-!
# Class variables

A class variable is one slot, in the first class on the way up that holds it. A write goes to that
slot, or makes one where it is written if there is none, and the classes that read the new value are
those that come to the written slot first.
-/

namespace ObjectLang

namespace Store

variable {s t : Store} {c d h : ClassId} {n k : String} {v : Value}

/-! ## Slots -/

/-- The class has a slot of its own for the variable. -/
def HasVar (s : Store) (c : ClassId) (n : String) : Prop :=
  ((s.cls c).classVars.get? n).isSome

/-- On the way up from `c`, the class `h` is the first one with a slot for the variable. -/
def FirstHolder (s : Store) (n : String) (c h : ClassId) : Prop :=
  ∃ before after, Walk s.superclass? c (before ++ h :: after) ∧ s.HasVar h n ∧
    ∀ d ∈ before, ¬ s.HasVar d n

theorem firstHolder_iff {l : List ClassId} (w : Walk s.superclass? c l) :
    s.FirstHolder n c h ↔ l.find? (fun d => ((s.cls d).classVars.get? n).isSome) = some h := by
  rw [List.find?_eq_some_iff_append]
  constructor
  · rintro ⟨before, after, w', has, none⟩
    exact ⟨has, before, after, w.unique w', fun d hd => by simpa [HasVar] using none d hd⟩
  · rintro ⟨has, before, after, rfl, none⟩
    exact ⟨before, after, w, has, fun d hd => by simpa [HasVar] using none d hd⟩

/-- The store `t` is `s` with the value `v` in the slot of `h` for the variable. A class that comes
to this slot first reads the new value, and every other class reads what it read before. -/
structure WritesVar (s t : Store) (h : ClassId) (n : String) (v : Value) : Prop where
  slot : ∀ d k, (t.cls d).classVars.get? k =
    if d = h ∧ k = n then some v else (s.cls d).classVars.get? k
  table : ∀ d, d ≠ h → t.cls d = s.cls d
  kept : ∀ d, t.cls d = { s.cls d with classVars := (t.cls d).classVars }
  others : t = { s with classes := t.classes }
  seen : ∀ d, s.HasClass d → t.FirstHolder n d h → t.classVar? d n = some v
  unseen : ∀ d, s.HasClass d → ¬ t.FirstHolder n d h → t.classVar? d n = s.classVar? d n
  otherNames : ∀ d k, k ≠ n → t.classVar? d k = s.classVar? d k

/-! ## Reads behind a write -/

theorem superclass_of_kept
    (kept : ∀ d, t.cls d = { s.cls d with classVars := (t.cls d).classVars }) :
    t.superclass? = s.superclass? := by
  funext d
  rw [superclass?, kept]

theorem writesVar_modifyClass (sound : s.Sound) (hh : s.HasClass h) :
    s.WritesVar (s.modifyClass h fun d => { d with classVars := d.classVars.set n v }) h n v := by
  generalize ht : s.modifyClass h (fun d => { d with classVars := d.classVars.set n v }) = t
  have cls : ∀ d, t.cls d =
      if d = h then { s.cls h with classVars := (s.cls h).classVars.set n v } else s.cls d :=
    fun d => ht ▸ cls_modifyClass hh _ d
  have slot : ∀ d k, (t.cls d).classVars.get? k =
      if d = h ∧ k = n then some v else (s.cls d).classVars.get? k := by
    intro d k
    by_cases e : d = h
    · subst e
      simp [cls, Table.get?_set]
    · simp [cls, e]
  have kept : ∀ d, t.cls d = { s.cls d with classVars := (t.cls d).classVars } := by
    intro d
    by_cases e : d = h
    · subst e
      simp [cls]
    · simp [cls, e]
  have links := superclass_of_kept kept
  have lineage : t.lineage = s.lineage :=
    funext fun d => congrArg (chain · (d.index + 1) d) links
  have read : ∀ d, t.classVar? d n =
      if (s.lineage d).find? (fun e => ((t.cls e).classVars.get? n).isSome) = some h then some v
      else s.classVar? d n := by
    intro d
    rw [classVar?, classVar?, lineage]
    exact findSome?_of_slot (fun e => by simp [slot]) _
  have first : ∀ d, s.HasClass d → (t.FirstHolder n d h ↔
      (s.lineage d).find? (fun e => ((t.cls e).classVars.get? n).isSome) = some h) :=
    fun d hd => firstHolder_iff (links ▸ sound.lineage_walk hd)
  exact {
    slot := slot
    table := fun d e => by rw [cls, if_neg e]
    kept := kept
    others := by subst ht; rfl
    seen := fun d hd holds => by rw [read, if_pos ((first d hd).mp holds)]
    unseen := fun d hd holds => by rw [read, if_neg fun e => holds ((first d hd).mpr e)]
    otherNames := fun d k e => by simp [classVar?, lineage, slot, e] }

section
variable (w : s.WritesVar t h n v)
include w

theorem WritesVar.hasVar_iff : t.HasVar d k ↔ s.HasVar d k ∨ d = h ∧ k = n := by
  rw [HasVar, w.slot]
  by_cases e : d = h ∧ k = n <;> simp [e, HasVar]

theorem WritesVar.classVar?_eq (hc : s.HasClass c) {before after : List ClassId}
    (walk : Walk s.superclass? c (before ++ h :: after))
    (free : ∀ d ∈ before, d ≠ h ∧ ¬ s.HasVar d n) : t.classVar? c n = some v := by
  refine w.seen c hc ⟨before, after, superclass_of_kept w.kept ▸ walk, ?_, fun d hd => ?_⟩
  · exact w.hasVar_iff.mpr (.inr ⟨rfl, rfl⟩)
  · have := free d hd
    simp [w.hasVar_iff, this]

end

end Store

open Store

/-! ## Every write of every run -/

/-- At every point of every run: behind a write through the class `c`, the variable reads as the
written value there. If a class on the way up from `c` has a slot, the write goes to the first such
slot and makes no new one; otherwise it makes a slot in `c` and no other. Nothing else changes than
this slot and what the classes read that come to it first. -/
theorem class_variable_slots {s : Store} (hs : s.Visited) {c : ClassId} (hc : s.HasClass c)
    (n : String) (v : Value) :
    (s.setClassVar c n v).classVar? c n = some v ∧
    (∀ h, s.FirstHolder n c h → s.WritesVar (s.setClassVar c n v) h n v ∧
      ∀ d k, (s.setClassVar c n v).HasVar d k ↔ s.HasVar d k) ∧
    ((∀ h, ¬ s.FirstHolder n c h) → s.WritesVar (s.setClassVar c n v) c n v ∧ ¬ s.HasVar c n ∧
      ∀ d k, (s.setClassVar c n v).HasVar d k ↔ s.HasVar d k ∨ d = c ∧ k = n) := by
  have sound := hs.sound
  have walk := sound.lineage_walk hc
  have has : ∀ d ∈ s.lineage c, s.HasClass d :=
    walk.forall (fun x y hx e => (sound.superclass_lt x y hx e).2) hc
  have holder : ∀ h, s.FirstHolder n c h ↔ s.classVarHolder? c n = some h :=
    fun h => firstHolder_iff walk
  unfold setClassVar
  cases found : s.classVarHolder? c n with
  | some h =>
    obtain ⟨before, after, walk', own, free⟩ := (holder h).mpr found
    have onWay : h ∈ s.lineage c := by simp [walk.unique walk']
    have writes := writesVar_modifyClass (n := n) (v := v) sound (has h onWay)
    refine ⟨?_, fun h' first => ?_, fun none => absurd ((holder h).mpr found) (none h)⟩
    · exact writes.classVar?_eq hc walk' fun d hd => ⟨fun e => free d hd (e ▸ own), free d hd⟩
    · obtain rfl := Option.some.inj (found.symm.trans ((holder h').mp first))
      refine ⟨writes, fun d k => writes.hasVar_iff.trans (or_iff_left_of_imp ?_)⟩
      rintro ⟨rfl, rfl⟩
      exact own
  | none =>
    have writes := writesVar_modifyClass (n := n) (v := v) sound hc
    obtain ⟨rest, own⟩ : ∃ rest, s.lineage c = [] ++ c :: rest := ⟨_, rfl⟩
    have absent : ¬ s.HasVar c n := List.find?_eq_none.mp found c (by simp [own])
    refine ⟨?_, fun h first => ?_, fun _ => ⟨writes, absent, fun d k => writes.hasVar_iff⟩⟩
    · exact writes.classVar?_eq hc (own ▸ walk) (by simp)
    · cases found.symm.trans ((holder h).mp first)

/-- A new machine whose first class holds a variable, behind the body that has assigned it. -/
def sharedVarStore : Store :=
  (coreStore.enterBody Machine.root objectClass).2.setClassVar objectClass "count" (.int 0)

/-- A variable that the class of integers shares with the class of strings. A write through the one
is read through the other, and makes no slot of its own. -/
theorem class_variable_slots_shared :
    sharedVarStore.Visited ∧ sharedVarStore.HasClass ⟨6⟩ ∧
      (sharedVarStore.setClassVar ⟨6⟩ "count" (.int 1)).classVar? ⟨6⟩ "count" = some (.int 1) ∧
      (sharedVarStore.setClassVar ⟨6⟩ "count" (.int 1)).classVar? ⟨8⟩ "count" = some (.int 1) ∧
      ¬ (sharedVarStore.setClassVar ⟨6⟩ "count" (.int 1)).HasVar ⟨6⟩ "count" := by
  have ends : (evalExpr (perform 2) 2 Machine.root (.classDef (.name "Object") none
      (.assignClassVar "count" (.literal (.integer 0)))) coreStore).EndsIn sharedVarStore := rfl
  have visited : sharedVarStore.Visited :=
    .step (.start .usual coreStore.output) (core_sound .usual coreStore.output).hasRoot (.whole 2)
      ends
  have has : ∀ i, i < 14 → sharedVarStore.HasClass ⟨i⟩ := fun _ => id
  have walk : ∀ i, i = 6 ∨ i = 8 →
      Walk sharedVarStore.superclass? ⟨i⟩ ([⟨i⟩] ++ objectClass :: []) := by
    rintro i (rfl | rfl) <;> exact .step rfl (.stop rfl)
  have free : ∀ i, i = 6 ∨ i = 8 → ¬ sharedVarStore.HasVar ⟨i⟩ "count" := by
    rintro i (rfl | rfl) <;> exact Bool.false_ne_true
  obtain ⟨read, held, _⟩ := class_variable_slots visited (has 6 (by decide)) "count" (.int 1)
  obtain ⟨writes, slots⟩ := held objectClass
    ⟨_, _, walk 6 (.inl rfl), rfl, List.forall_mem_singleton.mpr (free 6 (.inl rfl))⟩
  refine ⟨visited, has 6 (by decide), read, ?_, (slots _ _).not.mpr (free 6 (.inl rfl))⟩
  refine writes.classVar?_eq (has 8 (by decide)) (walk 8 (.inr rfl)) ?_
  exact List.forall_mem_singleton.mpr ⟨by decide, free 8 (.inr rfl)⟩

end ObjectLang
