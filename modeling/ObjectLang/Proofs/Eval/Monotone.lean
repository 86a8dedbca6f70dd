import ObjectLang.Proofs.Eval.Bound
import ObjectLang.Proofs.Eval.Related
import ObjectLang.Proofs.Eval.Sequence

/-!
# Evaluation under a larger bound

A performer with more final outcomes gives evaluation more of them, and none of them another
one. A task that has a final outcome under some bound has it without a bound, and what is
put together from tasks under large bounds does what it does without a bound.
-/

namespace ObjectLang

open Eval

theorem Eval.eq_endless {α : Type} {o : Outcome α} (h : ¬ o.isFinal) : o = .endless := by
  cases o with
  | @unfinished halt =>
    cases halt with
    | endless => rfl
    | crash _ => exact absurd rfl h
  | value _ _ | fault _ _ => exact absurd rfl h

theorem below_congruence : Congruence Below where
  endless := endless_below
  pure _ := .refl _
  fail _ := .refl _
  crash := .refl _
  bind := Below.bind
  read _ := .refl _
  change _ := .refl _
  add _ := .refl _
  puts _ := .refl _

theorem perform_below (fuel : Nat) (t : Task) : (perform fuel t).Below (perform (fuel + 1) t) :=
  perform_related below_congruence (Nat.le_succ fuel) t

/-- A task has an outcome exactly when it has it under some bound. -/
theorem performer_eq_iff (t : Task) (s : Store) {o : Outcome Value} (fin : o.isFinal = true) :
    performer t s = o ↔ ∃ fuel, perform fuel t s = o := by
  constructor
  · intro e
    rcases underBound_cases (fun fuel => perform fuel t) Eval.fuel s with u | ⟨fuel, u⟩
    · rw [performer, u] at e; subst e; cases fin
    · exact ⟨fuel, u.symm.trans e⟩
  · intro both
    obtain ⟨fuel, rfl⟩ := both
    exact underBound_of_final (x := fun fuel => perform fuel t)
      (fun n => perform_below n t) fin _

theorem perform_below_performer (fuel : Nat) (t : Task) :
    (perform fuel t).Below (performer t) := by
  intro s
  by_cases fin : (perform fuel t s).isFinal
  · exact .inr ((performer_eq_iff t s fin).mpr ⟨fuel, rfl⟩).symm
  · exact .inl (eq_endless fin)

/-- Commands have an outcome if they all have theirs under some bound. -/
theorem commandsFrom_of_perform {fuel : Nat} {f : FrameId} {last : Value} {commands : List Expr}
    {s : Store} {o : Outcome Value} (fin : o.isFinal = true)
    (run : commandsFrom (perform fuel) f last commands s = o) :
    commandsFrom performer f last commands s = o := by
  rcases commandsFrom_related below_congruence (perform_below_performer fuel) f last commands s
    with e | e
  · rw [← run, e] at fin
    cases fin
  · exact e.symm.trans run

/-- At the start of the program there is nothing to let go. -/
theorem evalProgram_of_perform (fuel : Nat) {f : FrameId} {commands : List Expr} {s : Store}
    {o : Outcome Value} (start : s.release f [] = s) (fin : o.isFinal = true)
    (run : commandsFrom (perform fuel) f .nil commands s = o) : evalProgram f commands s = o := by
  change commandsFrom performer f .nil commands (s.release f []) = o
  rw [start]
  exact commandsFrom_of_perform fin run

/-! ## Outcomes that can be computed -/

namespace Eval

variable {α : Type} {x : Eval α} {s : Store} {P : α → Store → Prop} {Q : Fault → Store → Prop}

/-- Run from the store, the step ends with a value of which, with the store it leaves, `P` holds. -/
def HasValue (x : Eval α) (s : Store) (P : α → Store → Prop) : Prop :=
  ∃ a s', x s = .value a s' ∧ P a s'

/-- Run from the store, the step ends with a fault of which, with the store it leaves, `Q` holds. -/
def HasFault (x : Eval α) (s : Store) (Q : Fault → Store → Prop) : Prop :=
  ∃ f s', x s = .fault f s' ∧ Q f s'

theorem hasValue_iff {a : α} {s' : Store} (h : x s = .value a s') : P a s' ↔ x.HasValue s P := by
  refine ⟨fun p => ⟨a, s', h, p⟩, fun ⟨_, _, same, p⟩ => ?_⟩
  cases h.symm.trans same
  exact p

theorem hasFault_iff {f : Fault} {s' : Store} (h : x s = .fault f s') :
    Q f s' ↔ x.HasFault s Q := by
  refine ⟨fun q => ⟨f, s', h, q⟩, fun ⟨_, _, same, q⟩ => ?_⟩
  cases h.symm.trans same
  exact q

instance [∀ a s', Decidable (P a s')] : Decidable (x.HasValue s P) :=
  match h : x s with
  | .value a s' => decidable_of_iff (P a s') (hasValue_iff h)
  | .fault _ _ | .unfinished => isFalse fun ⟨_, _, same, _⟩ => by cases h.symm.trans same

instance [∀ f s', Decidable (Q f s')] : Decidable (x.HasFault s Q) :=
  match h : x s with
  | .fault f s' => decidable_of_iff (Q f s') (hasFault_iff h)
  | .value _ _ | .unfinished => isFalse fun ⟨_, _, same, _⟩ => by cases h.symm.trans same

end Eval

/-! ## Limits -/

namespace Eval

variable {α β : Type} {x : Nat → Eval α} {y y' : Eval α} {k : Nat → α → Eval β} {l : α → Eval β}

/-- In each store, the steps under large bounds do what `y` does. -/
def Limit (x : Nat → Eval α) (y : Eval α) : Prop :=
  ∀ s, ∃ n, ∀ fuel, n ≤ fuel → x fuel s = y s

theorem limit_const (y : Eval α) : Limit (fun _ => y) y :=
  fun _ => ⟨0, fun _ _ => rfl⟩

theorem Limit.bind (hx : Limit x y) (hk : ∀ a, Limit (fun fuel => k fuel a) (l a)) :
    Limit (fun fuel => x fuel >>= k fuel) (y >>= l) := by
  intro s
  obtain ⟨m, hm⟩ := hx s
  cases e : y s with
  | value a s' =>
    obtain ⟨n, hn⟩ := hk a s'
    refine ⟨max m n, fun fuel le => bind_agree (hm fuel (by omega)) fun b t eq => ?_⟩
    cases e.symm.trans eq
    exact hn fuel (by omega)
  | fault _ _ | unfinished =>
    refine ⟨m, fun fuel le => bind_agree (hm fuel le) fun b t eq => ?_⟩
    cases e.symm.trans eq

theorem Limit.later (h : Limit x y) : Limit (fun fuel => x (fuel + 1)) y := by
  intro s
  obtain ⟨n, hn⟩ := h s
  exact ⟨n, fun fuel le => hn (fuel + 1) (by omega)⟩

theorem Limit.unique (h : Limit x y) (h' : Limit x y') : y = y' := by
  funext s
  obtain ⟨m, hm⟩ := h s
  obtain ⟨n, hn⟩ := h' s
  exact (hm (max m n) (by omega)).symm.trans (hn (max m n) (by omega))

end Eval

theorem limit_perform (t : Task) : Limit (fun fuel => perform fuel t) (performer t) := by
  intro s
  by_cases fin : (performer t s).isFinal
  · obtain ⟨n, hn⟩ := (performer_eq_iff t s fin).mp rfl
    refine ⟨n, fun fuel le => ?_⟩
    rcases below_of_le (fun n => perform_below n t) le s with e | e
    · rw [← hn, e] at fin
      cases fin
    · exact e.symm.trans hn
  · -- Had it a final outcome under some bound, it would have it without one.
    refine ⟨0, fun fuel _ => ?_⟩
    by_cases ends : (perform fuel t s).isFinal
    · exact ((performer_eq_iff t s ends).mpr ⟨fuel, rfl⟩).symm
    · exact (eq_endless ends).trans (eq_endless fin).symm

end ObjectLang
