import ObjectLang.Eval

/-!
# Bounds

A larger bound changes the outcome only of a step that has reached the smaller one. So evaluation without a
bound has the outcome that any large enough bound gives.
-/

namespace ObjectLang

open Eval

namespace Eval

theorem firstFrom_step (p : Nat → Bool) (n : Nat) :
    firstFrom p n = if p n then some n else firstFrom p (n + 1) := by
  unfold firstFrom
  rw [repeatM_eq_of_monadTail]
  by_cases h : p n <;> simp [repeatM.body, h]

theorem firstFrom_add {p : Nat → Bool} (d : Nat) : ∀ n, p (n + d) = true →
    ∃ k, n ≤ k ∧ firstFrom p n = some k ∧ p k = true := by
  induction d with
  | zero =>
    intro n (h : p n = true)
    exact ⟨n, Nat.le_refl n, by rw [firstFrom_step, if_pos h], h⟩
  | succ d ih =>
    intro n h
    by_cases hn : p n = true
    · exact ⟨n, Nat.le_refl n, by rw [firstFrom_step, if_pos hn], hn⟩
    · obtain ⟨k, hk, e, hp⟩ := ih (n + 1) (by rw [← h]; congr 1; omega)
      exact ⟨k, by omega, by rw [firstFrom_step, if_neg hn, e], hp⟩

variable {α β : Type}

/-! ## Steps with more final outcomes -/

/-- Where the outcome of `x` is final, `y` has the same one. -/
def Below (x y : Eval α) : Prop :=
  ∀ s, x s = .endless ∨ x s = y s

theorem Below.refl (x : Eval α) : x.Below x :=
  fun _ => .inr rfl

theorem Below.trans {x y z : Eval α} (h : x.Below y) (h' : y.Below z) : x.Below z := by
  intro s
  rcases h s with e | e
  · exact .inl e
  · rw [e]; exact h' s

theorem endless_below (x : Eval α) : (endless : Eval α).Below x :=
  fun _ => .inl rfl

theorem Below.bind {x y : Eval α} {f g : α → Eval β} (h : x.Below y)
    (hf : ∀ a, (f a).Below (g a)) : (x >>= f).Below (y >>= g) := by
  intro s
  change Eval.bind x f s = _ ∨ Eval.bind x f s = Eval.bind y g s
  unfold Eval.bind
  rcases h s with e | e
  · rw [e]; exact .inl rfl
  · rw [← e]
    cases x s with
    | value a s => exact hf a s
    | fault f s => exact .inr rfl
    | unfinished => exact .inr rfl

/-! ## Steps without a bound -/

theorem underBound_cases (x : Nat → Eval α) (n : Nat) (s : Store) :
    underBound x n s = .endless ∨ ∃ bound, underBound x n s = x bound s := by
  unfold underBound
  cases e : x n s with
  | @unfinished halt =>
    cases halt with
    | endless =>
      simp only
      split
      · next bound _ => exact .inr ⟨bound, rfl⟩
      · exact .inl rfl
    | crash t => exact .inr ⟨n, e.symm⟩
  | value a s' => exact .inr ⟨n, e.symm⟩
  | fault f s' => exact .inr ⟨n, e.symm⟩

theorem below_of_le {x : Nat → Eval α} (h : ∀ n, (x n).Below (x (n + 1))) {m n : Nat}
    (le : m ≤ n) : (x m).Below (x n) := by
  induction le with
  | refl => exact .refl _
  | step _ ih => exact ih.trans (h _)

theorem underBound_of_final {x : Nat → Eval α} (h : ∀ n, (x n).Below (x (n + 1))) {m : Nat}
    {s : Store} (fin : (x m s).isFinal = true) (n : Nat) : underBound x n s = x m s := by
  have grow : ∀ {a b}, a ≤ b → (x a s).isFinal = true → x b s = x a s := by
    intro a b le ha
    rcases below_of_le h le s with e | e
    · rw [e] at ha; cases ha
    · exact e.symm
  have both : ∀ {k}, (x k s).isFinal = true → x k s = x m s := by
    intro k hk
    rcases Nat.le_total k m with le | le
    · exact (grow le hk).symm
    · exact grow le fin
  unfold underBound
  cases e : x n s with
  | @unfinished halt =>
    cases halt with
    | endless =>
      have hn : n ≤ m := by
        rcases Nat.le_total n m with le | le
        · exact le
        · rw [grow le fin] at e; rw [e] at fin; cases fin
      obtain ⟨k, _, ek, hk⟩ := firstFrom_add (p := fun bound => (x bound s).isFinal) (m - n) n
        (by rw [Nat.add_sub_cancel' hn]; exact fin)
      simp only [ek]
      exact both hk
    | crash t => exact e.symm.trans (both (by rw [e]; rfl))
  | value a s' => exact e.symm.trans (both (by rw [e]; rfl))
  | fault f s' => exact e.symm.trans (both (by rw [e]; rfl))

end Eval

end ObjectLang
