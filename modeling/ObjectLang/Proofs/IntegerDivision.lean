import ObjectLang.Eval.Operators
import ObjectLang.Proofs.Number.Reals

/-!
# Integer division

Both operands of a division become reals before they are cut off to integers. Only then are they
divided, which is exact: towards zero, and refused by zero and where the quotient is out of range.
So the quotient of two integers is that of what they are rounded to, and the right one if both have
no more digits than a real.
-/

namespace ObjectLang

open Number

/-- What dividing `a` by `b` should come to. -/
inductive Divides (s : Store) (a b : Int) : Outcome Value → Prop where
  | byZero (zero : b = 0) : Divides s a b (.fault .divisionByZero s)
  | overflow (least : a = smallest) (minus : b = -1) :
      Divides s a b (.fault (.overflow .division) s)
  | quotient (q : Int64) (r : Int) (nonzero : b ≠ 0) (within : ¬ (a = smallest ∧ b = -1))
      (split : a = b * q.toInt + r) (remainder : r.natAbs < b.natAbs)
      (sign : r = 0 ∨ r.sign = a.sign) : Divides s a b (.value (.int q) s)

section
variable {a b : Int}

/-- Only one quotient is out of range. -/
theorem tdiv_range (low : smallest ≤ a) (high : a ≤ largest)
    (within : ¬ (a = smallest ∧ b = -1)) : smallest ≤ a.tdiv b ∧ a.tdiv b ≤ largest := by
  simp only [smallest, largest] at *
  have size : (a.tdiv b).natAbs = a.natAbs / b.natAbs := Int.natAbs_tdiv a b
  by_cases unit : b.natAbs = 1
  · rcases Int.natAbs_eq_iff.mp unit with rfl | rfl
    · rw [Int.natCast_one, Int.tdiv_one]
      exact ⟨low, high⟩
    · rw [Int.natCast_one, Int.tdiv_neg, Int.tdiv_one]
      omega
  · have half : a.natAbs / b.natAbs ≤ a.natAbs / 2 := by
      by_cases zero : b.natAbs = 0
      · rw [zero, Nat.div_zero]
        exact Nat.zero_le _
      · exact Nat.div_le_div_left (by omega) Nat.two_pos
    omega

theorem sign_tmod_cases (a b : Int) : a.tmod b = 0 ∨ (a.tmod b).sign = a.sign := by
  by_cases h : b ∣ a
  · exact .inl (Int.tmod_eq_zero_of_dvd h)
  · exact .inr (by rw [Int.sign_tmod, if_neg h])

theorem divides_tdiv (s : Store) (low : smallest ≤ a) (high : a ≤ largest) :
    Divides s a b
      ((if b = 0 then Eval.fail .divisionByZero else Eval.integer .division (a.tdiv b)) s) := by
  by_cases zero : b = 0
  · rw [if_pos zero]
    exact .byZero zero
  rw [if_neg zero, Eval.integer, checked?]
  by_cases out : a = smallest ∧ b = -1
  · obtain ⟨rfl, rfl⟩ := out
    exact .overflow rfl rfl
  have range := tdiv_range low high out
  rw [if_pos range]
  have back : (Int64.ofInt (a.tdiv b)).toInt = a.tdiv b :=
    Int64.toInt_ofInt_of_le range.1 (by simp only [largest] at range; omega)
  refine .quotient _ (a.tmod b) zero out ?_ ?_ (sign_tmod_cases a b)
  · rw [back]
    exact (Int.mul_tdiv_add_tmod a b).symm
  · rw [Int.natAbs_tmod]
    exact Nat.mod_lt _ (Int.natAbs_pos.mpr zero)

end

theorem divide_int (a b : Int64) (s : Store) : Value.divide (.int a) (.int b) s =
    (if (ofReal (Number.toReal b)).toInt = 0 then Eval.fail .divisionByZero
      else Eval.integer .division
        ((ofReal (Number.toReal a)).toInt.tdiv (ofReal (Number.toReal b)).toInt)) s :=
  rfl

/-- The operands are rounded to 53 digits and clamped, and the division is exact on these. -/
theorem integer_division (s : Store) (a b : Int64) :
    (∃ x y, Rounds a.toInt x ∧ Rounds b.toInt y ∧
      Divides s (min x largest) (min y largest) (Value.divide (.int a) (.int b) s)) ∧
    (Significant 53 a.toInt → Significant 53 b.toInt →
      Divides s a.toInt b.toInt (Value.divide (.int a) (.int b) s)) := by
  have divides := divides_tdiv (a := (ofReal (Number.toReal a)).toInt)
    (b := (ofReal (Number.toReal b)).toInt) s
    (Int64.le_toInt _) (Int.le_of_lt_add_one (Int64.toInt_lt _))
  rw [← divide_int] at divides
  constructor
  · obtain ⟨x, hx, ex⟩ := ofReal_toReal a
    obtain ⟨y, hy, ey⟩ := ofReal_toReal b
    rw [ex, ey] at divides
    exact ⟨x, y, hx, hy, divides⟩
  · intro ha hb
    rwa [ofReal_toReal_of_significant ha, ofReal_toReal_of_significant hb] at divides

theorem integer_division_smallest :
    (Significant 53 (-0x8000000000000000) ∧ Significant 53 (-1)) ∧
      Divides .empty (-0x8000000000000000) (-1)
        (Value.divide (.int (-0x8000000000000000)) (.int (-1)) .empty) := by
  have least : Significant 53 (-0x8000000000000000) := ⟨1, 63, by decide, by decide⟩
  have minus : Significant 53 (-1) := ⟨1, 0, by decide, by decide⟩
  exact ⟨⟨least, minus⟩, (integer_division .empty (-0x8000000000000000) (-1)).2 least minus⟩

/-- The first integer that no real is equal to is not even divided by one. -/
theorem integer_division_rounded : ¬ Divides .empty 9007199254740993 1
    (Value.divide (.int 9007199254740993) (.int 1) .empty) := by
  have dividend : ofReal (Number.toReal 9007199254740993) = 9007199254740992 := by decide +kernel
  have divisor : ofReal (Number.toReal 1) = 1 := by decide +kernel
  rw [divide_int, dividend, divisor]
  change ¬ Divides _ _ _ (.value (.int 9007199254740992) .empty)
  rintro (_ | _ | ⟨_, r, -, -, split, remainder, -⟩)
  rw [show (9007199254740992 : Int64).toInt = 9007199254740992 by decide] at split
  omega

end ObjectLang
