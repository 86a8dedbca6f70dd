import Mathlib
import ObjectLang.Number

/-!
# Rounding to significant digits

A real holds 53 binary digits of an integer. The integers that need no more are spaced by a power of
two, which depends on their size; so an integer lies between two of them, and the nearer one is found
from the digits that are dropped.
-/

namespace ObjectLang.Number

/-- At most `digits` binary digits, and zeros behind them. -/
def Significant (digits : Nat) (n : Int) : Prop :=
  ∃ m k : Nat, m < 2 ^ digits ∧ n.natAbs = m * 2 ^ k

/-- `x` is nearest to `n` of all integers with 53 significant digits. Of two that are equally near
it is the even one, the one that 52 digits would do for. -/
structure Rounds (n x : Int) : Prop where
  significant : Significant 53 x
  nearest : ∀ y, Significant 53 y → (x - n).natAbs ≤ (y - n).natAbs
  even : ∀ y, Significant 53 y → y ≠ x → (y - n).natAbs = (x - n).natAbs → Significant 52 x

/-- `n` in units of `2 ^ k`, rounded to the nearest number of them, or to the even one. -/
def roundEven (n k : Nat) : Nat :=
  if 2 * (n % 2 ^ k) < 2 ^ k ∨ (2 * (n % 2 ^ k) = 2 ^ k ∧ n / 2 ^ k % 2 = 0) then n / 2 ^ k
  else n / 2 ^ k + 1

/-- The digits that a real has no room for. -/
def droppedDigits (n : Nat) : Nat := n.log2 - 52

def rounded (n : Nat) : Nat :=
  roundEven n (droppedDigits n) * 2 ^ droppedDigits n

section
variable {n x y : Int} {m k q : Nat}

theorem Significant.neg {digits : Nat} (h : Significant digits n) : Significant digits (-n) := by
  obtain ⟨m, k, hm, e⟩ := h
  exact ⟨m, k, hm, by rw [Int.natAbs_neg, e]⟩

theorem Rounds.neg (h : Rounds n x) : Rounds (-n) (-x) where
  significant := h.significant.neg
  nearest y hy := by
    have le := h.nearest (-y) hy.neg
    omega
  even y hy other same := by
    refine (h.even (-y) hy.neg ?_ ?_).neg
    · omega
    · omega

theorem rounds_self (h : Significant 53 n) : Rounds n n where
  significant := h
  nearest y _ := by simp
  even y _ other same := by omega

theorem Rounds.eq_self (h : Rounds n x) (hn : Significant 53 n) : x = n := by
  have le := h.nearest n hn
  omega

/-! ## The neighbours of an integer -/

/-- Integers above `2 ^ 52` units have no significant digits below a unit. -/
theorem Significant.outside (h : Significant 53 y) (hq : 2 ^ 52 ≤ q) :
    y ≤ (q * 2 ^ k : Nat) ∨ ((q * 2 ^ k + 2 ^ k : Nat) : Int) ≤ y := by
  obtain ⟨m, j, hm, e⟩ := h
  by_cases le : y ≤ (q * 2 ^ k : Nat)
  · exact .inl le
  have abs : y = (m * 2 ^ j : Nat) := by omega
  rw [abs] at le ⊢
  have lt : q * 2 ^ k < m * 2 ^ j := by exact_mod_cast Int.not_le.mp le
  have jk : k ≤ j := by
    -- Otherwise `m` would have to have more than 53 digits.
    by_contra less
    have power : 2 ^ j * 2 ≤ 2 ^ k := by
      rw [← Nat.pow_succ]
      exact Nat.pow_le_pow_right Nat.two_pos (by omega)
    have low : 2 ^ 52 * (2 ^ j * 2) ≤ q * 2 ^ k := Nat.mul_le_mul hq power
    have high : m * 2 ^ j < 2 ^ 53 * 2 ^ j := Nat.mul_lt_mul_of_pos_right hm (Nat.two_pow_pos j)
    omega
  obtain ⟨d, rfl⟩ := Nat.exists_eq_add_of_le jk
  refine .inr ?_
  have units : m * 2 ^ (k + d) = m * 2 ^ d * 2 ^ k := by rw [Nat.pow_add]; ac_rfl
  rw [units] at lt ⊢
  have next : q + 1 ≤ m * 2 ^ d := Nat.lt_of_mul_lt_mul_right lt
  have le := Nat.mul_le_mul_right (2 ^ k) next
  rw [Nat.add_one_mul] at le
  exact_mod_cast le

theorem units_of_log2 (h : 52 ≤ m.log2) :
    2 ^ 52 ≤ m / 2 ^ droppedDigits m ∧ m / 2 ^ droppedDigits m < 2 ^ 53 := by
  have nonzero : m ≠ 0 := by
    rintro rfl
    simp at h
  have low := Nat.log2_self_le nonzero
  have high := Nat.lt_log2_self (n := m)
  have pos : 0 < 2 ^ droppedDigits m := Nat.two_pow_pos _
  have split : m.log2 = 52 + droppedDigits m := by rw [droppedDigits]; omega
  constructor
  · rw [Nat.le_div_iff_mul_le pos, ← Nat.pow_add, ← split]
    exact low
  · rw [Nat.div_lt_iff_lt_mul pos, ← Nat.pow_add]
    rwa [show 53 + droppedDigits m = m.log2 + 1 by omega]

theorem droppedDigits_eq_zero (h : m.log2 ≤ 52) : droppedDigits m = 0 :=
  Nat.sub_eq_zero_of_le h

theorem roundEven_zero (m : Nat) : roundEven m 0 = m := by
  simp [roundEven, Nat.mod_one]

theorem rounded_of_log2 (h : m.log2 ≤ 52) : rounded m = m := by
  rw [rounded, droppedDigits_eq_zero h, roundEven_zero, Nat.pow_zero, Nat.mul_one]

theorem significant_of_log2 (h : m.log2 ≤ 52) : Significant 53 m := by
  refine ⟨m, 0, ?_, by simp⟩
  have lt := Nat.lt_log2_self (n := m)
  exact lt.trans_le (Nat.pow_le_pow_right Nat.two_pos (by omega))

theorem significant_units {digits : Nat} (pos : digits ≠ 0) (h : q ≤ 2 ^ digits) (k : Nat) :
    Significant digits (q * 2 ^ k : Nat) := by
  rcases Nat.lt_or_eq_of_le h with lt | rfl
  · exact ⟨q, k, lt, rfl⟩
  · refine ⟨1, digits + k, Nat.one_lt_two_pow pos, ?_⟩
    rw [Int.natAbs_natCast, Nat.pow_add, Nat.one_mul]

/-- Half of an even number of units is a number of doubled units. -/
theorem significant_even (h : q ≤ 2 ^ 53) (even : q % 2 = 0) (k : Nat) :
    Significant 52 (q * 2 ^ k : Nat) := by
  obtain ⟨p, rfl⟩ := Nat.dvd_of_mod_eq_zero even
  rw [show 2 * p * 2 ^ k = p * 2 ^ (k + 1) by rw [Nat.pow_succ]; ac_rfl]
  exact significant_units (by decide) (by omega) _

theorem rounds_rounded (m : Nat) : Rounds m (rounded m) := by
  by_cases small : m.log2 ≤ 52
  · rw [rounded_of_log2 small]
    exact rounds_self (significant_of_log2 small)
  obtain ⟨low, high⟩ := units_of_log2 (m := m) (by omega)
  rw [rounded, roundEven]
  generalize droppedDigits m = k at low high ⊢
  have parts := Nat.div_add_mod' m (2 ^ k)
  have lt := Nat.mod_lt m (Nat.two_pow_pos k)
  -- Nothing with 53 digits lies between the two neighbours of `m`.
  have outside (y : Int) (hy : Significant 53 y) := hy.outside (k := k) low
  split
  · next down =>
    refine ⟨significant_units (by decide) high.le k, fun y hy => ?_, fun y hy other same => ?_⟩
    · have := outside y hy
      omega
    · have := outside y hy
      exact significant_even high.le (by omega) k
  · next up =>
    rw [Nat.add_one_mul]
    have next : Significant 53 ((m / 2 ^ k + 1) * 2 ^ k : Nat) :=
      significant_units (by decide) high k
    rw [Nat.add_one_mul] at next
    refine ⟨next, fun y hy => ?_, fun y hy other same => ?_⟩
    · have := outside y hy
      omega
    · have := outside y hy
      have even := significant_even (q := m / 2 ^ k + 1) high (by omega) k
      rwa [Nat.add_one_mul] at even

end

end ObjectLang.Number
