import ObjectLang.Decimal.Real
import ObjectLang.Proofs.Number.Rounding

/-!
# Integers as reals

An integer that is turned into a real keeps its sign, and its magnitude is rounded to 53 significant
digits. Cut off to an integer again, the real is what it was rounded to, but for the one that is
beyond the largest integer.
-/

namespace ObjectLang.Number

open Float.Model Float.Model.UnpackedFloat

/-! ## Dropping digits -/

section
variable (m k : Nat)

theorem shiftRight_exact : (⟨m, false, false⟩ : ExtendedMantissa) >>> (k + 1) =
    ⟨m / 2 ^ (k + 1), m / 2 ^ k % 2 != 0, m % 2 ^ k != 0⟩ := by
  induction k with
  | zero => simp [HShiftRight.hShiftRight, Nat.repeat, ExtendedMantissa.shiftRightOne, Nat.mod_one]
  | succ k ih =>
    change (((⟨m, false, false⟩ : ExtendedMantissa) >>> (k + 1)).shiftRightOne) = _
    rw [ih, ExtendedMantissa.shiftRightOne, Nat.div_div_eq_div_mul, ← Nat.pow_succ]
    have digits : m % 2 ^ (k + 1) = m % 2 ^ k + 2 ^ k * (m / 2 ^ k % 2) := by
      rw [Nat.pow_succ, Nat.mod_mul]
    have pos := Nat.two_pow_pos k
    congr 1
    rw [Bool.eq_iff_iff, digits]
    rcases Nat.mod_two_eq_zero_or_one (m / 2 ^ k) with h | h <;> simp [h]

theorem roundedMantissa_shiftRight :
    ((⟨m, false, false⟩ : ExtendedMantissa) >>> k).roundedMantissa = roundEven m k := by
  cases k with
  | zero =>
    rw [roundEven_zero]
    rfl
  | succ k =>
    have digits : m % 2 ^ (k + 1) = m % 2 ^ k + 2 ^ k * (m / 2 ^ k % 2) := by
      rw [Nat.pow_succ, Nat.mod_mul]
    have lt := Nat.mod_lt m (Nat.two_pow_pos k)
    rw [shiftRight_exact, roundEven, digits, Nat.pow_succ]
    generalize m / (2 ^ k * 2) = q
    -- The first of the dropped digits is the round bit, and the others make up the sticky bit.
    cases first : (m / 2 ^ k % 2 != 0) <;> cases others : (m % 2 ^ k != 0) <;>
      simp only [bne_iff_ne, bne_eq_false_iff_eq, ne_eq, Nat.mod_two_ne_zero] at first others <;>
      simp only [first, ExtendedMantissa.roundedMantissa, ExtendedMantissa.accuracy,
        Accuracy.roundToNearestEven] <;>
      split <;> omega

/-! ## Conversion -/

variable {m} {e : Int}

theorem targetExponent_eq (h : -1074 ≤ m.log2 + e - 52) :
    Format.binary64.targetExponent (totalExponent m e) = m.log2 + e - 52 := by
  simp only [Format.targetExponent, totalExponent, Format.mantissaBits, Format.minExponent]
  omega

theorem shiftToTargetExponent_eq {k : Nat} (hk : m.log2 = 52 + k) (he : -1074 ≤ e) :
    shiftToTargetExponent Format.binary64 m e .exact =
      ((⟨m, false, false⟩ : ExtendedMantissa) >>> k, e + k) := by
  have amount : (m.log2 + e - 52 - e).toNat = k := by omega
  rw [shiftToTargetExponent, targetExponent_eq (by omega), shiftToExponent]
  simp only [amount]
  rfl

theorem roundWithAccuracy_eq {s : Sign} {em em' : ExtendedMantissa} {d d' : Int} {r : Nat}
    (first : shiftToTargetExponent Format.binary64 m e .exact = (em, d))
    (rounds : em.roundedMantissa = r)
    (second : shiftToTargetExponent Format.binary64 r d .exact = (em', d'))
    (hp : 0 < em'.mantissa) :
    roundWithAccuracy Format.binary64 s m e .exact = .finite s em'.mantissa d' hp := by
  unfold roundWithAccuracy
  simp only [first, rounds, second]
  exact dif_neg hp.ne'

theorem roundEven_bounds (m k : Nat) :
    m / 2 ^ k ≤ roundEven m k ∧ roundEven m k ≤ m / 2 ^ k + 1 := by
  unfold roundEven
  split <;> omega

/-- A significand with at least 53 digits is rounded to 53 of them, and if that carries over into one
more, its last digit is a zero and can be dropped as well. -/
theorem exists_roundWithAccuracy (s : Sign) {k : Nat} (hk : m.log2 = 52 + k) (he : -1074 ≤ e) :
    ∃ p d hp, roundWithAccuracy Format.binary64 s m e .exact = .finite s p d hp ∧
      2 ^ 52 ≤ p ∧ p < 2 ^ 53 ∧
      (d = e + k ∧ p = roundEven m k ∨ d = e + k + 1 ∧ 2 * p = roundEven m k) := by
  have dropped : droppedDigits m = k := by rw [droppedDigits]; omega
  have units := units_of_log2 (m := m) (by omega)
  have bounds := roundEven_bounds m k
  rw [dropped] at units
  have first := shiftToTargetExponent_eq hk he
  by_cases carry : roundEven m k = 2 ^ 53
  · have second : shiftToTargetExponent Format.binary64 (roundEven m k) (e + k) .exact =
        (⟨2 ^ 52, false, false⟩, e + k + 1) := by
      rw [carry]
      exact shiftToTargetExponent_eq (k := 1) (by decide) (by omega)
    have result := roundWithAccuracy_eq (s := s) first (roundedMantissa_shiftRight m k) second
      (by decide)
    exact ⟨_, _, _, result, by decide, by decide, .inr ⟨rfl, carry.symm⟩⟩
  · have log : (roundEven m k).log2 = 52 := (Nat.log2_eq_iff (by omega)).mpr ⟨by omega, by omega⟩
    have second : shiftToTargetExponent Format.binary64 (roundEven m k) (e + k) .exact =
        (⟨roundEven m k, false, false⟩, e + k) := by
      rw [shiftToTargetExponent_eq (k := 0) log (by omega), Int.natCast_zero, Int.add_zero]
      rfl
    have range : 2 ^ 52 ≤ roundEven m k ∧ roundEven m k < 2 ^ 53 := by omega
    have pos : 0 < roundEven m k := by omega
    have result := roundWithAccuracy_eq (s := s) first (roundedMantissa_shiftRight m k) second pos
    exact ⟨_, _, _, result, range.1, range.2, .inl ⟨rfl, rfl⟩⟩

theorem ofNat_eq_round (pos : 0 < m) : UnpackedFloat.ofNat Format.binary64 m =
    UnpackedFloat.round Format.binary64 .positive m 0 := by
  have order : compare (m : Int) 0 = .gt := by
    rw [Int.compare_eq_gt]
    omega
  rw [UnpackedFloat.ofNat, UnpackedFloat.ofInt, UnpackedFloat.normalize, order]
  rfl

theorem log2_shiftLeft (pos : 0 < m) (j : Nat) : (m <<< j).log2 = m.log2 + j := by
  rw [Nat.shiftLeft_eq, Nat.log2_eq_iff (Nat.mul_pos pos (Nat.two_pow_pos j)).ne', Nat.pow_add,
    Nat.add_right_comm, Nat.pow_add]
  exact ⟨Nat.mul_le_mul_right _ (Nat.log2_self_le pos.ne'),
    Nat.mul_lt_mul_of_pos_right Nat.lt_log2_self (Nat.two_pow_pos j)⟩

theorem decreaseExponent_eq (m : Nat) : decreaseExponent m 0 (m.log2 + 0 - 52) =
    (m <<< (52 - m.log2), -((52 - m.log2 : Nat) : Int)) := by
  have amount : (0 - ((m.log2 : Int) + 0 - 52)).toNat = 52 - m.log2 := by omega
  rw [decreaseExponent]
  simp only [amount]
  rw [Int.zero_sub]

/-- A natural number as a real: a significand of 53 digits, and an exponent. -/
theorem exists_ofNat (pos : 0 < m) : ∃ p d hp,
    UnpackedFloat.ofNat Format.binary64 m = .finite .positive p d hp ∧
      2 ^ 52 ≤ p ∧ p < 2 ^ 53 ∧ -52 ≤ d ∧ d ≤ m.log2 ∧
      p * Decimal.twoPow d = rounded m * Decimal.twoPow (-d) := by
  rw [ofNat_eq_round pos, UnpackedFloat.round, targetExponent_eq (by omega), decreaseExponent_eq]
  obtain ⟨p, d, hp, e, low, high, value⟩ := exists_roundWithAccuracy .positive
    (m := m <<< (52 - m.log2)) (k := droppedDigits m) (e := -((52 - m.log2 : Nat) : Int))
    (by rw [log2_shiftLeft pos, droppedDigits]; omega) (by omega)
  refine ⟨p, d, hp, e, low, high, by simp only [droppedDigits] at value; omega,
    by simp only [droppedDigits] at value; omega, ?_⟩
  by_cases small : m.log2 ≤ 52
  · -- There is room for all digits, and for zeros behind them.
    rw [rounded_of_log2 small]
    rw [droppedDigits_eq_zero small, roundEven_zero, Nat.shiftLeft_eq] at value
    have lt := Nat.lt_log2_self (n := m)
    have room : m * 2 ^ (52 - m.log2) < 2 ^ (m.log2 + 1) * 2 ^ (52 - m.log2) :=
      Nat.mul_lt_mul_of_pos_right lt (Nat.two_pow_pos _)
    rw [← Nat.pow_add, show m.log2 + 1 + (52 - m.log2) = 53 by omega] at room
    obtain ⟨rfl, rfl⟩ := value.resolve_right (by omega)
    simp [Decimal.twoPow]
  · rw [show 52 - m.log2 = 0 by omega, Nat.shiftLeft_zero] at value
    rcases value with ⟨rfl, rfl⟩ | ⟨rfl, carry⟩
    · simp [Decimal.twoPow, rounded]
    · have up : (-((0 : Nat) : Int) + droppedDigits m + 1).toNat = droppedDigits m + 1 := by omega
      have down : (-(-((0 : Nat) : Int) + droppedDigits m + 1)).toNat = 0 := by omega
      rw [rounded, ← carry, Decimal.twoPow, Decimal.twoPow, up, down, Nat.pow_eq, Nat.pow_eq,
        Nat.pow_succ, Nat.pow_zero]
      ring

end

/-! ## Bits -/

theorem toNat_packComponents (s : Sign) (exponent : BitVec 11) (mantissa : BitVec 52) :
    (packComponents Format.binary64 s exponent mantissa).toNat =
      s.toBitVec.toNat * 2 ^ 63 + exponent.toNat * 2 ^ 52 + mantissa.toNat := by
  have hm := mantissa.isLt
  have he := exponent.isLt
  rw [packComponents, BitVec.toNat_append, BitVec.toNat_append,
    ← Nat.shiftLeft_add_eq_or_of_lt he, ← Nat.shiftLeft_add_eq_or_of_lt hm, Nat.shiftLeft_eq,
    Nat.shiftLeft_eq]
  omega

section
variable {s : Sign} {p : Nat} {d : Int} {hp : 0 < p}

/-- A real is kept with its first digit left out, as it is always a one. -/
structure Normal (p : Nat) (d : Int) : Prop where
  low : 2 ^ 52 ≤ p
  high : p < 2 ^ 53
  least : -1074 ≤ d
  most : d ≤ 971

theorem pack_normal (h : Normal p d) : UnpackedFloat.pack Format.binary64 (.finite s p d hp) =
    packComponents Format.binary64 s (BitVec.ofNat 11 (d + 1075).toNat) (BitVec.ofNat 52 p) := by
  obtain ⟨low, high, least, most⟩ := h
  have log : p.log2 = 52 := (Nat.log2_eq_iff (by omega)).mpr ⟨low, high⟩
  have biased : d + (Format.binary64.exponentBias : Nat) +
      (Format.binary64.mantissaBitsWithoutImplicit : Nat) = d + 1075 := by
    rw [show Format.binary64.exponentBias = 1023 by decide,
      show Format.binary64.mantissaBitsWithoutImplicit = 52 by decide]
    omega
  have finite : ¬ 2 ^ Format.binary64.exponentBits ≤ (d + 1075).toNat + 1 := by
    rw [show 2 ^ Format.binary64.exponentBits = 2048 by decide]
    omega
  rw [UnpackedFloat.pack]
  simp only [log, biased]
  rw [if_neg finite, if_pos (by decide)]

theorem unpack_pack_normal (h : Normal p d) :
    UnpackedFloat.unpack Format.binary64 (UnpackedFloat.pack Format.binary64 (.finite s p d hp)) =
      .finite s p d hp := by
  rw [pack_normal h]
  obtain ⟨low, high, least, most⟩ := h
  have field : (BitVec.ofNat 11 (d + 1075).toNat).toNat = (d + 1075).toNat := by
    rw [BitVec.toNat_ofNat]
    omega
  have notAll : BitVec.ofNat 11 (d + 1075).toNat ≠ -1#11 := by
    intro e
    rw [e, show (-1#11).toNat = 2047 by decide] at field
    omega
  have notZero : BitVec.ofNat 11 (d + 1075).toNat ≠ 0#11 := by
    intro e
    rw [e, show (0#11).toNat = 0 by decide] at field
    omega
  have fraction : (1#1 ++ BitVec.ofNat 52 p).toNat = p := by
    rw [BitVec.toNat_append, ← Nat.shiftLeft_add_eq_or_of_lt (BitVec.isLt _), Nat.shiftLeft_eq,
      BitVec.toNat_ofNat, BitVec.toNat_ofNat]
    omega
  have unbiased : ((d + 1075).toNat : Int) - ((Format.binary64.exponentBias : Nat) +
      (Format.binary64.mantissaBitsWithoutImplicit : Nat)) = d := by
    rw [show Format.binary64.exponentBias = 1023 by decide,
      show Format.binary64.mantissaBitsWithoutImplicit = 52 by decide]
    omega
  unfold UnpackedFloat.unpack
  simp only [unpackSign_packComponents, unpackExponent_packComponents,
    unpackMantissa_packComponents, if_neg notAll, if_neg notZero, field, fraction, unbiased,
    Sign.ofBitVec_toBitVec]

/-- The real with the given sign, significand and exponent. -/
def real (s : Sign) (p : Nat) (d : Int) (hp : 0 < p) : Float :=
  ⟨Float.Model.pack (.finite s p d hp)⟩

theorem neg_real (h : Normal p d) : -real s p d hp = real (-s) p d hp := by
  change Float.ofModel (Float.Model.pack (UnpackedFloat.neg (UnpackedFloat.unpack Format.binary64
    (UnpackedFloat.pack Format.binary64 (.finite s p d hp))))) = _
  rw [unpack_pack_normal h]
  rfl

theorem isNaN_real (h : Normal p d) : (real s p d hp).isNaN = false := by
  change UnpackedFloat.isNaN (UnpackedFloat.unpack Format.binary64
    (UnpackedFloat.pack Format.binary64 (.finite s p d hp))) = _
  rw [unpack_pack_normal h]
  rfl

theorem toNat_toBits_real (h : Normal p d) : (real s p d hp).toBits.toNat =
    s.toBitVec.toNat * 2 ^ 63 + (d + 1075).toNat * 2 ^ 52 + (p - 2 ^ 52) := by
  change (UnpackedFloat.pack Format.binary64 (.finite s p d hp)).toNat = _
  obtain ⟨low, high, least, most⟩ := id h
  rw [pack_normal h, toNat_packComponents, BitVec.toNat_ofNat, BitVec.toNat_ofNat]
  omega

theorem isNegative_real (h : Normal p d) :
    Decimal.isNegative (real s p d hp) = true ↔ s = .negative := by
  have bits : (real s p d hp).toBits.toNat = _ := toNat_toBits_real h
  obtain ⟨low, high, least, most⟩ := h
  have first : ((real s p d hp).toBits >>> 63).toNat = s.toBitVec.toNat := by
    have hs := s.toBitVec.isLt
    rw [UInt64.toNat_shiftRight, bits, Nat.shiftRight_eq_div_pow]
    change _ / 2 ^ 63 = _
    omega
  rw [Decimal.isNegative, bne_iff_ne, ne_eq, ← UInt64.toNat_inj, first]
  cases s <;> simp [Sign.toBitVec]

theorem magnitude_real (h : Normal p d) : Decimal.magnitude (real s p d hp) = ⟨p, d⟩ := by
  have bits : (real s p d hp).toBits.toNat = _ := toNat_toBits_real h
  obtain ⟨low, high, least, most⟩ := h
  have field : (((real s p d hp).toBits >>> 52) &&& 0x7ff).toNat = (d + 1075).toNat := by
    rw [UInt64.toNat_and, UInt64.toNat_shiftRight, bits, Nat.shiftRight_eq_div_pow]
    change _ / 2 ^ 52 &&& (2 ^ 11 - 1) = _
    rw [Nat.and_two_pow_sub_one_eq_mod]
    omega
  have fraction : ((real s p d hp).toBits &&& 0xfffffffffffff).toNat = p - 2 ^ 52 := by
    rw [UInt64.toNat_and, bits]
    change _ &&& (2 ^ 52 - 1) = _
    rw [Nat.and_two_pow_sub_one_eq_mod]
    omega
  rw [Decimal.magnitude]
  simp only [field, fraction]
  rw [if_neg (by omega), Nat.pow_eq, Nat.sub_add_cancel low]
  congr 1
  omega

/-- The integer with the given sign and magnitude. -/
def signed (s : Sign) (m : Nat) : Int :=
  match s with
  | .positive => m
  | .negative => -m

theorem ofReal_real {m : Nat} (h : Normal p d)
    (value : p * Decimal.twoPow d = m * Decimal.twoPow (-d)) :
    ofReal (real s p d hp) = clamp (signed s m) := by
  have floor : (Decimal.magnitude (real s p d hp)).floor = m := by
    rw [magnitude_real h, Decimal.Magnitude.floor, value]
    exact Nat.mul_div_cancel _ (Nat.two_pow_pos _)
  have negative : Decimal.isNegative (real s p d hp) = true ↔ s = .negative := isNegative_real h
  rw [ofReal, isNaN_real h, floor]
  cases s with
  | positive => rw [Bool.eq_false_iff.mpr (mt negative.mp (by simp))]; rfl
  | negative => rw [negative.mpr rfl]; rfl

end

/-! ## There and back -/

theorem Rounds.signed {m r : Nat} (h : Rounds m r) (s : Sign) :
    Rounds (signed s m) (signed s r) := by
  cases s with
  | positive => exact h
  | negative => exact h.neg

theorem toReal_eq {n : Int64} (h : n.toInt ≠ 0) : ∃ s p d hp, Normal p d ∧
    toReal n = real s p d hp ∧ n.toInt = signed s n.toInt.natAbs ∧
      p * Decimal.twoPow d = rounded n.toInt.natAbs * Decimal.twoPow (-d) := by
  have least := n.le_toInt
  have most := n.toInt_lt
  have pos : 0 < n.toInt.natAbs := Int.natAbs_pos.mpr h
  obtain ⟨p, d, hp, e, low, high, below, above, value⟩ := exists_ofNat pos
  have log : n.toInt.natAbs.log2 ≤ 63 := by
    rw [← Nat.lt_add_one_iff, Nat.log2_lt (by omega)]
    omega
  have normal : Normal p d := ⟨low, high, by omega, by omega⟩
  have positive : n.toInt.natAbs.toUInt64.toFloat = real .positive p d hp := by
    have same : n.toInt.natAbs.toUInt64.toNat = n.toInt.natAbs := by
      rw [Nat.toUInt64, UInt64.toNat_ofNat', Nat.mod_eq_of_lt (by omega)]
    change Float.ofModel (Float.Model.pack (UnpackedFloat.ofNat Format.binary64
      n.toInt.natAbs.toUInt64.toNat)) = _
    rw [same, e]
    rfl
  rw [toReal]
  simp only [positive]
  split
  · refine ⟨.negative, p, d, hp, normal, neg_real normal, ?_, value⟩
    simp only [signed]
    omega
  · refine ⟨.positive, p, d, hp, normal, rfl, ?_, value⟩
    simp only [signed]
    omega

theorem toInt_clamp {n : Int} (h : smallest ≤ n) : (clamp n).toInt = min n largest := by
  rw [clamp, Int64.toInt_ofInt_of_le] <;> simp only [smallest, largest] at * <;> omega

/-- An integer that was a real in between is rounded, and the largest reals are clamped. -/
theorem ofReal_toReal (n : Int64) :
    ∃ x, Rounds n.toInt x ∧ (ofReal (toReal n)).toInt = min x largest := by
  by_cases zero : n.toInt = 0
  · obtain rfl : n = 0 := Int64.toInt_inj.mp zero
    exact ⟨0, rounds_self ⟨0, 0, by decide, rfl⟩, by decide +kernel⟩
  obtain ⟨s, p, d, hp, normal, e, split, value⟩ := toReal_eq zero
  have rounds := (rounds_rounded n.toInt.natAbs).signed s
  rw [← split] at rounds
  -- The smallest integer is a power of two, and so nothing is rounded beyond it.
  have within := rounds.nearest smallest ⟨1, 63, by decide, by decide⟩
  have least := n.le_toInt
  refine ⟨_, rounds, ?_⟩
  rw [e, ofReal_real normal value, toInt_clamp]
  simp only [smallest] at within ⊢
  omega

theorem ofReal_toReal_of_significant {n : Int64} (h : Significant 53 n.toInt) :
    ofReal (toReal n) = n := by
  obtain ⟨x, rounds, e⟩ := ofReal_toReal n
  have most := n.toInt_lt
  rw [← Int64.toInt_inj, e, rounds.eq_self h, largest]
  omega

theorem ofReal_congr {x y : Float} (h : (x == y) = true) : ofReal x = ofReal y := by
  obtain ⟨-, -, rfl | ⟨rfl, rfl⟩ | ⟨rfl, rfl⟩⟩ := Float.beq_iff_ne_nan_and_eq.mp h
  · rfl
  · decide +kernel
  · decide +kernel

theorem eq_of_toReal {a b : Int64} (ha : Significant 53 a.toInt) (hb : Significant 53 b.toInt)
    (h : (toReal a == toReal b) = true) : a = b := by
  have same := ofReal_congr h
  rwa [ofReal_toReal_of_significant ha, ofReal_toReal_of_significant hb] at same

end ObjectLang.Number
