/-!
# Shortest decimals

A binary number `m · 2^q` stands for every real that rounds to it. Of the
decimals in that interval the shortest are those on the coarsest grid of powers
of ten that meets it, and of these the one nearest to the number is chosen. All
arithmetic is exact.
-/

namespace ObjectLang.Decimal

/-- The natural number `10 ^ n` if `n` is not negative, else one. -/
def tenPow (n : Int) : Nat := Nat.pow 10 n.toNat

/-- The natural number `2 ^ n` if `n` is not negative, else one. -/
def twoPow (n : Int) : Nat := Nat.pow 2 n.toNat

/-- The reals that round to `m · 2^q`, in quarters of the last binary place: from
`4m - below` to `4m + 2`, the ends included when `m` is even. -/
structure Rounding where
  m : Nat
  q : Int
  below : Nat

/-- The multiple of `10^k` chosen for the number, as a multiplier, if one rounds to it. -/
def Rounding.onGrid? (r : Rounding) (k : Int) : Option Nat :=
  let cell := tenPow k * twoPow (2 - r.q)
  let quarter := tenPow (-k) * twoPow (r.q - 2)
  let value := 4 * r.m * quarter
  let low := (4 * r.m - r.below) * quarter
  let high := (4 * r.m + 2) * quarter
  let down := value / cell
  let closed := r.m % 2 = 0
  let downFits := low < down * cell ∨ (closed ∧ low = down * cell)
  let upFits := (down + 1) * cell < high ∨ (closed ∧ (down + 1) * cell = high)
  if downFits ∧ upFits then
    some (if 2 * (value % cell) < cell then down else down + 1)
  else if downFits then some down
  else if upFits then some (down + 1)
  else none

/-- Tries the grids `10^k`, `10^(k-1)`, … in turn, at most `fuel` of them. -/
def Rounding.search (r : Rounding) : (fuel : Nat) → (k : Int) → Nat × Int
  | 0, k => (0, k)
  | fuel + 1, k =>
    match r.onGrid? k with
    | some d => (d, k)
    | none => r.search fuel (k - 1)

/-- A grid coarser than the number itself, close above it. -/
def Rounding.coarse (r : Rounding) : Int :=
  (r.q + Nat.log2 r.m + 1) * 30103 / 100000 + 2

/-- Digits `d` and exponent `k` of the shortest decimal `d · 10^k` that rounds to the number. -/
def Rounding.shortest (r : Rounding) : Nat × Int :=
  r.search 40 r.coarse

end ObjectLang.Decimal
