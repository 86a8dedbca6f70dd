import ObjectLang.Decimal.Real

/-!
# Integers and reals

Integers have 64 bits and a sign. A result outside their range is never
wrapped: it is refused, or replaced by the nearest integer that is in range.
-/

namespace ObjectLang.Number

def smallest : Int := -0x8000000000000000

def largest : Int := 0x7fffffffffffffff

def checked? (n : Int) : Option Int64 :=
  if smallest ≤ n ∧ n ≤ largest then some (Int64.ofInt n) else none

def clamp (n : Int) : Int64 :=
  Int64.ofInt (max smallest (min n largest))

def toReal (n : Int64) : Float :=
  let magnitude := n.toInt.natAbs.toUInt64.toFloat
  if n.toInt < 0 then -magnitude else magnitude

/-- A real cut off to an integer, and clamped. A real that is not a number becomes zero. -/
def ofReal (x : Float) : Int64 :=
  if x.isNaN then 0
  else
    let n : Int := (Decimal.magnitude x).floor
    clamp (if Decimal.isNegative x then -n else n)

end ObjectLang.Number
