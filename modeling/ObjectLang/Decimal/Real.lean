import ObjectLang.Decimal.Shortest

/-!
# Reals as text

Reals are written positionally, never with an exponent: in their shortest form,
or, for whole numbers that have to be told from integers, in full with one
decimal place.
-/

namespace ObjectLang.Decimal

/-- A finite real without its sign, as `significand · 2^exponent`. -/
structure Magnitude where
  significand : Nat
  exponent : Int

def isNegative (x : Float) : Bool :=
  x.toBits >>> 63 != 0

def magnitude (x : Float) : Magnitude :=
  let field := ((x.toBits >>> 52) &&& 0x7ff).toNat
  let fraction := (x.toBits &&& 0xfffffffffffff).toNat
  if field = 0 then ⟨fraction, -1074⟩ else ⟨fraction + Nat.pow 2 52, field - 1075⟩

/-- At a power of two the neighbour below is only half as far as the one above. -/
def Magnitude.rounding (v : Magnitude) : Rounding :=
  ⟨v.significand, v.exponent, if v.significand = Nat.pow 2 52 ∧ v.exponent ≠ -1074 then 1 else 2⟩

def Magnitude.floor (v : Magnitude) : Nat :=
  v.significand * twoPow v.exponent / twoPow (-v.exponent)

def Magnitude.isWhole (v : Magnitude) : Bool :=
  v.significand % twoPow (-v.exponent) = 0

/-- The digits of `d · 10^k`, with a decimal point when `k` is negative. -/
def positional (d : Nat) (k : Int) : List Char :=
  let digits := Nat.toDigits 10 d
  if 0 ≤ k then digits ++ List.replicate k.toNat '0'
  else
    let places := (-k).toNat
    let padded := List.replicate (places + 1 - digits.length) '0' ++ digits
    padded.take (padded.length - places) ++ '.' :: padded.drop (padded.length - places)

def signed (x : Float) (text : List Char) : String :=
  String.ofList (if isNegative x then '-' :: text else text)

def shortText (x : Float) : String :=
  if x.isNaN then "NaN"
  else if x.isInf then signed x "inf".toList
  else
    let v := magnitude x
    if v.significand = 0 then signed x ['0']
    else
      let (d, k) := v.rounding.shortest
      signed x (positional d k)

/-- The text of a real value: whole numbers are written out in full with one decimal place,
all others in their shortest form. -/
def realText (x : Float) : String :=
  let v := magnitude x
  if x.isFinite && v.isWhole then signed x (Nat.toDigits 10 v.floor ++ ['.', '0'])
  else shortText x

def digitsValue (cs : List Char) : Nat :=
  cs.foldl (fun n c => 10 * n + (c.toNat - '0'.toNat)) 0

/-- The real nearest to the decimal with the given digits before and after the point. -/
def ofDigits (whole fraction : List Char) : Float :=
  Float.ofScientific (digitsValue (whole ++ fraction)) true fraction.length

/-- Reads digits with an optional point and an optional exponent. -/
private def readUnsigned? (cs : List Char) : Option Float :=
  let whole := cs.takeWhile Char.isDigit
  let (fraction, rest) :=
    match cs.dropWhile Char.isDigit with
    | '.' :: r => (r.takeWhile Char.isDigit, r.dropWhile Char.isDigit)
    | r => ([], r)
  if whole.isEmpty && fraction.isEmpty then none
  else
    let value (shift : Int) : Float :=
      let places := fraction.length - shift
      Float.ofScientific (digitsValue (whole ++ fraction)) (0 < places) places.natAbs
    match rest with
    | [] => some (value 0)
    | e :: r =>
      if e = 'e' ∨ e = 'E' then
        let (negative, digits) :=
          match r with
          | '-' :: ds => (true, ds)
          | '+' :: ds => (false, ds)
          | ds => (false, ds)
        if digits.isEmpty || !digits.all Char.isDigit then none
        else some (value (if negative then -(digitsValue digits : Int) else digitsValue digits))
      else none

/-- Reads a real in any of its written forms, names of infinity and NaN included. -/
def read? (s : String) : Option Float :=
  let (negative, body) :=
    match s.toList with
    | '-' :: r => (true, r)
    | '+' :: r => (false, r)
    | r => (false, r)
  let value :=
    match String.ofList (body.map Char.toLower) with
    | "inf" | "infinity" => some (1.0 / 0.0)
    | "nan" => some (0.0 / 0.0)
    | _ => readUnsigned? body
  value.map fun x => if negative then -x else x

end ObjectLang.Decimal
