/-!
# Sets of characters

A set of code points is kept as the ascending list of the code points at which
membership changes: the first bound is the first member, the second the first
non-member after it, and so on.
-/

namespace ObjectLang.Text

structure CharSet where
  bounds : List Nat

/-- Whether the number of bounds up to `c` is odd. -/
def insideBounds (c : Nat) : List Nat → Bool
  | [] => false
  | b :: rest => if c < b then false else !insideBounds c rest

def CharSet.contains (s : CharSet) (c : Char) : Bool :=
  insideBounds c.toNat s.bounds

end ObjectLang.Text
