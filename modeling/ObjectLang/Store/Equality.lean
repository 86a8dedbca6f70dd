import ObjectLang.Store.Inspect
import ObjectLang.Fault

/-!
# Equality, order and hash keys

Data is equal by value and everything else by identity. Two collections that
are already being compared count as equal, so that collections inside
themselves can be compared.
-/

namespace ObjectLang

namespace Value

/-- Equality of values that are not collections. Integers compare exactly with integers and as
reals with reals. Functions are equal to nothing. -/
def sameAtom : Value → Value → Bool
  | nil, nil => true
  | bool a, bool b => a = b
  | int a, int b => a = b
  | int a, real y => Number.toReal a == y
  | real x, int b => x == Number.toReal b
  | real x, real y => x == y
  | str a, str b => a = b
  | symbol a, symbol b => a = b
  | range a b, range c d => a = c ∧ b = d
  | object a, object b => a = b
  | cls a, cls b => a = b
  | proc a, proc b => a = b
  | _, _ => false

def order? : Value → Value → Option Ordering
  | int a, int b => some (compare a.toInt b.toInt)
  | str a, str b => some (if a < b then .lt else if a = b then .eq else .gt)
  | v, w => do
    let x ← v.toReal?
    let y ← w.toReal?
    if x < y then some .lt else if x == y then some .eq else if y < x then some .gt else none

end Value

namespace Store

/-! ## Equality -/

/-- Equality of values while the pairs `path` are being compared, at most `fuel` deep. -/
def sameIn (s : Store) :
    (fuel : Nat) → (path : List (Container × Container)) → Value → Value → Bool
  | 0, _, _, _ => true
  | fuel + 1, path, v, w =>
    match v, w with
    | .array a, .array b =>
      let pair := (Container.array a, Container.array b)
      if a = b ∨ pair ∈ path then true
      else
        let xs := (s.array a).toList
        let ys := (s.array b).toList
        xs.length = ys.length ∧
          (xs.zip ys).all fun (x, y) => s.sameIn fuel (pair :: path) x y
    | .hash a, .hash b =>
      let pair := (Container.hash a, Container.hash b)
      if a = b ∨ pair ∈ path then true
      else
        let xs := (s.hash a).pairs
        let ys := (s.hash b).pairs
        xs.length = ys.length ∧
          (xs.zip ys).all fun ((k, x), (l, y)) =>
            s.sameIn fuel (pair :: path) k l && s.sameIn fuel (pair :: path) x y
    | v, w => v.sameAtom w

/-- No path holds more than every pair of two arrays and every pair of two hashes once. -/
def pairCount (s : Store) : Nat :=
  s.arrays.size * s.arrays.size + s.hashes.size * s.hashes.size

def same (s : Store) (v w : Value) : Bool :=
  s.sameIn (s.pairCount + 1) [] v w

/-! ## Hash keys -/

/-- Why a value has no key. -/
inductive KeyFault where
  /-- It holds an array inside of itself. -/
  | recursive
  /-- It holds a hash or a function. -/
  | unkeyed (v : Value)

def KeyFault.shown (s : Store) : KeyFault → TypeFault
  | recursive => .recursiveKey
  | unkeyed v => .notAKey (s.inspect v)

/-- The hash key of a value inside the arrays `path`, at most `fuel` deep. -/
def keyIn (s : Store) :
    (fuel : Nat) → (path : List ArrayId) → Value → Except KeyFault HashKey
  | 0, _, _ => .error .recursive
  | fuel + 1, path, v =>
    match v with
    | .nil => .ok .nil
    | .bool b => .ok (.bool b)
    | .int n => .ok (.int n)
    | .real x => .ok (.real (.ofReal x))
    | .str t => .ok (.str t)
    | .symbol t => .ok (.symbol t)
    | .array a =>
      if a ∈ path then .error .recursive
      else .array <$> (s.array a).toList.mapM (s.keyIn fuel (a :: path))
    | .range lower upper => .ok (.range lower upper)
    | .object o => .ok (.object o)
    | .cls c => .ok (.cls c)
    | .proc p => .ok (.proc p)
    | .hash _ | .function _ => .error (.unkeyed v)

def convert (s : Store) (v : Value) : Except KeyFault HashKey :=
  s.keyIn (s.arrays.size + 1) [] v

/-- The key that a hash finds the value by, unless it holds a hash, a function or itself. -/
def hashKey (s : Store) (v : Value) : Except TypeFault HashKey :=
  (s.convert v).mapError (·.shown s)

/-- Whether the hash is read to tell why the value has no key. -/
def readsForKey (s : Store) (h : HashId) (v : Value) : Bool :=
  match s.convert v with
  | .error (.unkeyed w) => s.reads h w
  | _ => false

end Store

end ObjectLang
