import ObjectLang.Eval.Outcome
import ObjectLang.Store.Equality

/-!
# Arrays, hashes, ranges and their elements
-/

namespace ObjectLang

open Eval

/-! ## Making collections -/

def Eval.newArray (items : Array Value) : Eval Value := do
  let a ← Eval.add (·.addArray items)
  pure (.array a)

def Eval.hashKey (v : Value) : Eval HashKey := do
  match ← read (·.hashKey v) with
  | .ok k => pure k
  | .error f => typeFail f

namespace HashTable

/-- The value bound to the key that `key` has now. -/
def find (t : HashTable) (key : Value) : Eval (Option Value) := do
  let k ← hashKey key
  pure (t.get? k)

/-- Binds the key that `key` has now to `v`. -/
def put (t : HashTable) (key v : Value) : Eval HashTable := do
  let k ← hashKey key
  pure (t.insert k key v)

end HashTable

def Eval.newSymbols (names : List String) : Eval Value :=
  newArray (names.map .symbol).toArray

/-! ## Indexing -/

def Eval.indexInteger (v : Value) : Eval Int :=
  match v.toInt? with
  | some n => pure n.toInt
  | none => do
    let text ← read (·.inspect v)
    typeFail (.indexConversion text)

/-- The position that an index stands for. Negative ones count from the end, as far as the
start. -/
def position? (index : Int) (size : Nat) : Option Nat :=
  if 0 ≤ index then some index.toNat
  else if index.natAbs ≤ size then some (size - index.natAbs)
  else none

/-- Reads `target[index]`; there is `nil` where there is no element. -/
def Value.getIndex (target index : Value) : Eval Value :=
  match target with
  | .array a => do
    let i ← indexInteger index
    let items ← read (·.array a)
    pure (((position? i items.size).bind (items[·]?)).getD .nil)
  | .hash h => do
    let t ← read (·.hash h)
    let found ← t.find index
    pure (found.getD .nil)
  | .str t => do
    let i ← indexInteger index
    let cs := t.toList
    pure (((position? i cs.length).bind (cs[·]?)).elim .nil fun c => .str c.toString)
  | target => do
    let text ← read (·.inspect target)
    fail (.notIndexable text)

/-- The array with `v` at position `i`, and `nil` in any gap before it. -/
def putAt (items : Array Value) (i : Nat) (v : Value) : Array Value :=
  if i < items.size then items.setIfInBounds i v
  else (items ++ Array.replicate (i - items.size) Value.nil).push v

/-- Writes `target[index] = v`. -/
def Value.setIndex (target index v : Value) : Eval Unit :=
  match target with
  | .array a => do
    let i ← indexInteger index
    let size ← read fun s => (s.array a).size
    match position? i size with
    | none => fail (.indexOutOfRange (Int64.ofInt i))
    | some p =>
      let room ← read (·.hasRoom (p + 1))
      if p < size ∨ room then change (·.modifyArray a fun items => putAt items p v)
      else fail .allocationFailed
  | .hash h => do
    -- The hash is locked for the change, even while a value that has no key is shown.
    if ← read (·.readsForKey h index) then crash
    else
      let t ← read (·.hash h)
      let t ← t.put index v
      change (·.modifyHash h fun _ => t)
  | target => do
    let text ← read (·.inspect target)
    fail (.notIndexable text)

/-! ## Elements -/

/-- What a loop over a collection visits. Elements of arrays and hashes are taken when the loop
begins, and integers of a range one at a time. -/
inductive Elements where
  | values (vs : List Value)
  | integers (lower : Int) (count : Nat)

def Elements.between (lower upper : Int) : Elements :=
  .integers lower (upper - lower + 1).toNat

def Eval.newPairs : List (Value × Value) → Eval (List Value) :=
  Eval.each fun (k, v) => newArray #[k, v]

/-- The elements of a collection. Entries of a hash are pairs. -/
def Eval.elements (collection : Value) : Eval Elements :=
  match collection with
  | .array a => do
    let items ← read fun s => (s.array a).toList
    pure (.values items)
  | .range lower upper => pure (.between lower.toInt upper.toInt)
  | .hash h => do
    let pairs ← read fun s => (s.hash h).pairs
    let vs ← newPairs pairs
    pure (.values vs)
  | collection => do
    let text ← read (·.inspect collection)
    fail (.notEnumerable text)

def intValue (n : Int) : Value := .int (Int64.ofInt n)

namespace Elements

def visit (step : Value → Eval Unit) : Elements → Eval Unit
  | values vs => Eval.visit step vs
  | integers lower count => Eval.visitIntegers (fun n => step (intValue n)) count lower

def map (step : Value → Eval Value) : Elements → Eval (Array Value)
  | values vs => Eval.eachOnto step #[] vs
  | integers lower count => Eval.eachIntegerOnto (fun n => step (intValue n)) #[] count lower

def size : Elements → Nat
  | values vs => vs.length
  | integers _ count => count

def toArray : Elements → Array Value
  | values vs => vs.toArray
  | integers lower count => Array.ofFn fun i : Fin count => intValue (lower + i.val)

end Elements

end ObjectLang
