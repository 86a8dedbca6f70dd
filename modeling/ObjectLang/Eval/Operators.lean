import ObjectLang.Eval.Outcome
import ObjectLang.Store.Equality

/-!
# Operators

Integers stay integers as long as the result is one, and every other pair of
numbers is taken as reals. Text on either side of a sum makes it a
concatenation.
-/

namespace ObjectLang

open Eval

/-! ## Integers -/

def Eval.integer (operation : IntegerOperation) (n : Int) : Eval Value :=
  match Number.checked? n with
  | some n => pure (.int n)
  | none => fail (.overflow operation)

/-! ## Operands in messages -/

/-- The class name of an operand; a class stands for itself. -/
def Store.operandClass (s : Store) (v : Value) : String :=
  match v with
  | .object o => (s.cls (s.object o).cls).name
  | .cls c => (s.cls c).name
  | v => v.builtinClass?.getD "Object"

def Eval.badOperands {α : Type} (operator : String) (left right : Value) : Eval α := do
  let l ← read (·.operandClass left)
  let r ← read (·.inspect right)
  fail (.noMethod operator (l ++ " with " ++ r))

/-! ## Arithmetic -/

namespace Value

def realOperation (operator : String) (op : Float → Float → Float) (left right : Value) :
    Eval Value :=
  match left.toReal?, right.toReal? with
  | some x, some y => pure (.real (op x y))
  | _, _ => badOperands operator left right

def isStr : Value → Bool
  | str _ => true
  | _ => false

def add (left right : Value) : Eval Value :=
  if left.isStr || right.isStr then do
    let l ← read (·.display left)
    let r ← read (·.display right)
    pure (.str (l ++ r))
  else
    match left, right with
    | int a, int b => integer .addition (a.toInt + b.toInt)
    | array a, array b => do
      let items ← read fun s => s.array a ++ s.array b
      let c ← Eval.add (·.addArray items)
      pure (.array c)
    | _, _ => realOperation "+" (· + ·) left right

def subtract (left right : Value) : Eval Value :=
  match left, right with
  | int a, int b => integer .subtraction (a.toInt - b.toInt)
  | _, _ => realOperation "-" (· - ·) left right

/-- The largest size in bytes that a text can have. -/
def textLimit : Nat := Nat.pow 2 63 - 1

def repeated (t : String) (n : Nat) : String :=
  if t.isEmpty then "" else String.join (List.replicate n t)

def multiply (left right : Value) : Eval Value :=
  match left, right with
  | int a, int b => integer .multiplication (a.toInt * b.toInt)
  | str t, int n =>
    if n.toInt < 0 then typeFail (.negativeCount n)
    else if textLimit < t.utf8ByteSize * n.toInt.toNat then crash
    else pure (.str (repeated t n.toInt.toNat))
  | _, _ => realOperation "*" (· * ·) left right

/-- A number cut off to an integer. Integers go through reals like all others. -/
def truncated? (v : Value) : Option Int :=
  v.toReal?.map fun x => (Number.ofReal x).toInt

def divide (left right : Value) : Eval Value :=
  match left.truncated?, right.truncated? with
  | some a, some b => if b = 0 then fail .divisionByZero else integer .division (a.tdiv b)
  | _, _ => badOperands "/" left right

def arith : ArithOp → Value → Value → Eval Value
  | .add => add
  | .subtract => subtract
  | .multiply => multiply
  | .divide => divide

def negate (v : Value) : Eval Value :=
  match v with
  | int n => integer .negation (-n.toInt)
  | real x => pure (.real (-x))
  | v => do
    let text ← read (·.inspect v)
    fail (.noMethod "-@" text)

/-! ## Comparison -/

def orderSatisfies (op : CompareOp) (o : Ordering) : Bool :=
  match op with
  | .less => o = .lt
  | .greater => o = .gt
  | .lessOrEqual => o ≠ .gt
  | .greaterOrEqual => o ≠ .lt
  | .equal => o = .eq
  | .notEqual => o ≠ .eq

def ordered (op : CompareOp) (left right : Value) : Eval Value :=
  match left.order? right with
  | some o => pure (.bool (orderSatisfies op o))
  | none => do
    let l ← read (·.operandClass left)
    let r ← read (·.inspect right)
    typeFail (.incomparable l r)

/-- Equality holds or fails for any two values; an order exists between numbers and between
strings. -/
def compareBy (op : CompareOp) (left right : Value) : Eval Value :=
  match op with
  | .equal => do
    let b ← read (·.same left right)
    pure (.bool b)
  | .notEqual => do
    let b ← read (·.same left right)
    pure (.bool !b)
  | op => ordered op left right

end Value

end ObjectLang
