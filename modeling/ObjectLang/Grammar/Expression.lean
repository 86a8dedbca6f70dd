import ObjectLang.Grammar.Construct

/-!
# Expressions

Terms with their suffixes, the operators in four tiers, and on top of them
calls without parentheses and assignments.
-/

namespace ObjectLang.Grammar

open Parse

/-! ## Terms -/

/-- A name, or a call when an opening parenthesis follows without a gap. -/
def nameTerm (r : Nested) (fuel : Nat) (n : String) : Parse Expr := do
  if ← acceptTouching .lparen then
    let args ← parenArguments r fuel
    let args ← withBlock r args fuel
    pure (.call n args)
  else pure (.name n)

def group (r : Nested) (fuel : Nat) : Parse Expr := do
  let e ← restricted false do
    skipSeparators fuel
    let e ← r .expression
    skipSeparators fuel
    pure e
  expect .rparen
  pure e

def arrayTerm (r : Nested) (fuel : Nat) : Parse Expr := do
  let elements ← restricted false (delimited .rbracket (r .expression) fuel)
  pure (.array elements)

def hashEntry (r : Nested) (fuel : Nat) : Parse (Expr × Expr) := do
  let key ← r .expression
  expect .fatArrow
  skipNewlines fuel
  let value ← r .expression
  pure (key, value)

def hashTerm (r : Nested) (fuel : Nat) : Parse Expr := do
  let entries ← restricted false (delimited .rbrace (hashEntry r fuel) fuel)
  pure (.hash entries)

def fixedTerm (r : Nested) (fuel : Nat) (f : Fixed) (line : Nat) : Parse Expr :=
  match f with
  | .nilWord => pure (.literal .nil)
  | .trueWord => pure (.literal (.bool true))
  | .falseWord => pure (.literal (.bool false))
  | .selfWord => pure .selfRef
  | .lparen => group r fuel
  | .lbracket => arrayTerm r fuel
  | .lbrace => hashTerm r fuel
  | .ifWord => ifConstruct r fuel fuel
  | .whileWord => whileConstruct r fuel
  | .untilWord => untilConstruct r fuel
  | .forWord => forConstruct r fuel
  | .defWord => defConstruct r fuel
  | .classWord => classConstruct r fuel
  | .moduleWord => moduleConstruct r fuel
  | f => fail (.unexpected f.text) line

def term (r : Nested) (fuel : Nat) : Parse Expr := do
  let line ← lineHere
  match ← next with
  | none => fail .unexpectedEnd line
  | some l =>
    match l.token with
    | .integer n => pure (.literal (.integer n))
    | .real x => pure (.literal (.real x))
    | .str s => pure (.literal (.str s))
    | .symbol s => pure (.literal (.symbol s))
    | .instanceVar n => pure (.instanceVar n)
    | .classVar n => pure (.classVar n)
    | .name n => nameTerm r fuel n
    | .fixed f => fixedTerm r fuel f l.line

/-! ## Suffixes -/

def index (r : Nested) (fuel : Nat) : Parse Expr := do
  let e ← restricted false do
    skipNewlines fuel
    let e ← r .expression
    skipNewlines fuel
    pure e
  expect .rbracket
  pure e

/-- The next suffix of `e`. A bracket behind a gap is no suffix of a bare name, which may be a
call with an array as its argument. -/
def suffix (r : Nested) (fuel : Nat) (e : Expr) : Parse (Option Expr) := do
  match ← peek with
  | none => pure none
  | some l =>
    if l.token.isFixed .dot then
      let _ ← next
      let n ← methodName
      let args ← callArguments r fuel
      pure (some (.dot e n args))
    else if l.token.isFixed .doubleColon then
      let _ ← next
      let n ← methodName
      pure (some (.doubleColon e n))
    else if l.token.isFixed .lbracket && !(l.spaced && e.isName) then
      let _ ← next
      let i ← index r fuel
      pure (some (.indexed e i))
    else pure none

def suffixed (r : Nested) (fuel : Nat) : Parse Expr := do
  let e ← term r fuel
  iterate (suffix r fuel) fuel e

/-! ## Operators -/

/-- Prefix operators. A `!` negates a whole comparison. -/
def unary (r : Nested) (fuel : Nat) : (depth : Nat) → Parse Expr
  | 0 => unfinished
  | depth + 1 => do
    if ← accept .minus then
      let e ← unary r fuel depth
      pure (.negative e)
    else if ← accept .plus then unary r fuel depth
    else if ← accept .bang then
      let e ← r .comparison
      pure (.negation e)
    else suffixed r fuel

def operation (operator? : Token → Option (Expr → Expr → Expr)) (operand : Parse Expr)
    (left : Expr) : Parse (Option Expr) := do
  match (← peek).bind (operator? ·.token) with
  | none => pure none
  | some combine =>
    let _ ← next
    let right ← operand
    pure (some (combine left right))

/-- A tier of operators that group to the left. -/
def tier (operator? : Token → Option (Expr → Expr → Expr)) (operand : Parse Expr) (fuel : Nat) :
    Parse Expr := do
  let left ← operand
  iterate (operation operator? operand) fuel left

def multiplicativeOp? : Token → Option (Expr → Expr → Expr)
  | .fixed .star => some (.arith .multiply)
  | .fixed .slash => some (.arith .divide)
  | _ => none

def additiveOp? : Token → Option (Expr → Expr → Expr)
  | .fixed .plus => some (.arith .add)
  | .fixed .minus => some (.arith .subtract)
  | _ => none

def compareOp? : Token → Option (Expr → Expr → Expr)
  | .fixed .equalEqual => some (.compare .equal)
  | .fixed .bangEqual => some (.compare .notEqual)
  | .fixed .less => some (.compare .less)
  | .fixed .greater => some (.compare .greater)
  | .fixed .lessEqual => some (.compare .lessOrEqual)
  | .fixed .greaterEqual => some (.compare .greaterOrEqual)
  | _ => none

def multiplicative (r : Nested) (fuel : Nat) : Parse Expr :=
  tier multiplicativeOp? (unary r fuel fuel) fuel

def additive (r : Nested) (fuel : Nat) : Parse Expr :=
  tier additiveOp? (multiplicative r fuel) fuel

def comparison (r : Nested) (fuel : Nat) : Parse Expr :=
  tier compareOp? (additive r fuel) fuel

def range (r : Nested) (fuel : Nat) : Parse Expr := do
  let lower ← comparison r fuel
  if ← accept .dotDot then
    let upper ← comparison r fuel
    pure (.range lower upper)
  else pure lower

/-! ## Calls without parentheses and assignments -/

/-- A bare name is a call when an argument or a block follows it. -/
def commandCall (r : Nested) (fuel : Nat) (left : Expr) : Parse Expr :=
  match left with
  | .name n => do
    if ← argumentFollows then
      let args ← bareArguments r fuel
      let args ← withBlock r args fuel
      pure (.call n args)
    else
      match ← blockTrailer r fuel with
      | some b => pure (.call n [b])
      | none => pure left
  | left => pure left

def assignmentTo? (target value : Expr) : Option Expr :=
  match target with
  | .name n => some (.assign n value)
  | .instanceVar n => some (.assignInstanceVar n value)
  | .classVar n => some (.assignClassVar n value)
  | .indexed t i => some (.assignIndexed t i value)
  | .dot t n [] => some (.assignDot (.dot t n []) value)
  | _ => none

/-- The assigned value after the `=`. The target is judged once the value has been read. -/
def assignment (r : Nested) (fuel : Nat) (target : Expr) (line : Nat) : Parse Expr := do
  skipNewlines fuel
  let value ← r .expression
  match assignmentTo? target value with
  | some e => pure e
  | none => fail .invalidAssignmentTarget line

def expression (r : Nested) (fuel : Nat) : Parse Expr := do
  let line ← lineHere
  let left ← range r fuel
  let left ← commandCall r fuel left
  if ← accept .equals then assignment r fuel left line else pure left

end ObjectLang.Grammar
