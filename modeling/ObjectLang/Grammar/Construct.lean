import ObjectLang.Grammar.Command

/-!
# Constructs that begin with a keyword

Conditions, loops and definitions, each after its keyword.
-/

namespace ObjectLang.Grammar

open Parse

/-! ## Conditions and loops -/

/-- A condition and its branches. An `elif` opens a condition of its own in the place of the
else branch, and shares the `end`. -/
def ifConstruct (r : Nested) (fuel : Nat) : (depth : Nat) → Parse Expr
  | 0 => unfinished
  | depth + 1 => do
    let condition ← r .expression
    if ← accept .thenWord then pure () else headerEnd
    let thenBody ← commandList r [.endWord, .elseWord, .elifWord] fuel
    if ← accept .elifWord then
      let other ← ifConstruct r fuel depth
      pure (.ifElse condition (.ofBody thenBody) (some other))
    else if ← accept .elseWord then
      let other ← bodyUntilEnd r fuel
      pure (.ifElse condition (.ofBody thenBody) (some other))
    else
      expect .endWord
      pure (.ifElse condition (.ofBody thenBody) none)

def loopHeader (r : Nested) : Parse Expr := do
  let e ← restricted true (r .expression)
  if ← accept .doWord then pure () else headerEnd
  pure e

def whileConstruct (r : Nested) (fuel : Nat) : Parse Expr := do
  let condition ← loopHeader r
  let body ← bodyUntilEnd r fuel
  pure (.whileLoop condition body)

def untilConstruct (r : Nested) (fuel : Nat) : Parse Expr := do
  let condition ← loopHeader r
  let body ← bodyUntilEnd r fuel
  pure (.untilLoop condition body)

def forConstruct (r : Nested) (fuel : Nat) : Parse Expr := do
  let n ← identifier
  expect .inWord
  let collection ← loopHeader r
  let body ← bodyUntilEnd r fuel
  pure (.forIn n collection body)

/-! ## Methods -/

/-- The name of a setter, `name=` without a gap, or the name as it is. -/
def setterName (n : String) : Parse String := do
  if ← acceptTouching .equals then pure (n ++ "=") else pure n

def definitionReceiver? : Token → Option Expr
  | .fixed .selfWord => some .selfRef
  | .name n => some (.name n)
  | _ => none

def qualifiedTarget (receiver : Expr) : Parse Expr := do
  let doubleColon ← accept .doubleColon
  if doubleColon then pure () else expect .dot
  let n ← methodName
  let n ← setterName n
  pure (if doubleColon then .doubleColon receiver n else .dot receiver n [])

/-- The method name that stands alone. `self` is no name here. -/
def plainTarget (first : Lexeme) : Parse Expr :=
  match first.token with
  | .fixed .selfWord => fail .nameExpected first.line
  | t =>
    match t.methodName? with
    | none => fail .nameExpected first.line
    | some n => do
      let n ← setterName n
      pure (.name n)

def definitionTarget : Parse Expr := do
  let line ← lineHere
  match ← next with
  | none => fail .nameExpected line
  | some first =>
    let qualified ← if ← nextIs .dot then pure true else nextIs .doubleColon
    match definitionReceiver? first.token with
    | some receiver => if qualified then qualifiedTarget receiver else plainTarget first
    | none => plainTarget first

def definitionParams (fuel : Nat) : Parse (List String) := do
  if ← accept .lparen then parameterList .rparen fuel
  else
    let bare := (← peek).any fun l => (plainName? l.token).isSome
    if bare then separated identifier fuel else pure []

def defConstruct (r : Nested) (fuel : Nat) : Parse Expr := do
  let target ← definitionTarget
  let params ← definitionParams fuel
  let body ← bodyUntilEnd r fuel
  pure (.define target params body)

/-! ## Classes and modules -/

def constantName : Parse String := do
  let line ← lineHere
  match ← next with
  | none => fail .nameExpected line
  | some l =>
    match l.token with
    | .name n => if isConstant n then pure n else fail .constantNameExpected l.line
    | _ => fail .nameExpected l.line

/-- The name of a class, with the names of the modules around it in front. -/
def className (fuel : Nat) : Parse Expr := do
  let first ← constantName
  iterate (fun e => do
    if ← accept .doubleColon then
      let n ← constantName
      pure (some (.doubleColon e n))
    else pure none) fuel (.name first)

def superclass? (r : Nested) : Parse (Option Expr) := do
  if ← accept .less then
    let e ← r .range
    pure (some e)
  else pure none

def classConstruct (r : Nested) (fuel : Nat) : Parse Expr := do
  let n ← className fuel
  let superclass ← superclass? r
  headerEnd
  let body ← bodyUntilEnd r fuel
  pure (.classDef n superclass body)

def moduleConstruct (r : Nested) (fuel : Nat) : Parse Expr := do
  let n ← constantName
  headerEnd
  let body ← bodyUntilEnd r fuel
  pure (.moduleDef n body)

end ObjectLang.Grammar
