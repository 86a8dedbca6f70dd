import ObjectLang.Parse
import ObjectLang.Expr

/-!
# Commands, bodies, arguments and blocks

The parts of the grammar that hold expressions in sequence. Each rule is given
the rules for nested expressions, and a bound on its repetitions.
-/

namespace ObjectLang

/-- The kinds of expression that occur inside others of any kind. -/
inductive Nonterminal where
  | expression
  | range
  | comparison
  deriving DecidableEq, Repr

abbrev Nested := Nonterminal → Parse Expr

namespace Grammar

open Parse

/-! ## Ends of commands -/

/-- Takes the end of a command. The end of a body also ends the command, and stays. -/
def endOfCommand : Parse Unit := do
  match ← next with
  | none => pure ()
  | some l =>
    if l.token.closesBody then push l
    else if l.token.isFixed .newline || l.token.isFixed .semicolon then pure ()
    else fail .endOfCommandExpected l.line

/-- Takes the end of the line after a header such as a condition; a body that is closed at
once needs none. -/
def headerEnd : Parse Unit := do
  if ← acceptSeparator then pure ()
  else if ← nextIs .endWord then pure ()
  else
    match ← peek with
    | none => fail .unexpectedEnd (← lineHere)
    | some l => fail .endOfCommandExpected l.line

/-! ## Bodies -/

def command (r : Nested) : Parse Expr := do
  let e ← r .expression
  endOfCommand
  pure e

/-- The next command of a body, or nothing when a token that ends the body follows. -/
def bodyCommand? (r : Nested) (closing : List Fixed) (fuel : Nat) : Parse (Option Expr) := do
  skipSeparators fuel
  match ← peek with
  | none => fail .unexpectedEnd (← lineHere)
  | some l =>
    if closing.any l.token.isFixed then pure none
    else
      let e ← command r
      pure (some e)

/-- The commands in front of one of the tokens `closing`, which stays. -/
def commandList (r : Nested) (closing : List Fixed) (fuel : Nat) : Parse (List Expr) :=
  collect (bodyCommand? r closing fuel) fuel

def bodyUntilEnd (r : Nested) (fuel : Nat) : Parse Expr := do
  let body ← commandList r [.endWord] fuel
  expect .endWord
  pure (.ofBody body)

/-! ## Blocks -/

/-- A block after its opening token, with `closing`. -/
def blockBody (r : Nested) (closing : Fixed) (fuel : Nat) : Parse Expr :=
  restricted false do
    let params ← if ← accept .pipe then parameterList .pipe fuel else pure []
    let body ← commandList r [closing] fuel
    expect closing
    pure (.block params (.ofBody body))

/-- A block attached to a call. A `do` is left alone where it belongs to an enclosing
construct. -/
def blockTrailer (r : Nested) (fuel : Nat) : Parse (Option Expr) := do
  let doFollows ← if ← doAllowed then accept .doWord else pure false
  if doFollows then
    let b ← blockBody r .endWord fuel
    pure (some b)
  else if ← accept .lbrace then
    let b ← blockBody r .rbrace fuel
    pure (some b)
  else pure none

/-! ## Arguments -/

/-- Whether a token can begin the first argument of a call without parentheses. Operators
never do, and brackets only behind a gap. -/
def beginsArgument (l : Lexeme) : Bool :=
  match l.token with
  | .integer _ | .real _ | .str _ | .symbol _ | .name _ | .instanceVar _ | .classVar _ => true
  | .fixed .selfWord | .fixed .nilWord | .fixed .trueWord | .fixed .falseWord => true
  | .fixed .lbracket | .fixed .lparen => l.spaced
  | _ => false

def argumentFollows : Parse Bool := do
  return (← peek).any beginsArgument

def parenArguments (r : Nested) (fuel : Nat) : Parse (List Expr) :=
  restricted false (delimited .rparen (r .expression) fuel)

/-- Arguments without parentheses. A `do` behind them belongs to the call, not to a call
among them. -/
def bareArguments (r : Nested) (fuel : Nat) : Parse (List Expr) :=
  restricted true do
    let first ← r .expression
    let rest ← collect (commaThen do skipNewlines fuel; r .expression) fuel
    pure (first :: rest)

def withBlock (r : Nested) (args : List Expr) (fuel : Nat) : Parse (List Expr) := do
  let b ← blockTrailer r fuel
  pure (args ++ b.toList)

/-- The arguments after a method name: in parentheses, bare or none, and a block. -/
def callArguments (r : Nested) (fuel : Nat) : Parse (List Expr) := do
  if ← acceptTouching .lparen then
    let args ← parenArguments r fuel
    withBlock r args fuel
  else if ← argumentFollows then
    let args ← bareArguments r fuel
    withBlock r args fuel
  else withBlock r [] fuel

end Grammar

end ObjectLang
