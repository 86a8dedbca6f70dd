import ObjectLang.Token.Stream

/-!
# Parsing steps

A step reads from a token stream and gives a value or a syntax error; the
stream is kept in both cases, so that parsing can go on behind an error. Steps
that repeat or recurse do so a bounded number of times and are unfinished
beyond the bound.
-/

namespace ObjectLang

structure Parser where
  tokens : TokenStream
  /-- Set where a `do` belongs to an enclosing construct and not to a call. -/
  noDo : Bool

inductive Parsed (α : Type) where
  | ok (value : α) (rest : Parser)
  | error (e : SyntaxError) (rest : Parser)
  | unfinished

def Parse (α : Type) : Type := Parser → Parsed α

namespace Parse

variable {α β : Type}

@[inline] protected def pure (a : α) : Parse α := fun p => .ok a p

@[inline] protected def bind (x : Parse α) (f : α → Parse β) : Parse β := fun p =>
  match x p with
  | .ok a p => f a p
  | .error e p => .error e p
  | .unfinished => .unfinished

instance : Monad Parse where
  pure := Parse.pure
  bind := Parse.bind

def unfinished : Parse α := fun _ => .unfinished

def fail (fault : SyntaxFault) (line : Nat) : Parse α := fun p => .error ⟨fault, line⟩ p

def onTokens (f : TokenStream → Except SyntaxError α × TokenStream) : Parse α := fun p =>
  match f p.tokens with
  | (.ok a, s) => .ok a { p with tokens := s }
  | (.error e, s) => .error e { p with tokens := s }

def next : Parse (Option Lexeme) := onTokens TokenStream.next

def peek : Parse (Option Lexeme) := onTokens TokenStream.peek

def push (l : Lexeme) : Parse Unit := fun p => .ok () { p with tokens := p.tokens.push l }

def lineHere : Parse Nat := fun p => .ok p.tokens.lineHere p

def doAllowed : Parse Bool := fun p => .ok (!p.noDo) p

/-- Runs `x` with the restriction on `do` set to `noDo`, and puts back the old setting however
`x` ends. -/
def restricted (noDo : Bool) (x : Parse α) : Parse α := fun p =>
  match x { p with noDo := noDo } with
  | .ok a q => .ok a { q with noDo := p.noDo }
  | .error e q => .error e { q with noDo := p.noDo }
  | .unfinished => .unfinished

/-! ## Repetition -/

/-- Takes steps from `a` on until one gives nothing. -/
def iterate (step : α → Parse (Option α)) : (fuel : Nat) → α → Parse α
  | 0, _ => unfinished
  | fuel + 1, a => do
    match ← step a with
    | none => pure a
    | some b => iterate step fuel b

def collect (step : Parse (Option α)) : (fuel : Nat) → Parse (List α)
  | 0 => unfinished
  | fuel + 1 => do
    match ← step with
    | none => pure []
    | some a =>
      let rest ← collect step fuel
      pure (a :: rest)

/-! ## Fixed tokens -/

def nextIs (f : Fixed) : Parse Bool := do
  return (← peek).any (·.token.isFixed f)

def nextTouches (f : Fixed) : Parse Bool := do
  return (← peek).any fun l => l.token.isFixed f && !l.spaced

/-- Takes the next token if it is `f`, and says whether it was. -/
def accept (f : Fixed) : Parse Bool := do
  if ← nextIs f then
    let _ ← next
    pure true
  else pure false

/-- Takes the next token if it is `f` and follows without a gap. -/
def acceptTouching (f : Fixed) : Parse Bool := do
  if ← nextTouches f then
    let _ ← next
    pure true
  else pure false

def expect (f : Fixed) : Parse Unit := do
  if ← accept f then pure ()
  else fail (.expected f) (← lineHere)

/-- Skips the ends of lines, which mean nothing inside brackets. -/
def skipNewlines (fuel : Nat) : Parse Unit :=
  iterate (fun _ => do if ← accept .newline then pure (some ()) else pure none) fuel ()

def acceptSeparator : Parse Bool := do
  if ← accept .newline then pure true else accept .semicolon

def skipSeparators (fuel : Nat) : Parse Unit :=
  iterate (fun _ => do if ← acceptSeparator then pure (some ()) else pure none) fuel ()

/-! ## Names -/

/-- Takes the next token as a name of the kind that `name?` accepts. -/
def nameBy (name? : Token → Option String) : Parse String := do
  let line ← lineHere
  match ← next with
  | none => fail .nameExpected line
  | some l =>
    match name? l.token with
    | some n => pure n
    | none => fail .nameExpected l.line

def methodName : Parse String := nameBy Token.methodName?

def plainName? : Token → Option String
  | .name n => some n
  | _ => none

def identifier : Parse String := nameBy plainName?

/-! ## Lists -/

def commaThen (item : Parse α) : Parse (Option α) := do
  if ← accept .comma then
    let a ← item
    pure (some a)
  else pure none

/-- One item and any number of further ones after commas. -/
def separated (item : Parse α) (fuel : Nat) : Parse (List α) := do
  let first ← item
  let rest ← collect (commaThen item) fuel
  pure (first :: rest)

def parameterList (closing : Fixed) (fuel : Nat) : Parse (List String) := do
  if ← accept closing then pure []
  else
    let names ← separated identifier fuel
    expect closing
    pure names

/-- The items in front of `closing`. Ends of lines may stand between them, and a comma after
the last. -/
def items (closing : Fixed) (item : Parse α) (lines : Nat) : (fuel : Nat) → Parse (List α)
  | 0 => unfinished
  | fuel + 1 => do
    if ← nextIs closing then pure []
    else
      let first ← item
      skipNewlines lines
      if ← accept .comma then
        skipNewlines lines
        let rest ← items closing item lines fuel
        pure (first :: rest)
      else pure [first]

/-- A bracketed list after its opening bracket, with `closing`. -/
def delimited (closing : Fixed) (item : Parse α) (fuel : Nat) : Parse (List α) := do
  skipNewlines fuel
  let found ← items closing item fuel fuel
  expect closing
  pure found

end Parse

end ObjectLang
