import ObjectLang.Token.Scan

/-!
# Token streams

A stream reads its text token by token, as they are asked for, and takes
tokens back: those come out again first, the last one returned before the
others. An error is reported once, and reading goes on after it.
-/

namespace ObjectLang

structure TokenStream where
  rest : List Char
  line : Nat
  pushed : List Lexeme

namespace TokenStream

def ofString (source : String) : TokenStream :=
  ⟨source.toList, 1, []⟩

/-- An upper bound on the number of tokens still to come. -/
def size (s : TokenStream) : Nat :=
  s.pushed.length + s.rest.length

def lineAfter (line : Nat) : Item → Nat
  | .token (.fixed .newline) => line + 1
  | _ => line

def read (s : TokenStream) : Except SyntaxError (Option Lexeme) × TokenStream :=
  let gap := Scan.skip s.line false s.rest
  match gap.rest with
  | [] => (.ok none, { s with rest := [], line := gap.line })
  | c :: r =>
    let (item, after) := Scan.itemAt c r
    let next := { s with rest := after, line := lineAfter gap.line item }
    match item with
    | .token t => (.ok (some ⟨t, s.line, gap.skipped⟩), next)
    | .fault f => (.error ⟨f, s.line⟩, next)

def next (s : TokenStream) : Except SyntaxError (Option Lexeme) × TokenStream :=
  match s.pushed with
  | l :: ls => (.ok (some l), { s with pushed := ls })
  | [] => s.read

def push (s : TokenStream) (l : Lexeme) : TokenStream :=
  { s with pushed := l :: s.pushed }

/-- Looks at the next token and leaves it in place. An error is taken. -/
def peek (s : TokenStream) : Except SyntaxError (Option Lexeme) × TokenStream :=
  match s.next with
  | (.ok (some l), s) => (.ok (some l), s.push l)
  | (r, s) => (r, s)

/-- The line of the token on top, or else the line reading has reached. -/
def lineHere (s : TokenStream) : Nat :=
  match s.pushed with
  | l :: _ => l.line
  | [] => s.line

end TokenStream

end ObjectLang
