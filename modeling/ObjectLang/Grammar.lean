import ObjectLang.Grammar.Expression

/-!
# The grammar as a whole

Nesting is bounded by the number of tokens that are left, so the bound is
taken from the stream and not from the caller.
-/

namespace ObjectLang

namespace Grammar

/-- Parses one expression with at most `fuel` levels of nesting. -/
def parse : (fuel : Nat) → Nested
  | 0, _ => Parse.unfinished
  | fuel + 1, .expression => fun p => expression (parse fuel) fuel p
  | fuel + 1, .range => fun p => range (parse fuel) fuel p
  | fuel + 1, .comparison => fun p => comparison (parse fuel) fuel p

open Parse

def command? (fuel : Nat) : Parse (Option Expr) := do
  skipSeparators fuel
  match ← peek with
  | none => pure none
  | some _ =>
    let e ← command (parse fuel)
    pure (some e)

def expression? (fuel : Nat) : Parse (Option Expr) := do
  match ← peek with
  | none => pure none
  | some _ =>
    let e ← parse fuel .expression
    pure (some e)

def program (fuel : Nat) : Parse (List Expr) :=
  collect (command? fuel) fuel

end Grammar

namespace Parser

def ofString (source : String) : Parser :=
  ⟨TokenStream.ofString source, false⟩

/-- A bound on nesting and repetition that the tokens left cannot exceed. -/
def fuel (p : Parser) : Nat := p.tokens.size + 2

def command (p : Parser) : Parsed (Option Expr) := Grammar.command? p.fuel p

/-- Parses the next expression; what follows it stays. -/
def expression (p : Parser) : Parsed (Option Expr) := Grammar.expression? p.fuel p

def program (p : Parser) : Parsed (List Expr) := Grammar.program p.fuel p

end Parser

def parseProgram (source : String) : Parsed (List Expr) :=
  (Parser.ofString source).program

end ObjectLang
