import ObjectLang.Number
import ObjectLang.SyntaxError

/-!
# Reading one token from text

The longest possible token is read, and a keyword is never a name. Where no
token begins, the longest text that some token begins with is given up, and at
least one character.
-/

namespace ObjectLang

inductive Item where
  | token (t : Token)
  | fault (f : SyntaxFault)

namespace Scan

def isIdentStart (c : Char) : Bool := c.isAlpha || c = '_'

def isIdentRest (c : Char) : Bool := c.isAlphanum || c = '_'

/-- The identifier at the front of the text, if there is one, and the text after it. -/
def identifier? : List Char → Option (List Char × List Char)
  | [] => none
  | c :: rest =>
    if isIdentStart c then some (c :: rest.takeWhile isIdentRest, rest.dropWhile isIdentRest)
    else none

/-- The character that a backslash and `c` stand for in a string. -/
def unescape (c : Char) : Char :=
  if c = 'n' then '\n' else if c = 't' then '\t' else if c = '0' then '\x00' else c

/-- The content of a string up to its closing quote, and the text after the quote. A string
cannot run past the end of its line. -/
def stringBody? (quote : Char) : List Char → Option (List Char × List Char)
  | [] => none
  | c :: rest =>
    if c = quote then some ([], rest)
    else if c = '\n' then none
    else if c = '\\' then
      match rest with
      | [] => none
      | e :: rest =>
        if e = '\n' then none
        else (stringBody? quote rest).map fun (body, after) => (unescape e :: body, after)
    else (stringBody? quote rest).map fun (body, after) => (c :: body, after)

def integerItem (digits : List Char) : Item :=
  match Number.checked? (Decimal.digitsValue digits) with
  | some n => .token (.integer n)
  | none => .fault .literalTooLarge

/-- A real when a point and a digit follow the digits, else an integer. -/
def number (text : List Char) : Item × List Char :=
  let whole := text.takeWhile Char.isDigit
  match text.dropWhile Char.isDigit with
  | '.' :: d :: rest =>
    if d.isDigit then
      let fraction := (d :: rest).takeWhile Char.isDigit
      (.token (.real (Decimal.ofDigits whole fraction)), (d :: rest).dropWhile Char.isDigit)
    else (integerItem whole, '.' :: d :: rest)
  | rest => (integerItem whole, rest)

def word (ident : List Char) : Token :=
  let s := String.ofList ident
  match Fixed.keywords.lookup s with
  | some f => .fixed f
  | none => .name s

def stray (text : List Char) : Item :=
  .fault (.unexpected (String.ofList text))

/-- A string, or the rest of the line when its closing quote is missing. -/
def string (quote : Char) (rest : List Char) : Item × List Char :=
  match stringBody? quote rest with
  | some (body, after) => (.token (.str (String.ofList body)), after)
  | none => (stray (quote :: rest.takeWhile (· ≠ '\n')), rest.dropWhile (· ≠ '\n'))

/-- A token made of the sigil `sigil` and an identifier, or the sigil alone as an error. -/
def sigil (sigil : List Char) (token : String → Token) (rest : List Char) : Item × List Char :=
  match identifier? rest with
  | some (ident, after) => (.token (token (String.ofList ident)), after)
  | none => (stray sigil, rest)

private def mark (f : Fixed) (rest : List Char) : Item × List Char := (.token (.fixed f), rest)

def mark? : List Char → Option (Item × List Char)
  | '=' :: '=' :: r => mark .equalEqual r
  | '=' :: '>' :: r => mark .fatArrow r
  | '=' :: r => mark .equals r
  | '!' :: '=' :: r => mark .bangEqual r
  | '!' :: r => mark .bang r
  | '<' :: '=' :: r => mark .lessEqual r
  | '<' :: r => mark .less r
  | '>' :: '=' :: r => mark .greaterEqual r
  | '>' :: r => mark .greater r
  | ':' :: ':' :: r => mark .doubleColon r
  | '.' :: '.' :: r => mark .dotDot r
  | '.' :: r => mark .dot r
  | '+' :: r => mark .plus r
  | '-' :: r => mark .minus r
  | '*' :: r => mark .star r
  | '/' :: r => mark .slash r
  | '(' :: r => mark .lparen r
  | ')' :: r => mark .rparen r
  | '[' :: r => mark .lbracket r
  | ']' :: r => mark .rbracket r
  | '{' :: r => mark .lbrace r
  | '}' :: r => mark .rbrace r
  | ',' :: r => mark .comma r
  | ';' :: r => mark .semicolon r
  | '|' :: r => mark .pipe r
  | '\n' :: r => mark .newline r
  | _ => none

/-- What cannot begin a token; a backslash takes a carriage return with it. -/
def strayText (c : Char) (rest : List Char) : Item × List Char :=
  match c, rest with
  | '\\', '\r' :: r => (stray ['\\', '\r'], r)
  | c, r => (stray [c], r)

/-- The item that begins with `c` and continues in `rest`, and the text after it. -/
def itemAt (c : Char) (rest : List Char) : Item × List Char :=
  if c.isDigit then number (c :: rest)
  else if c = '"' ∨ c = '\'' then string c rest
  else match identifier? (c :: rest) with
    | some (ident, after) => (.token (word ident), after)
    | none =>
      match mark? (c :: rest) with
      | some found => found
      | none =>
        match c, rest with
        | ':', rest => sigil [':'] .symbol rest
        | '@', '@' :: rest => sigil ['@', '@'] .classVar rest
        | '@', rest => sigil ['@'] .instanceVar rest
        | c, rest => strayText c rest

/-- A place between two tokens: the text still to read, the line reached, and whether
anything was skipped on the way. -/
structure Gap where
  rest : List Char
  line : Nat
  skipped : Bool

def skip (line : Nat) (skipped : Bool) : List Char → Gap
  | ' ' :: r => skip line true r
  | '\t' :: r => skip line true r
  | '\r' :: r => skip line true r
  | '\x0c' :: r => skip line true r
  | '\\' :: '\n' :: r => skip (line + 1) true r
  | '\\' :: '\r' :: '\n' :: r => skip (line + 1) true r
  | '#' :: r => ⟨r.dropWhile (· ≠ '\n'), line, true⟩
  | r => ⟨r, line, skipped⟩

end Scan

end ObjectLang
