import ObjectLang.Decimal.Real
import ObjectLang.Text.Quoted

/-!
# Tokens

A token is a literal, a variable or plain name, or one of the fixed spellings:
keywords, operators and brackets. The end of a line is a token of its own,
because it ends a command.
-/

namespace ObjectLang

inductive Fixed where
  | ifWord | elifWord | elseWord | thenWord | endWord | defWord | classWord | moduleWord
  | whileWord | untilWord | forWord | inWord | doWord | selfWord | nilWord | trueWord | falseWord
  | plus | minus | star | slash
  | equalEqual | bangEqual | lessEqual | greaterEqual | less | greater
  | equals | bang
  | lparen | rparen | lbracket | rbracket | lbrace | rbrace
  | comma | semicolon | doubleColon | dot | dotDot | fatArrow | pipe
  | newline
  deriving DecidableEq, Repr

namespace Fixed

def text : Fixed → String
  | ifWord => "if" | elifWord => "elif" | elseWord => "else" | thenWord => "then"
  | endWord => "end" | defWord => "def" | classWord => "class" | moduleWord => "module"
  | whileWord => "while" | untilWord => "until" | forWord => "for" | inWord => "in"
  | doWord => "do" | selfWord => "self" | nilWord => "nil" | trueWord => "true"
  | falseWord => "false"
  | plus => "+" | minus => "-" | star => "*" | slash => "/"
  | equalEqual => "==" | bangEqual => "!=" | lessEqual => "<=" | greaterEqual => ">="
  | less => "<" | greater => ">" | equals => "=" | bang => "!"
  | lparen => "(" | rparen => ")" | lbracket => "[" | rbracket => "]"
  | lbrace => "\x7b" | rbrace => "\x7d"
  | comma => "," | semicolon => ";" | doubleColon => "::" | dot => "." | dotDot => ".."
  | fatArrow => "=>" | pipe => "|"
  | newline => "\\n"

/-- The keywords as they are spelled in source text; `elsif` is a second spelling of `elif`. -/
def keywords : List (String × Fixed) :=
  [("if", ifWord), ("elif", elifWord), ("elsif", elifWord), ("else", elseWord),
   ("then", thenWord), ("end", endWord), ("def", defWord), ("class", classWord),
   ("module", moduleWord), ("while", whileWord), ("until", untilWord), ("for", forWord),
   ("in", inWord), ("do", doWord), ("self", selfWord), ("nil", nilWord), ("true", trueWord),
   ("false", falseWord)]

def isKeyword (f : Fixed) : Bool :=
  keywords.any (·.2 = f)

end Fixed

inductive Token where
  | real (x : Float)
  | integer (n : Int64)
  | str (s : String)
  | symbol (s : String)
  | name (s : String)
  | instanceVar (s : String)
  | classVar (s : String)
  | fixed (f : Fixed)

namespace Token

def text : Token → String
  | real x => Decimal.shortText x
  | integer n => toString n.toInt
  | str s => Text.quote s
  | symbol s => ":" ++ s
  | name s => s
  | instanceVar s => "@" ++ s
  | classVar s => "@@" ++ s
  | fixed f => f.text

/-- The token as the name of a method; keywords qualify. -/
def methodName? : Token → Option String
  | name s => some s
  | fixed f => if f.isKeyword then some f.text else none
  | _ => none

/-- Whether the token ends a command and closes a body, and so is left for the body's owner. -/
def closesBody : Token → Bool
  | fixed .endWord | fixed .elseWord | fixed .elifWord | fixed .rbrace => true
  | _ => false

def isFixed (t : Token) (f : Fixed) : Bool :=
  match t with
  | fixed g => g = f
  | _ => false

end Token

structure Lexeme where
  token : Token
  /-- The line reading had reached before the blanks in front of the token. -/
  line : Nat
  /-- Whether blanks or a comment stand in front of it. -/
  spaced : Bool

end ObjectLang
