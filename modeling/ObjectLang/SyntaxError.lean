import ObjectLang.Token

/-!
# Syntax errors
-/

namespace ObjectLang

inductive SyntaxFault where
  | expected (f : Fixed)
  | nameExpected
  | endOfCommandExpected
  | constantNameExpected
  /-- A token that cannot stand here, or text that no token begins with. -/
  | unexpected (text : String)
  | invalidAssignmentTarget
  | literalTooLarge
  | unexpectedEnd
  deriving DecidableEq, Repr

structure SyntaxError where
  fault : SyntaxFault
  line : Nat
  deriving DecidableEq, Repr

def SyntaxFault.message : SyntaxFault → String
  | expected f => "expected '" ++ f.text ++ "'"
  | nameExpected => "name expected"
  | endOfCommandExpected => "end of command expected"
  | constantNameExpected => "class/module name must be a CONSTANT"
  | unexpected text => "unexpected '" ++ text ++ "'"
  | invalidAssignmentTarget => "invalid assignment target"
  | literalTooLarge => "integer literal too large"
  | unexpectedEnd => "unexpected end of input"

/-- Whether more input could complete the construct. -/
def SyntaxError.isIncomplete (e : SyntaxError) : Bool :=
  e.fault = .unexpectedEnd

end ObjectLang
