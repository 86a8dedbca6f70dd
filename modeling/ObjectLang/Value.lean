import ObjectLang.Expr
import ObjectLang.Number

/-!
# Values

Numbers, text, symbols and ranges are data. Everything else is a reference into
the store: a value names its collection, object, class or block, and two values
are the same thing exactly when they name the same entry.
-/

namespace ObjectLang

/-! ## References -/

structure FrameId where
  index : Nat
  deriving DecidableEq, Repr

structure ObjectId where
  index : Nat
  deriving DecidableEq, Repr

structure ClassId where
  index : Nat
  deriving DecidableEq, Repr

structure ArrayId where
  index : Nat
  deriving DecidableEq, Repr

structure HashId where
  index : Nat
  deriving DecidableEq, Repr

structure ProcId where
  index : Nat
  deriving DecidableEq, Repr

/-! ## Callables -/

inductive Builtin where
  | new
  | cls | methods | singletonMethods | toS | inspect | respondTo | instanceVariables
  | moduleName | attrAccessor | attrReader | attrWriter | instanceMethods | constants
  | superclass
  | times | upto | toF | toI
  | textLength | upcase | downcase | toSym
  | length | push | first | last | each | map | keys | values | toA
  | call
  deriving DecidableEq, Repr

def Builtin.selector : Builtin → String
  | new => "new"
  | cls => "class" | methods => "methods" | singletonMethods => "singleton_methods"
  | toS => "to_s" | inspect => "inspect" | respondTo => "respond_to"
  | instanceVariables => "instance_variables"
  | moduleName => "name" | attrAccessor => "attr_accessor" | attrReader => "attr_reader"
  | attrWriter => "attr_writer" | instanceMethods => "instance_methods"
  | constants => "constants" | superclass => "superclass"
  | times => "times" | upto => "upto" | toF => "to_f" | toI => "to_i"
  | textLength => "length" | upcase => "upcase" | downcase => "downcase" | toSym => "to_sym"
  | length => "length" | push => "push" | first => "first" | last => "last"
  | each => "each" | map => "map" | keys => "keys" | values => "values" | toA => "to_a"
  | call => "call"

structure Definition where
  name : String
  params : List String
  body : Expr
  /-- The class or module whose body the definition stands in; constants and class variables of
  the body resolve through it. A callable does not hold it, and may be called when it is gone. -/
  enclosing : Option ClassId

inductive Callable where
  | builtin (b : Builtin)
  | puts
  | reader (variableName : String)
  | writer (variableName : String)
  | defined (d : Definition)

def Callable.name : Callable → String
  | builtin b => b.selector
  | puts => "puts"
  | reader n => n
  | writer n => n ++ "="
  | defined d => d.name

/-! ## Values -/

inductive Value where
  | nil
  | bool (b : Bool)
  | int (n : Int64)
  | real (x : Float)
  | str (s : String)
  | symbol (s : String)
  | array (a : ArrayId)
  | hash (h : HashId)
  /-- The integers from `lower` to `upper`, both included. -/
  | range (lower upper : Int64)
  | object (o : ObjectId)
  | cls (c : ClassId)
  | proc (p : ProcId)
  /-- A callable bound to a local. -/
  | function (f : Callable)

namespace Value

def ofLiteral : Literal → Value
  | .nil => nil
  | .bool b => bool b
  | .integer n => int n
  | .real x => real x
  | .str s => str s
  | .symbol s => symbol s

/-- Everything is true but `false` and `nil`. -/
def isTruthy : Value → Bool
  | nil | bool false => false
  | _ => true

def isNil : Value → Bool
  | nil => true
  | _ => false

def toInt? : Value → Option Int64
  | int n => some n
  | _ => none

def toReal? : Value → Option Float
  | int n => some (Number.toReal n)
  | real x => some x
  | _ => none

/-- The class of a value that carries no link to one, by the name it is registered under. -/
def builtinClass? : Value → Option String
  | nil => some "NilClass"
  | bool true => some "TrueClass"
  | bool false => some "FalseClass"
  | int _ => some "Fixnum"
  | real _ => some "Float"
  | str _ => some "String"
  | symbol _ => some "Symbol"
  | array _ => some "Array"
  | hash _ => some "Hash"
  | range _ _ => some "Range"
  | proc _ | function _ => some "Proc"
  | object _ | cls _ => none

end Value

end ObjectLang
