/-!
# Runtime errors

Receivers and operands appear as the text they are shown by.
-/

namespace ObjectLang

inductive TypeFault where
  | instanceVariable (n target : String)
  | classVariable (n : String)
  | rangeBounds (lower upper : String)
  | indexConversion (given : String)
  | notAModule (given : String)
  | assignmentTarget
  | definitionTarget
  | className
  | superclassKind (given : String)
  | superclassMismatch (n : String)
  | singletonTarget (given : String)
  | noClass (given : String)
  | negativeCount (n : Int64)
  | incomparable (left right : String)
  | noBlock (method : String)
  | notNumeric (method given : String)
  | integerRange (given : String)
  | notAName (given : String)
  | recursiveKey
  | notAKey (given : String)
  deriving DecidableEq, Repr

def TypeFault.message : TypeFault → String
  | instanceVariable n target => "can't set instance variable @" ++ n ++ " on " ++ target
  | classVariable n => "class variable @@" ++ n ++ " assigned outside of a class"
  | rangeBounds lower upper => "bad value for range: " ++ lower ++ ".." ++ upper
  | indexConversion given => "no implicit conversion of " ++ given ++ " into Integer"
  | notAModule given => given ++ " is not a class/module"
  | assignmentTarget => "invalid assignment target"
  | definitionTarget => "invalid method definition target"
  | className => "invalid class name"
  | superclassKind given => "superclass must be a Class (" ++ given ++ " given)"
  | superclassMismatch n => "superclass mismatch for class " ++ n
  | singletonTarget given => "can't define singleton method for " ++ given
  | noClass given => given ++ " has no class"
  | negativeCount n => "negative argument: " ++ toString n.toInt
  | incomparable left right => "comparison of " ++ left ++ " with " ++ right ++ " failed"
  | noBlock method => "no block given to '" ++ method ++ "'"
  | notNumeric method given => method ++ ": expected a number, got " ++ given
  | integerRange given => given ++ " out of integer range"
  | notAName given => given ++ " is not a symbol nor a string"
  | recursiveKey => "recursive array cannot be used as a hash key"
  | notAKey given => given ++ " cannot be used as a hash key"

/-- The integer operations that can leave the range of integers. -/
inductive IntegerOperation where
  | addition | subtraction | multiplication | division | negation
  deriving DecidableEq, Repr

def IntegerOperation.name : IntegerOperation → String
  | addition => "addition"
  | subtraction => "subtraction"
  | multiplication => "multiplication"
  | division => "division"
  | negation => "negation"

inductive StreamFault where
  | invalidText
  | brokenPipe
  deriving DecidableEq, Repr

inductive Fault where
  | undefinedName (n : String)
  | uninitializedConstant (n : String)
  | uninitializedClassVar (n className : String)
  | noMethod (n receiver : String)
  | type (f : TypeFault)
  | argumentCount (n : String) (expected found : Nat)
  | notIndexable (receiver : String)
  | notEnumerable (receiver : String)
  | indexOutOfRange (index : Int64)
  | divisionByZero
  | overflow (operation : IntegerOperation)
  | allocationFailed
  | stream (f : StreamFault)
  deriving DecidableEq, Repr

def Fault.message : Fault → String
  | undefinedName n => "undefined local variable or method '" ++ n ++ "'"
  | uninitializedConstant n => "uninitialized constant " ++ n
  | uninitializedClassVar n c => "uninitialized class variable @@" ++ n ++ " in " ++ c
  | noMethod n receiver => "undefined method '" ++ n ++ "' for " ++ receiver
  | type f => f.message
  | argumentCount n expected found =>
    "wrong number of arguments for '" ++ n ++ "' (given " ++ toString found ++ ", expected "
      ++ toString expected ++ ")"
  | notIndexable receiver => receiver ++ " cannot be indexed"
  | notEnumerable receiver => receiver ++ " cannot be enumerated"
  | indexOutOfRange index => "index " ++ toString index.toInt ++ " too small for array"
  | divisionByZero => "divided by 0"
  | overflow operation => "integer overflow in '" ++ operation.name ++ "'"
  | allocationFailed => "failed to allocate memory"
  | stream .invalidText => "stream did not contain valid UTF-8"
  | stream .brokenPipe => "broken pipe"

end ObjectLang
