import ObjectLang.Text.Case

/-!
# Syntax trees

Commands and expressions share one type: every node has a value. Nothing in
the type keeps a target of an assignment or a definition from being an
arbitrary tree; evaluation refuses the ones that make no sense.
-/

namespace ObjectLang

inductive Literal where
  | nil
  | bool (b : Bool)
  | integer (n : Int64)
  | real (x : Float)
  | str (s : String)
  | symbol (s : String)

inductive ArithOp where
  | add | subtract | multiply | divide
  deriving DecidableEq, Repr

inductive CompareOp where
  | equal | notEqual | less | greater | lessOrEqual | greaterOrEqual
  deriving DecidableEq, Repr

inductive Expr where
  | literal (l : Literal)
  | name (n : String)
  | selfRef
  | instanceVar (n : String)
  | classVar (n : String)
  | arith (op : ArithOp) (left right : Expr)
  | compare (op : CompareOp) (left right : Expr)
  | negative (operand : Expr)
  | negation (operand : Expr)
  | assign (n : String) (value : Expr)
  | assignInstanceVar (n : String) (value : Expr)
  | assignClassVar (n : String) (value : Expr)
  | assignIndexed (target index value : Expr)
  | assignDot (target value : Expr)
  /-- A call without a receiver; an attached block is the last argument. -/
  | call (n : String) (args : List Expr)
  | dot (target : Expr) (n : String) (args : List Expr)
  | doubleColon (target : Expr) (n : String)
  | ifElse (condition thenBranch : Expr) (elseBranch : Option Expr)
  | whileLoop (condition body : Expr)
  | untilLoop (condition body : Expr)
  | forIn (n : String) (collection body : Expr)
  | define (target : Expr) (params : List String) (body : Expr)
  | classDef (className : Expr) (superclass : Option Expr) (body : Expr)
  | moduleDef (n : String) (body : Expr)
  | array (items : List Expr)
  | hash (entries : List (Expr × Expr))
  | range (lower upper : Expr)
  | indexed (target index : Expr)
  | block (params : List String) (body : Expr)
  | sequence (commands : List Expr)

/-- Whether a name is a constant: constants begin with an uppercase letter. -/
def isConstant (n : String) : Bool :=
  n.toList.head?.any Text.isUppercase

namespace Expr

/-- The commands of a body as one tree. A single command stands for itself. -/
def ofBody : List Expr → Expr
  | [e] => e
  | es => sequence es

def isName : Expr → Bool
  | name _ => true
  | _ => false

end Expr

end ObjectLang
