import ObjectLang.Eval.Definitions
import ObjectLang.Eval.Operators
import ObjectLang.Eval.Variables

/-!
# Evaluation

One level of evaluation, given a way to carry out what is nested, the evaluator
that ties the levels together with a bound on their number, and the one without
a bound.
-/

namespace ObjectLang

open Eval

/-! ## Calls -/

def evalArgs (r : Performer) (f : FrameId) (args : List Expr) : Eval (List Value) :=
  Eval.each (fun e => r (.expr f e)) args

/-- A call without a receiver: of a function bound to the name, or of a method of `self`. -/
def evalCall (r : Performer) (f : FrameId) (n : String) (args : List Expr) : Eval Value := do
  let args ← evalArgs r f args
  match ← read (·.lookup? f n) with
  | some (.function m) => invoke r f m none args
  | _ =>
    match ← sendSelf? r f n args with
    | some v => pure v
    | none =>
      let receiver ← read fun s => (s.frame f).self.elim "main" s.inspect
      fail (.noMethod n receiver)

def evalDot (r : Performer) (f : FrameId) (target : Expr) (n : String) (args : List Expr) :
    Eval Value := do
  let receiver ← r (.expr f target)
  let args ← evalArgs r f args
  send r f receiver n args

/-- A constant of a class or module, or a call of its method without arguments. -/
def evalDoubleColon (r : Performer) (f : FrameId) (target : Expr) (n : String) : Eval Value := do
  let receiver ← r (.expr f target)
  let c ← moduleValue receiver
  if isConstant n then
    match ← read fun s => (s.cls c).constants.get? n with
    | some v => pure v
    | none =>
      let name ← read fun s => (s.cls c).name
      fail (.uninitializedConstant (name ++ "::" ++ n))
  else send r f receiver n []

/-- Calls the setter of a dotted target. The assigned value is the result. -/
def evalAssignDot (r : Performer) (f : FrameId) (target value : Expr) : Eval Value :=
  match target with
  | .dot target n _ => do
    let receiver ← r (.expr f target)
    let v ← r (.expr f value)
    let _ ← send r f receiver (n ++ "=") [v]
    pure v
  | _ => typeFail .assignmentTarget

/-! ## Loops and sequences -/

/-- Runs the body as long as the truth of the condition is `go`. -/
def loopWhile (go : Bool) (condition : Eval Value) (body : Eval Value) : (fuel : Nat) → Eval Value
  | 0 => endless
  | fuel + 1 => do
    let v ← condition
    if v.isTruthy = go then
      let _ ← body
      loopWhile go condition body fuel
    else pure .nil

def evalForIn (r : Performer) (f : FrameId) (n : String) (collection body : Expr) :
    Eval Value := do
  let v ← r (.expr f collection)
  let es ← elements v
  es.visit fun w => do
    change (·.setLocal f n w)
    let _ ← r (.expr f body)
  pure v

/-- The value of the last command after `last`, the commands being run in order. -/
def sequenceFrom (r : Performer) (f : FrameId) (last : Value) : List Expr → Eval Value
  | [] => pure last
  | e :: rest => do
    let v ← r (.expr f e)
    sequenceFrom r f v rest

/-! ## Collections -/

def evalArray (r : Performer) (f : FrameId) (items : List Expr) : Eval Value := do
  let vs ← evalArgs r f items
  newArray vs.toArray

/-- Adds the entries of a hash literal, each key before its value. -/
def evalEntries (r : Performer) (f : FrameId) (t : HashTable) :
    List (Expr × Expr) → Eval HashTable
  | [] => pure t
  | (k, v) :: rest => do
    let given ← r (.expr f k)
    let value ← r (.expr f v)
    let t ← t.put given value
    evalEntries r f t rest

def evalHash (r : Performer) (f : FrameId) (entries : List (Expr × Expr)) : Eval Value := do
  let t ← evalEntries r f .empty entries
  let h ← Eval.add (·.addHash t)
  pure (.hash h)

def evalRange (r : Performer) (f : FrameId) (lower upper : Expr) : Eval Value := do
  let v ← r (.expr f lower)
  let w ← r (.expr f upper)
  match v.toInt?, w.toInt? with
  | some a, some b => pure (.range a b)
  | _, _ =>
    let lower ← read (·.inspect v)
    let upper ← read (·.inspect w)
    typeFail (.rangeBounds lower upper)

/-! ## All expressions -/

def onOperands (r : Performer) (f : FrameId) (left right : Expr)
    (op : Value → Value → Eval Value) : Eval Value := do
  let v ← r (.expr f left)
  let w ← r (.expr f right)
  op v w

/-- One level of evaluation. `fuel` bounds the rounds of a loop. -/
def evalExpr (r : Performer) (fuel : Nat) (f : FrameId) (e : Expr) : Eval Value :=
  match e with
  | .literal l => pure (.ofLiteral l)
  | .name n => evalName r f n
  | .selfRef => read fun s => (s.frame f).self.getD .nil
  | .instanceVar n => evalInstanceVar f n
  | .classVar n => evalClassVar f n
  | .arith op left right => onOperands r f left right (Value.arith op)
  | .compare op left right => onOperands r f left right (Value.compareBy op)
  | .negative e => do
    let v ← r (.expr f e)
    v.negate
  | .negation e => do
    let v ← r (.expr f e)
    pure (.bool !v.isTruthy)
  | .assign n e => do
    let v ← r (.expr f e)
    assignName f n v
  | .assignInstanceVar n e => do
    let v ← r (.expr f e)
    assignInstanceVar f n v
  | .assignClassVar n e => do
    let v ← r (.expr f e)
    assignClassVar f n v
  | .assignIndexed target index e => do
    let t ← r (.expr f target)
    let i ← r (.expr f index)
    let v ← r (.expr f e)
    t.setIndex i v
    pure v
  | .assignDot target e => evalAssignDot r f target e
  | .call n args => evalCall r f n args
  | .dot target n args => evalDot r f target n args
  | .doubleColon target n => evalDoubleColon r f target n
  | .ifElse condition thenBranch elseBranch => do
    let v ← r (.expr f condition)
    if v.isTruthy then r (.expr f thenBranch)
    else
      match elseBranch with
      | some e => r (.expr f e)
      | none => pure .nil
  | .whileLoop condition body => loopWhile true (r (.expr f condition)) (r (.expr f body)) fuel
  | .untilLoop condition body => loopWhile false (r (.expr f condition)) (r (.expr f body)) fuel
  | .forIn n collection body => evalForIn r f n collection body
  | .define target params body => evalDefine r f target params body
  | .classDef n superclass body => evalClass r f n superclass body
  | .moduleDef n body => evalModule r f n body
  | .array items => evalArray r f items
  | .hash entries => evalHash r f entries
  | .range lower upper => evalRange r f lower upper
  | .indexed target index => onOperands r f target index Value.getIndex
  | .block params body => do
    let p ← Eval.add (·.addBlock ⟨params, body, f⟩)
    pure (.proc p)
  | .sequence commands => sequenceFrom r f .nil commands

/-- Carries out a task with at most `fuel` levels of nesting. -/
def perform : (fuel : Nat) → Performer
  | 0, _ => endless
  | fuel + 1, .expr f e => fun s => evalExpr (perform fuel) fuel f e s
  | fuel + 1, .invoke f m receiver args => fun s => invoke (perform fuel) f m receiver args s

def Eval.fuel : Nat := Nat.pow 2 62

/-- Carries out a task, however deep it nests. -/
def performer : Performer := fun t => Eval.underBound (fun fuel => perform fuel t) Eval.fuel

def eval (f : FrameId) (e : Expr) : Eval Value := performer (.expr f e)

def sendTo (f : FrameId) (receiver : Value) (n : String) (args : List Value) : Eval Value :=
  send performer f receiver n args

/-- Evaluates commands in order. The value is that of the last, or `nil`. -/
def evalSequence (f : FrameId) (commands : List Expr) : Eval Value :=
  sequenceFrom performer f .nil commands

end ObjectLang
