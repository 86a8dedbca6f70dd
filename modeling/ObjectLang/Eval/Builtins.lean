import ObjectLang.Eval.Calls
import ObjectLang.Text.Case

/-!
# Built-in methods

A built-in method checks the number of its arguments first, then its receiver
and the arguments themselves. The receiver can be of any kind: subclasses of
the built-in classes inherit their methods.
-/

namespace ObjectLang

open Eval

/-! ## Objects -/

/-- A new object of the class. Its `initialize` gets the arguments, if it has one. -/
def newInstance (r : Performer) (f : FrameId) (receiver : Value) (args : List Value) :
    Eval Value := do
  let c ← expectClass "new" receiver
  let o ← Eval.add (·.addObject ⟨c, .empty, none⟩)
  match ← read (·.method? f (.object o) "initialize") with
  | some m =>
    let _ ← r (.invoke f m (some (.object o)) args)
    pure (.object o)
  | none =>
    checkArity "initialize" 0 args
    pure (.object o)

def methodsOf (f : FrameId) (receiver : Value) : Eval Value := do
  match ← read (·.objectOf? receiver) with
  | some o =>
    let names ← read (·.methodNames o)
    newSymbols names
  | none =>
    let c ← expectClassOf f receiver
    let names ← read (·.instanceMethodNames c)
    newSymbols names

def singletonMethodsOf (receiver : Value) : Eval Value := do
  let names ← read fun s => (s.objectOf? receiver).elim [] s.singletonMethodNames
  newSymbols names

def instanceVariablesOf (receiver : Value) : Eval Value := do
  let names ← read fun s => (s.objectOf? receiver).elim [] (·.fields.names)
  newSymbols (names.map ("@" ++ ·))

def respondsTo (f : FrameId) (receiver n : Value) : Eval Value := do
  let n ← nameArgument n
  let m ← read (·.method? f receiver n)
  pure (.bool m.isSome)

/-! ## Modules and classes -/

def installEach (selector : String) (method : String → String × Callable) (receiver : Value)
    (args : List Value) : Eval Unit := do
  let c ← expectClass selector receiver
  visit (fun v => do
    let n ← nameArgument v
    let (selector, m) := method n
    change (·.setMethod c selector m)) args

def attrReader (receiver : Value) (args : List Value) : Eval Unit :=
  installEach "attr_reader" (fun n => (n, .reader n)) receiver args

def attrWriter (receiver : Value) (args : List Value) : Eval Unit :=
  installEach "attr_writer" (fun n => (n ++ "=", .writer n)) receiver args

def superclassOf (receiver : Value) : Eval Value := do
  let c ← expectClass "superclass" receiver
  let d ← read fun s => (s.cls c).superclass
  pure (d.elim .nil .cls)

/-- Reads an instance variable; it is `nil` until it is set. -/
def Store.field (s : Store) (v : Value) (n : String) : Value :=
  ((s.objectOf? v).bind (·.fields.get? n)).getD .nil

def Store.setField (s : Store) (v : Value) (n : String) (w : Value) : Store :=
  s.modifyObjectOf v fun o => { o with fields := o.fields.set n w }

def callReader (n : String) (receiver : Value) (args : List Value) : Eval Value := do
  checkArity n 0 args
  read (·.field receiver n)

def callWriter (n : String) (receiver : Value) (args : List Value) : Eval Value :=
  match args with
  | [v] => do
    match ← read (·.objectOf? receiver) with
    | some _ =>
      change (·.setField receiver n v)
      pure v
    | none =>
      let text ← read (·.inspect receiver)
      typeFail (.instanceVariable n text)
  | args => fail (.argumentCount (n ++ "=") 1 args.length)

/-! ## Numbers -/

def times (r : Performer) (receiver : Value) (args : List Value) : Eval Value := do
  let n ← expectInt "times" receiver
  let b ← blockArgument "times" args
  (Elements.between 0 (n - 1)).visit fun v => do
    let _ ← callBlock r b [v]
  pure receiver

def upto (r : Performer) (receiver upper : Value) (args : List Value) : Eval Value := do
  let lower ← expectInt "upto" receiver
  let upper ← expectInt "upto" upper
  let b ← blockArgument "upto" args
  (Elements.between lower upper).visit fun v => do
    let _ ← callBlock r b [v]
  pure receiver

def toReal (receiver : Value) : Eval Value :=
  match receiver.toReal? with
  | some x => pure (.real x)
  | none => notNumeric "to_f" receiver

/-- Cuts a real off to an integer; one that is out of range becomes the nearest integer. -/
def toInteger (receiver : Value) : Eval Value :=
  match receiver with
  | .int n => pure (.int n)
  | .real x =>
    if x.isFinite then pure (.int (Number.ofReal x))
    else typeFail (.integerRange (Decimal.shortText x))
  | receiver => notNumeric "to_i" receiver

/-! ## Text -/

def onText (method : String) (g : String → Value) (receiver : Value) : Eval Value :=
  match receiver with
  | .str t => pure (g t)
  | receiver => noMethod method receiver

/-! ## Collections -/

def collectionLength (receiver : Value) : Eval Value :=
  match receiver with
  | .array a => read fun s => intValue (s.array a).size
  | .hash h => read fun s => intValue (s.hash h).size
  | receiver => noMethod "length" receiver

def onArray (method : String) (g : Array Value → Value) (receiver : Value) : Eval Value :=
  match receiver with
  | .array a => read fun s => g (s.array a)
  | receiver => noMethod method receiver

def onHash (method : String) (g : Value × Value → Value) (receiver : Value) : Eval Value :=
  match receiver with
  | .hash h => do
    let vs ← read fun s => (s.hash h).pairs.map g
    newArray vs.toArray
  | receiver => noMethod method receiver

def pushAll (receiver : Value) (args : List Value) : Eval Value :=
  match receiver with
  | .array a => do
    change (·.modifyArray a (· ++ args.toArray))
    pure receiver
  | receiver => noMethod "push" receiver

def Value.isHash : Value → Bool
  | hash _ => true
  | _ => false

/-- The arguments for a block that is given the element `v`: the two parts of a pair if
`spread`, else the element itself. -/
def blockArguments (spread : Bool) (v : Value) : Eval (List Value) :=
  match v with
  | .array a => if spread then read fun s => (s.array a).toList else pure [v]
  | v => pure [v]

/-- Runs the block for each element. Entries of a hash are spread over a block with several
parameters. -/
def eachElement (r : Performer) (receiver : Value) (args : List Value) : Eval Value := do
  let b ← blockArgument "each" args
  let params ← read fun s => (s.block b).params.length
  let es ← elements receiver
  es.visit fun v => do
    let vs ← blockArguments (receiver.isHash && 1 < params) v
    let _ ← callBlock r b vs
  pure receiver

def mapElements (r : Performer) (receiver : Value) (args : List Value) : Eval Value := do
  let b ← blockArgument "map" args
  let es ← elements receiver
  let vs ← es.map fun v => callBlock r b [v]
  newArray vs

def toArray (receiver : Value) : Eval Value := do
  let es ← elements receiver
  if ← read (·.hasRoom es.size) then newArray es.toArray else fail .allocationFailed

def callProc (r : Performer) (receiver : Value) (args : List Value) : Eval Value :=
  match receiver with
  | .proc p => callBlock r p args
  | receiver => noMethod "call" receiver

/-! ## Printing -/

def Store.putsText (s : Store) (args : List Value) : String :=
  match args with
  | [] => "\n"
  | args => String.join ((args.flatMap s.lines).map (· ++ "\n"))

/-- Prints each argument on lines of its own. A closed output fails even if nothing is
printed. -/
def puts (args : List Value) : Eval Value := do
  if ← read (·.output.closed) then fail (.stream .brokenPipe)
  else
    let text ← read (·.putsText args)
    change (·.print text)
    pure .nil

/-! ## Dispatch -/

def withoutArgs (b : Builtin) (args : List Value) (x : Eval Value) : Eval Value := do
  checkArity b.selector 0 args
  x

def runBuiltin (r : Performer) (f : FrameId) (b : Builtin) (receiver : Value)
    (args : List Value) : Eval Value :=
  match b with
  | .new => newInstance r f receiver args
  | .cls => withoutArgs b args do
    let c ← expectClassOf f receiver
    pure (.cls c)
  | .methods => withoutArgs b args (methodsOf f receiver)
  | .singletonMethods => withoutArgs b args (singletonMethodsOf receiver)
  | .toS => withoutArgs b args (read fun s => .str (s.display receiver))
  | .inspect => withoutArgs b args (read fun s => .str (s.inspect receiver))
  | .respondTo =>
    match args with
    | [n] => respondsTo f receiver n
    | args => fail (.argumentCount b.selector 1 args.length)
  | .instanceVariables => withoutArgs b args (instanceVariablesOf receiver)
  | .moduleName => withoutArgs b args do
    let c ← expectClass b.selector receiver
    read fun s => .str (s.cls c).name
  | .attrAccessor => do
    attrReader receiver args
    attrWriter receiver args
    pure .nil
  | .attrReader => do
    attrReader receiver args
    pure .nil
  | .attrWriter => do
    attrWriter receiver args
    pure .nil
  | .instanceMethods => withoutArgs b args do
    let c ← expectClass b.selector receiver
    let names ← read (·.instanceMethodNames c)
    newSymbols names
  | .constants => withoutArgs b args do
    let c ← expectClass b.selector receiver
    let names ← read fun s => (s.cls c).constants.names
    newSymbols names
  | .superclass => withoutArgs b args (superclassOf receiver)
  | .times => do
    checkArity b.selector 1 args
    times r receiver args
  | .upto =>
    match args with
    | [upper, block] => upto r receiver upper [block]
    | args => fail (.argumentCount b.selector 2 args.length)
  | .toF => withoutArgs b args (toReal receiver)
  | .toI => withoutArgs b args (toInteger receiver)
  | .textLength => withoutArgs b args (onText b.selector (fun t => intValue t.length) receiver)
  | .upcase => withoutArgs b args (onText b.selector (fun t => .str (Text.upcase t)) receiver)
  | .downcase => withoutArgs b args (onText b.selector (fun t => .str (Text.downcase t)) receiver)
  | .toSym => withoutArgs b args (onText b.selector .symbol receiver)
  | .length => withoutArgs b args (collectionLength receiver)
  | .push => pushAll receiver args
  | .first => withoutArgs b args (onArray b.selector (fun vs => vs[0]?.getD .nil) receiver)
  | .last => withoutArgs b args (onArray b.selector (fun vs => vs.back?.getD .nil) receiver)
  | .each => do
    checkArity b.selector 1 args
    eachElement r receiver args
  | .map => do
    checkArity b.selector 1 args
    mapElements r receiver args
  | .keys => withoutArgs b args (onHash b.selector (·.1) receiver)
  | .values => withoutArgs b args (onHash b.selector (·.2) receiver)
  | .toA => withoutArgs b args (toArray receiver)
  | .call => callProc r receiver args

/-- Invokes a callable. A built-in method without a receiver is run on `nil`. -/
def invoke (r : Performer) (f : FrameId) (m : Callable) (receiver : Option Value)
    (args : List Value) : Eval Value :=
  match m with
  | .builtin b => runBuiltin r f b (receiver.getD .nil) args
  | .puts => puts args
  | .reader n => callReader n (receiver.getD .nil) args
  | .writer n => callWriter n (receiver.getD .nil) args
  | .defined d => callDefinition r f d receiver args

def send (r : Performer) (f : FrameId) (receiver : Value) (n : String) (args : List Value) :
    Eval Value := do
  match ← read (·.method? f receiver n) with
  | some m => invoke r f m (some receiver) args
  | none => noMethod n receiver

/-- Sends `n` to `self` if there is a `self` that responds to it. -/
def sendSelf? (r : Performer) (f : FrameId) (n : String) (args : List Value) :
    Eval (Option Value) := do
  let found ← read fun s =>
    (s.frame f).self.bind fun v => (s.method? f v n).map fun m => (v, m)
  match found with
  | some (v, m) =>
    let w ← invoke r f m (some v) args
    pure (some w)
  | none => pure none

end ObjectLang
