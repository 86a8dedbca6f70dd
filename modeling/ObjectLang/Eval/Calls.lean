import ObjectLang.Eval.Collections
import ObjectLang.Store.Chain

/-!
# Calls

Everything here is given a way to carry out the tasks that arise inside: an
expression to evaluate, or a callable to invoke.
-/

namespace ObjectLang

inductive Task where
  | expr (f : FrameId) (e : Expr)
  | invoke (f : FrameId) (m : Callable) (receiver : Option Value) (args : List Value)

abbrev Performer := Task → Eval Value

open Eval

/-! ## Arguments -/

def checkArity (n : String) (expected : Nat) (args : List Value) : Eval Unit :=
  if args.length = expected then pure () else fail (.argumentCount n expected args.length)

def blockArgument (method : String) (args : List Value) : Eval ProcId :=
  match args.getLast? with
  | some (.proc p) => pure p
  | _ => typeFail (.noBlock method)

def noMethod {α : Type} (n : String) (receiver : Value) : Eval α := do
  let text ← read (·.inspect receiver)
  fail (.noMethod n text)

def notNumeric {α : Type} (method : String) (v : Value) : Eval α := do
  let text ← read (·.inspect v)
  typeFail (.notNumeric method text)

def expectInt (method : String) (v : Value) : Eval Int :=
  match v.toInt? with
  | some n => pure n.toInt
  | none => notNumeric method v

def expectClass (method : String) (v : Value) : Eval ClassId :=
  match v with
  | .cls c => pure c
  | v => noMethod method v

def nameArgument (v : Value) : Eval String :=
  match v with
  | .symbol n | .str n => pure n
  | v => do
    let text ← read (·.inspect v)
    typeFail (.notAName text)

/-- The class of a value, or a fault when none is registered for its kind. -/
def expectClassOf (f : FrameId) (v : Value) : Eval ClassId := do
  match ← read (·.classOf? f v) with
  | some c => pure c
  | none => do
    let text ← read (·.inspect v)
    typeFail (.noClass text)

/-! ## Blocks and definitions -/

/-- Parameters with their arguments; missing arguments are `nil`. -/
def bindBlockParams : List String → List Value → List (String × Value)
  | [], _ => []
  | p :: ps, [] => (p, .nil) :: bindBlockParams ps []
  | p :: ps, v :: vs => (p, v) :: bindBlockParams ps vs

/-- The scope of a run of a block: inside the scope it was written in. -/
def Store.enterBlock (s : Store) (b : Block) (args : List Value) : FrameId × Store :=
  s.enterScope b.frame (.ofList (bindBlockParams b.params args))

def callBlock (r : Performer) (p : ProcId) (args : List Value) : Eval Value := do
  let b ← read (·.block p)
  let f ← Eval.add (·.enterBlock b args)
  r (.expr f b.body)

/-- The scope of a call: directly under the outermost one, whoever calls. From here on it holds
the class or module around the definition, if that is still there. -/
def Store.enterCall (s : Store) (caller : FrameId) (d : Definition) (receiver : Option Value)
    (args : List Value) : FrameId × Store :=
  s.tick.addFrame
    ⟨some (s.root caller), .ofList (d.params.zip args), receiver, s.tick.follow d.enclosing⟩

def callDefinition (r : Performer) (caller : FrameId) (d : Definition) (receiver : Option Value)
    (args : List Value) : Eval Value := do
  checkArity d.name d.params.length args
  let f ← Eval.add (·.enterCall caller d receiver args)
  r (.expr f d.body)

end ObjectLang
