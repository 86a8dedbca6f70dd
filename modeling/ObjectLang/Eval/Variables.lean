import ObjectLang.Eval.Builtins

/-!
# Names and variables
-/

namespace ObjectLang

open Eval

/-- A bare name: a constant, a local, or a call without arguments. -/
def evalName (r : Performer) (f : FrameId) (n : String) : Eval Value := do
  if isConstant n then
    match ← Eval.add (·.readConstant f n) with
    | some v => pure v
    | none => fail (.uninitializedConstant n)
  else
    match ← read (·.lookup? f n) with
    | some (.function m) => invoke r f m none []
    | some v => pure v
    | none =>
      match ← sendSelf? r f n [] with
      | some v => pure v
      | none => fail (.undefinedName n)

/-- An instance variable of `self`; it is `nil` until it is set. -/
def evalInstanceVar (f : FrameId) (n : String) : Eval Value :=
  read fun s => (s.frame f).self.elim .nil (s.field · n)

/-- The class whose class variables a scope sees: the one around it, or else the class of
`self`. -/
def Store.classVarScope? (s : Store) (f : FrameId) : Option ClassId :=
  match (s.frame f).enclosing with
  | some c => some c
  | none =>
    match (s.frame f).self with
    | some (.cls c) => some c
    | some (.object o) => some (s.object o).cls
    | _ => none

def evalClassVar (f : FrameId) (n : String) : Eval Value := do
  let c ← read (·.classVarScope? f)
  match ← read fun s => c.bind (s.classVar? · n) with
  | some v => pure v
  | none =>
    let className ← read fun s => c.elim "Object" fun c => (s.cls c).name
    fail (.uninitializedClassVar n className)

/-! ## Assignment -/

/-- Binds a name: a constant inside a class or module body, and a local everywhere else. -/
def Store.bind (s : Store) (f : FrameId) (n : String) (v : Value) : Store :=
  match (s.frame f).enclosing with
  | some c => if isConstant n then s.setConstant c n v else s.setLocal f n v
  | none => s.setLocal f n v

def assignName (f : FrameId) (n : String) (v : Value) : Eval Value := do
  change (·.bind f n v)
  pure v

def assignInstanceVar (f : FrameId) (n : String) (v : Value) : Eval Value := do
  let self ← read fun s => (s.frame f).self
  match ← read fun s => self.filter fun w => (s.objectOf? w).isSome with
  | some w =>
    change (·.setField w n v)
    pure v
  | none =>
    let target ← read fun s => self.elim "main" s.inspect
    typeFail (.instanceVariable n target)

def assignClassVar (f : FrameId) (n : String) (v : Value) : Eval Value := do
  match ← read (·.classVarScope? f) with
  | some c =>
    change (·.setClassVar c n v)
    pure v
  | none => typeFail (.classVariable n)

end ObjectLang
