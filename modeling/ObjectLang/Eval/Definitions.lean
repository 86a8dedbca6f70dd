import ObjectLang.Eval.Builtins

/-!
# Definitions of methods, classes and modules
-/

namespace ObjectLang

open Eval

/-! ## Methods -/

/-- Gives the object `v` a class of its own unless it has one. -/
def Store.addSingleton (s : Store) (v : Value) (owner : String) : Store :=
  match s.objectOf? v with
  | none => s
  | some o =>
    match o.singleton with
    | some _ => s
    | none =>
      let metaclass := (s.cls o.cls).object.cls
      let (c, s) := s.addClass
        ⟨⟨metaclass, .empty, none⟩, "#<Class:" ++ owner ++ ">", .singleton, some o.cls, none,
          .empty, .empty, .empty⟩
      s.modifyObjectOf v fun o => { o with singleton := some c }

/-- The class of the own methods of an object or class, made on first use. -/
def singletonClass (v : Value) : Eval ClassId := do
  change fun s => s.addSingleton v (s.display v)
  match ← read fun s => (s.objectOf? v).bind (·.singleton) with
  | some c => pure c
  | none =>
    let text ← read (·.inspect v)
    typeFail (.singletonTarget text)

/-- Where a method with a plain name goes: to the class or module around it, to the class of
`self`, or else to a local. -/
def definitionOwner (f : FrameId) : Eval (Option ClassId) := do
  let frame ← read (·.frame f)
  match frame.enclosing, frame.self with
  | some c, _ => pure (some c)
  | none, some v =>
    let c ← expectClassOf f v
    pure (some c)
  | none, none => pure none

def defineOn (r : Performer) (f : FrameId) (receiver : Expr) (n : String) :
    Eval (String × Option ClassId) := do
  let v ← r (.expr f receiver)
  let c ← singletonClass v
  pure (n, some c)

def definitionTarget (r : Performer) (f : FrameId) (target : Expr) :
    Eval (String × Option ClassId) :=
  match target with
  | .name n => do
    let owner ← definitionOwner f
    pure (n, owner)
  | .dot receiver n _ => defineOn r f receiver n
  | .doubleColon receiver n => defineOn r f receiver n
  | _ => typeFail .definitionTarget

def evalDefine (r : Performer) (f : FrameId) (target : Expr) (params : List String)
    (body : Expr) : Eval Value := do
  let (n, owner) ← definitionTarget r f target
  let enclosing ← read fun s => (s.frame f).enclosing
  let m := Callable.defined ⟨n, params, body, enclosing⟩
  match owner with
  | some c => change (·.setMethod c n m)
  | none => change (·.setLocal f n (.function m))
  pure (.symbol n)

/-! ## Classes and modules -/

/-- The class registered under `n`, which definitions rely on. -/
def requiredClass (f : FrameId) (n : String) : Eval ClassId := do
  match ← read (·.registeredClass? f n) with
  | some c => pure c
  | none => fail (.uninitializedConstant n)

/-- The definition of the given kind that `container` binds `n` to; without a container that is
the outermost frame. -/
def Store.definition? (s : Store) (f : FrameId) (container : Option ClassId) (n : String)
    (kind : ClassKind) : Option ClassId :=
  let bound :=
    match container with
    | some c => (s.cls c).constants.get? n
    | none => (s.frame (s.root f)).locals.get? n
  match bound with
  | some (.cls c) => if (s.cls c).kind = kind then some c else none
  | _ => none

def Store.addDefinition (s : Store) (f : FrameId) (container : Option ClassId) (n : String)
    (kind : ClassKind) (metaclass superclass : ClassId) : ClassId × Store :=
  let qualified := container.elim n fun c => (s.cls c).name ++ "::" ++ n
  let (c, s) := s.addClass
    ⟨⟨metaclass, .empty, none⟩, qualified, kind, some superclass, container, .empty, .empty, .empty⟩
  match container with
  | some outer => (c, s.setConstant outer n (.cls c))
  | none => (c, s.setLocal (s.root f) n (.cls c))

def ClassKind.metaName : ClassKind → String
  | .mod => "Module"
  | .cls | .singleton => "Class"

def makeDefinition (f : FrameId) (container : Option ClassId) (n : String) (kind : ClassKind)
    (superclass : Option ClassId) : Eval ClassId := do
  let superclass ← match superclass with
    | some c => pure c
    | none => requiredClass f "Object"
  let metaclass ← requiredClass f kind.metaName
  Eval.add (·.addDefinition f container n kind metaclass superclass)

/-- The scope of a class or module body, directly under the outermost one. -/
def Store.enterBody (s : Store) (f : FrameId) (c : ClassId) : FrameId × Store :=
  s.addFrame ⟨some (s.root f), .empty, some (.cls c), some c⟩

def evalBody (r : Performer) (f : FrameId) (c : ClassId) (body : Expr) : Eval Value := do
  let g ← Eval.add (·.enterBody f c)
  r (.expr g body)

def moduleValue (v : Value) : Eval ClassId :=
  match v with
  | .cls c => pure c
  | v => do
    let text ← read (·.inspect v)
    typeFail (.notAModule text)

/-- The class or module that a class name is defined in, and the name without it. -/
def classTarget (r : Performer) (f : FrameId) (n : Expr) : Eval (Option ClassId × String) :=
  match n with
  | .name n => do
    let container ← read fun s => (s.frame f).enclosing
    pure (container, n)
  | .doubleColon target n => do
    let v ← r (.expr f target)
    let c ← moduleValue v
    pure (some c, n)
  | _ => typeFail .className

/-- A value as a superclass: only ordinary classes qualify. -/
def superclassValue (v : Value) : Eval ClassId := do
  let c ← read fun s =>
    match v with
    | .cls c => if (s.cls c).kind = .cls then some c else none
    | _ => none
  match c with
  | some c => pure c
  | none =>
    let text ← read (·.inspect v)
    typeFail (.superclassKind text)

def evalSuperclass (r : Performer) (f : FrameId) : Option Expr → Eval (Option ClassId)
  | none => pure none
  | some e => do
    let v ← r (.expr f e)
    let c ← superclassValue v
    pure (some c)

/-- The class to open: the one that is there, unless another superclass is asked for, or a
new one. -/
def openClass (f : FrameId) (container : Option ClassId) (n : String)
    (superclass : Option ClassId) : Eval ClassId := do
  match ← read (·.definition? f container n .cls) with
  | none => makeDefinition f container n .cls superclass
  | some c =>
    let current ← read fun s => (s.cls c).superclass
    if superclass.isNone || superclass = current then pure c
    else
      let name ← read fun s => (s.cls c).name
      typeFail (.superclassMismatch name)

def evalClass (r : Performer) (f : FrameId) (n : Expr) (superclass : Option Expr)
    (body : Expr) : Eval Value := do
  let (container, n) ← classTarget r f n
  let superclass ← evalSuperclass r f superclass
  let c ← openClass f container n superclass
  evalBody r f c body

def openModule (f : FrameId) (container : Option ClassId) (n : String) : Eval ClassId := do
  match ← read (·.definition? f container n .mod) with
  | some c => pure c
  | none => makeDefinition f container n .mod none

def evalModule (r : Performer) (f : FrameId) (n : String) (body : Expr) : Eval Value := do
  let container ← read fun s => (s.frame f).enclosing
  let c ← openModule f container n
  evalBody r f c body

end ObjectLang
