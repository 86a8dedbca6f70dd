import ObjectLang.Store

/-!
# Chains of links

Frames have parents, classes have superclasses and enclosing modules. Each link
leads to an entry made earlier, so a chain has at most as many members as there
are entries up to its start.
-/

namespace ObjectLang

/-- The first `fuel` members of the chain from `a` along `next`. -/
def chain {α : Type} (next : α → Option α) : (fuel : Nat) → α → List α
  | 0, _ => []
  | fuel + 1, a => a :: (next a).elim [] (chain next fuel)

namespace Store

/-! ## Scopes -/

/-- The frame and the frames around it, innermost first. -/
def scopes (s : Store) (f : FrameId) : List FrameId :=
  chain (fun g => (s.frame g).parent) (f.index + 1) f

/-- A new scope inside `f`, with the same `self` and the same class or module around it. -/
def enterScope (s : Store) (f : FrameId) (locals : Table Value) : FrameId × Store :=
  s.addFrame ⟨some f, locals, (s.frame f).self, (s.frame f).enclosing⟩

def root (s : Store) (f : FrameId) : FrameId :=
  (s.scopes f).getLast?.getD f

def lookup? (s : Store) (f : FrameId) (n : String) : Option Value :=
  (s.scopes f).findSome? fun g => (s.frame g).locals.get? n

/-- Whether the frame or one around it binds the name. -/
def binds (s : Store) (f : FrameId) (n : String) : Bool :=
  (s.lookup? f n).isSome

/-- The frame that is left behind after following `fuel` parents, if there are that many. -/
def climb (s : Store) : (fuel : Nat) → FrameId → FrameId
  | 0, f => f
  | fuel + 1, f => (s.frame f).parent.elim f (s.climb fuel)

/-- The frame around all others, reached by following parents one by one. -/
def outermost (s : Store) (f : FrameId) : FrameId :=
  s.climb f.index f

def registeredClass? (s : Store) (f : FrameId) (n : String) : Option ClassId :=
  match (s.frame (s.root f)).locals.get? n with
  | some (.cls c) => some c
  | _ => none

/-! ## Classes -/

def lineage (s : Store) (c : ClassId) : List ClassId :=
  chain (fun d => (s.cls d).superclass) (c.index + 1) c

/-- The class or module around a definition, if it is still there. -/
def enclosing? (s : Store) (c : ClassId) : Option ClassId :=
  s.follow (s.cls c).enclosing

/-- The module and the modules around it, innermost first. -/
def nesting (s : Store) (c : ClassId) : List ClassId :=
  chain s.enclosing? (c.index + 1) c

def inheritsFrom (s : Store) (c d : ClassId) : Bool :=
  (s.lineage c).contains d

/-- The constant `n` as seen from a frame: from the modules around it, then from its scopes. -/
def constant? (s : Store) (f : FrameId) (n : String) : Option Value :=
  let modules := (s.frame f).enclosing.elim [] s.nesting
  (modules.findSome? fun c => (s.cls c).constants.get? n).or (s.lookup? f n)

/-- Reads a constant. -/
def readConstant (s : Store) (f : FrameId) (n : String) : Option Value × Store :=
  (s.tick.constant? f n, s.tick)

/-! ## Class variables -/

/-- The nearest class of the lineage that holds the class variable. -/
def classVarHolder? (s : Store) (c : ClassId) (n : String) : Option ClassId :=
  (s.lineage c).find? fun d => (s.cls d).classVars.contains n

def classVar? (s : Store) (c : ClassId) (n : String) : Option Value :=
  (s.lineage c).findSome? fun d => (s.cls d).classVars.get? n

/-- Writes a class variable where it is held, or else in `c` itself. -/
def setClassVar (s : Store) (c : ClassId) (n : String) (v : Value) : Store :=
  s.modifyClass ((s.classVarHolder? c n).getD c) fun d =>
    { d with classVars := d.classVars.set n v }

/-! ## Methods -/

def instanceMethod? (s : Store) (c : ClassId) (n : String) : Option Callable :=
  (s.lineage c).findSome? fun d => (s.cls d).methods.get? n

/-- Names of the methods of instances, each in its place nearest to the class. -/
def instanceMethodNames (s : Store) (c : ClassId) : List String :=
  ((s.lineage c).flatMap fun d => (s.cls d).methods.names).eraseDups

/-- The method `n` of an object: from its own methods first, then from its class. -/
def objectMethod? (s : Store) (o : ObjectData) (n : String) : Option Callable :=
  (o.singleton.bind fun c => (s.cls c).methods.get? n).or (s.instanceMethod? o.cls n)

def singletonMethodNames (s : Store) (o : ObjectData) : List String :=
  o.singleton.elim [] fun c => (s.cls c).methods.names

def methodNames (s : Store) (o : ObjectData) : List String :=
  (s.singletonMethodNames o ++ s.instanceMethodNames o.cls).eraseDups

/-- The method `n` of a class as a receiver. Every ordinary class has `new`. -/
def classMethod? (s : Store) (c : ClassId) (n : String) : Option Callable :=
  if n = "new" ∧ (s.cls c).kind = .cls then some (.builtin .new)
  else s.objectMethod? (s.cls c).object n

/-- The class of a value: the one it is linked to, or the one registered for its kind. -/
def classOf? (s : Store) (f : FrameId) (v : Value) : Option ClassId :=
  match s.objectOf? v with
  | some o => some o.cls
  | none => v.builtinClass?.bind (s.registeredClass? f)

def method? (s : Store) (f : FrameId) (v : Value) (n : String) : Option Callable :=
  match v with
  | .object o => s.objectMethod? (s.object o) n
  | .cls c => s.classMethod? c n
  | v => (s.classOf? f v).bind (s.instanceMethod? · n)

end Store

end ObjectLang
