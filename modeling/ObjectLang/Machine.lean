import ObjectLang.Eval
import ObjectLang.Grammar
import ObjectLang.Store.Release

/-!
# Machines

A machine is a store whose first frame holds the built-in classes, the locals
and the classes of the programs run so far. A program is parsed as a whole
before any of it runs, so a syntax error leaves the machine as it was. Between
two commands of a program only its last value is in use, and between two
programs not even that.

Left out are log lines, the text of a crash, the size of the stack, memory but
for the sizes that are asked for, and addresses: entries are numbered instead.
-/

namespace ObjectLang

/-! ## The built-in classes -/

def objectClass : ClassId := ⟨0⟩

def moduleClass : ClassId := ⟨1⟩

def classClass : ClassId := ⟨2⟩

/-- Each built-in class with its superclass and its methods, in the order in which they are
made. -/
def coreClasses : List (String × Option ClassId × List Builtin) :=
  [("Object", none,
      [.cls, .methods, .singletonMethods, .toS, .inspect, .respondTo, .instanceVariables]),
   ("Module", some objectClass,
      [.moduleName, .attrAccessor, .attrReader, .attrWriter, .instanceMethods, .constants]),
   ("Class", some moduleClass, [.superclass]),
   ("NilClass", some objectClass, []),
   ("TrueClass", some objectClass, []),
   ("FalseClass", some objectClass, []),
   ("Fixnum", some objectClass, [.times, .upto, .toS, .toF]),
   ("Float", some objectClass, [.toI, .toS]),
   ("String", some objectClass, [.textLength, .upcase, .downcase, .toSym, .toS]),
   ("Symbol", some objectClass, [.toS]),
   ("Array", some objectClass, [.length, .push, .first, .last, .each, .map]),
   ("Hash", some objectClass, [.keys, .values, .length, .each, .map]),
   ("Range", some objectClass, [.each, .map, .toA]),
   ("Proc", some objectClass, [.call])]

/-- A built-in class. All of them are instances of `Class`, itself included. -/
def coreClass (n : String) (superclass : Option ClassId) (methods : List Builtin) : ClassData where
  object := ⟨classClass, .empty, none⟩
  name := n
  kind := .cls
  superclass := superclass
  enclosing := none
  methods := .ofList (methods.map fun b => (b.selector, .builtin b))
  constants := .empty
  classVars := .empty

def coreFrame : Frame where
  parent := none
  locals := .ofList
    (("puts", .function .puts)
      :: coreClasses.zipIdx.map fun ((n, _, _), i) => (n, .cls ⟨i⟩))
  self := none
  enclosing := none

def coreStore : Store :=
  { Store.empty with
    frames := #[coreFrame]
    classes := (coreClasses.map fun (n, superclass, methods) =>
      coreClass n superclass methods).toArray }

def bareStore : Store :=
  { Store.empty with frames := #[⟨none, .empty, none, none⟩] }

/-! ## Programs -/

/-- Evaluates the commands of a program in order, behind one with the value `last`. From one to
the next, nothing but the last value is kept in use. -/
def commandsFrom (r : Performer) (f : FrameId) (last : Value) : List Expr → Eval Value
  | [] => pure last
  | e :: rest => do
    let v ← r (.expr f e)
    Eval.change (·.release f [v])
    commandsFrom r f v rest

/-- Evaluates the commands of a program. The value is that of the last, or `nil`. -/
def evalProgram (f : FrameId) (commands : List Expr) : Eval Value := do
  Eval.change (·.release f [])
  commandsFrom performer f .nil commands

/-! ## Machines -/

structure Machine where
  store : Store

inductive Failure where
  | source (e : SyntaxError)
  | run (f : Fault)
  deriving DecidableEq, Repr

/-- The end of a run, and the machine after it. -/
inductive Execution where
  | value (v : Value) (m : Machine)
  | failure (e : Failure) (m : Machine)
  | unfinished {halt : Halt}

namespace Execution

@[match_pattern] abbrev endless : Execution := @unfinished .endless

@[match_pattern] abbrev crash (s : Store) : Execution := @unfinished (.crash s)

end Execution

namespace Machine

def initialIn (r : Runtime) : Machine :=
  ⟨{ coreStore with memory := .fresh r }⟩

def initial : Machine := initialIn .usual

/-- A machine whose output fails on every write. -/
def withClosedOutput : Machine :=
  ⟨{ coreStore with output := ⟨"", true⟩ }⟩

/-- A machine without built-in classes and functions. -/
def bare : Machine := ⟨bareStore⟩

def root : FrameId := ⟨0⟩

def perform (m : Machine) (x : Eval Value) : Execution :=
  match x m.store with
  | .value v s => .value v ⟨s⟩
  | .fault f s => .failure (.run f) ⟨s⟩
  | @Outcome.unfinished _ halt => @Execution.unfinished halt

/-- Parses a program and runs it by `run`. -/
def executeBy (m : Machine) (run : List Expr → Eval Value) (source : String) : Execution :=
  match parseProgram source with
  | .ok commands _ => m.perform (run commands)
  | .error e _ => .failure (.source e) m
  | .unfinished => .endless

def execute (m : Machine) (source : String) : Execution :=
  m.executeBy (evalProgram root) source

/-- Runs a program inside of a scope that is in use itself. -/
def executeIn (m : Machine) (f : FrameId) (source : String) : Execution :=
  m.executeBy (evalSequence f) source

/-- Runs a program given as bytes, which have to be UTF-8. -/
def executeBytes (m : Machine) (bytes : ByteArray) : Execution :=
  match String.fromUTF8? bytes with
  | some source => m.execute source
  | none => .failure (.run (.stream .invalidText)) m

def evaluate (m : Machine) (e : Expr) : Execution :=
  m.perform (eval root e)

/-- The class registered at the top level under `n`. -/
def class? (m : Machine) (n : String) : Option ClassId :=
  m.store.registeredClass? root n

/-- What has been printed since the last time, and the machine without it. -/
def takeOutput (m : Machine) : String × Machine :=
  (m.store.output.text, ⟨{ m.store with output := { m.store.output with text := "" } }⟩)

end Machine

end ObjectLang
