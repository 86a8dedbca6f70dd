import ObjectLang.HashKey
import ObjectLang.Table

/-!
# The store

Everything a program can share or change: frames of local bindings, objects,
classes, arrays, hashes, blocks, and the text printed so far. Entries are added
and changed but never removed, so a reference stays good. A class or module that
nothing holds any more is let go all the same: it stays where it is, but what is
defined inside of it does not lead there any more.
-/

namespace ObjectLang

/-! ## Entries -/

structure Frame where
  parent : Option FrameId
  locals : Table Value
  self : Option Value
  /-- The class or module whose body encloses the scope. -/
  enclosing : Option ClassId

/-- What an object is made of. A class is an object too. -/
structure ObjectData where
  cls : ClassId
  fields : Table Value
  /-- The class that holds the methods of this object alone, once there is one. -/
  singleton : Option ClassId

inductive ClassKind where
  /-- An ordinary class, which has instances. -/
  | cls
  /-- A module, which only holds definitions. -/
  | mod
  /-- The class of one object's own methods. -/
  | singleton
  deriving DecidableEq, Repr

structure ClassData where
  object : ObjectData
  name : String
  kind : ClassKind
  superclass : Option ClassId
  /-- The class or module that the definition stands in. It is not held: whoever follows this
  link has to see whether it is still there. -/
  enclosing : Option ClassId
  methods : Table Callable
  constants : Table Value
  classVars : Table Value

structure Block where
  params : List String
  body : Expr
  frame : FrameId

/-! ## Hashes -/

/-- An entry of a hash: the value first given as its key, and the value bound to it. -/
structure HashEntry where
  given : Value
  value : Value

instance : Inhabited HashEntry := ⟨⟨.nil, .nil⟩⟩

/-- Entries in the order of their first insertion, and for each key the position of its entry.
The index holds the keys as they were when the entries were made, whatever becomes of the
values given as keys. -/
structure HashTable where
  entries : Array HashEntry
  index : List (HashKey × Nat)

namespace HashTable

def empty : HashTable := ⟨#[], []⟩

def position? (t : HashTable) (k : HashKey) : Option Nat :=
  t.index.lookup k

def get? (t : HashTable) (k : HashKey) : Option Value :=
  (t.position? k).map fun i => t.entries[i]!.value

/-- Binds `k` to `v`. An entry that is there already keeps its place and the value first
given as its key. -/
def insert (t : HashTable) (k : HashKey) (given v : Value) : HashTable :=
  match t.position? k with
  | some i => { t with entries := t.entries.modify i fun e => { e with value := v } }
  | none => ⟨t.entries.push ⟨given, v⟩, (k, t.entries.size) :: t.index⟩

def size (t : HashTable) : Nat := t.entries.size

def pairs (t : HashTable) : List (Value × Value) :=
  t.entries.toList.map fun e => (e.given, e.value)

end HashTable

/-! ## Memory -/

/-- What can be referred to. -/
inductive Entry where
  | frame (f : FrameId)
  | object (o : ObjectId)
  | cls (c : ClassId)
  | array (a : ArrayId)
  | hash (h : HashId)
  | proc (p : ProcId)
  deriving DecidableEq

/-- The entry that a value holds. A callable holds nothing. -/
def Value.reference? : Value → Option Entry
  | .array a => some (.array a)
  | .hash h => some (.hash h)
  | .object o => some (.object o)
  | .cls c => some (.cls c)
  | .proc p => some (.proc p)
  | .nil | .bool _ | .int _ | .real _ | .str _ | .symbol _ | .range _ _ | .function _ => none

/-- What a run leaves to the memory that it is given. There is no account of what is in use in the
middle of a command, so `drops` is anything: what holds for all of them holds for the right one. -/
structure Runtime where
  /-- The classes that are let go at a moment in the middle of a command. It matters what is in
  use outside of the command all the while. -/
  drops : (used : List Entry) → (moment : Nat) → List ClassId
  /-- Whether an array of some size can be had at a moment. -/
  room : (moment size : Nat) → Bool

/-- Classes are let go between commands only, and there is room for all but hopeless sizes. -/
def Runtime.usual : Runtime where
  drops _ _ := []
  room _ size := size < Nat.pow 2 42

structure Memory where
  runtime : Runtime
  /-- How often it has been asked so far whether a class is still there. -/
  now : Nat
  /-- What the runtime lets go in the middle of the command, at each moment. -/
  drops : (moment : Nat) → List ClassId
  /-- The classes that were let go. -/
  dropped : List ClassId

/-- The memory of a new machine. -/
def Memory.fresh (r : Runtime) : Memory := ⟨r, 0, r.drops [], []⟩

/-! ## The store -/

structure Output where
  text : String
  /-- Whether every write fails. -/
  closed : Bool

structure Store where
  frames : Array Frame
  objects : Array ObjectData
  classes : Array ClassData
  arrays : Array (Array Value)
  hashes : Array HashTable
  blocks : Array Block
  output : Output
  memory : Memory

namespace Store

def empty : Store := ⟨#[], #[], #[], #[], #[], #[], ⟨"", false⟩, .fresh .usual⟩

/-! ### Reading entries

A reference that names no entry reads as an empty one. -/

def frame (s : Store) (f : FrameId) : Frame :=
  s.frames[f.index]?.getD ⟨none, .empty, none, none⟩

def object (s : Store) (o : ObjectId) : ObjectData :=
  s.objects[o.index]?.getD ⟨⟨0⟩, .empty, none⟩

def cls (s : Store) (c : ClassId) : ClassData :=
  s.classes[c.index]?.getD ⟨⟨⟨0⟩, .empty, none⟩, "", .cls, none, none, .empty, .empty, .empty⟩

def array (s : Store) (a : ArrayId) : Array Value :=
  s.arrays[a.index]?.getD #[]

def hash (s : Store) (h : HashId) : HashTable :=
  s.hashes[h.index]?.getD .empty

def block (s : Store) (p : ProcId) : Block :=
  s.blocks[p.index]?.getD ⟨[], .sequence [], ⟨0⟩⟩

/-! ### Adding entries -/

def addFrame (s : Store) (f : Frame) : FrameId × Store :=
  (⟨s.frames.size⟩, { s with frames := s.frames.push f })

def addObject (s : Store) (o : ObjectData) : ObjectId × Store :=
  (⟨s.objects.size⟩, { s with objects := s.objects.push o })

def addClass (s : Store) (c : ClassData) : ClassId × Store :=
  (⟨s.classes.size⟩, { s with classes := s.classes.push c })

def addArray (s : Store) (vs : Array Value) : ArrayId × Store :=
  (⟨s.arrays.size⟩, { s with arrays := s.arrays.push vs })

def addHash (s : Store) (t : HashTable) : HashId × Store :=
  (⟨s.hashes.size⟩, { s with hashes := s.hashes.push t })

def addBlock (s : Store) (b : Block) : ProcId × Store :=
  (⟨s.blocks.size⟩, { s with blocks := s.blocks.push b })

/-! ### Changing entries -/

def modifyFrame (s : Store) (f : FrameId) (g : Frame → Frame) : Store :=
  { s with frames := s.frames.modify f.index g }

def modifyObject (s : Store) (o : ObjectId) (g : ObjectData → ObjectData) : Store :=
  { s with objects := s.objects.modify o.index g }

def modifyClass (s : Store) (c : ClassId) (g : ClassData → ClassData) : Store :=
  { s with classes := s.classes.modify c.index g }

def modifyArray (s : Store) (a : ArrayId) (g : Array Value → Array Value) : Store :=
  { s with arrays := s.arrays.modify a.index g }

def modifyHash (s : Store) (h : HashId) (g : HashTable → HashTable) : Store :=
  { s with hashes := s.hashes.modify h.index g }

def setLocal (s : Store) (f : FrameId) (n : String) (v : Value) : Store :=
  s.modifyFrame f fun fr => { fr with locals := fr.locals.set n v }

def setMethod (s : Store) (c : ClassId) (n : String) (m : Callable) : Store :=
  s.modifyClass c fun d => { d with methods := d.methods.set n m }

def setConstant (s : Store) (c : ClassId) (n : String) (v : Value) : Store :=
  s.modifyClass c fun d => { d with constants := d.constants.set n v }

/-- Changes the object side of an object or class; other values have none. -/
def modifyObjectOf (s : Store) (v : Value) (g : ObjectData → ObjectData) : Store :=
  match v with
  | .object o => s.modifyObject o g
  | .cls c => s.modifyClass c fun d => { d with object := g d.object }
  | _ => s

def objectOf? (s : Store) (v : Value) : Option ObjectData :=
  match v with
  | .object o => some (s.object o)
  | .cls c => some (s.cls c).object
  | _ => none

def print (s : Store) (text : String) : Store :=
  { s with output := { s.output with text := s.output.text ++ text } }

/-! ### Classes that are let go -/

/-- Whether the class is still there for those who do not hold it. -/
def alive (s : Store) (c : ClassId) : Bool :=
  !s.memory.dropped.contains c

/-- Where a link leads that does not hold what it leads to. -/
def follow (s : Store) (link : Option ClassId) : Option ClassId :=
  link.filter s.alive

/-- A moment passes, and classes may be let go. -/
def tick (s : Store) : Store :=
  let m := s.memory
  { s with memory := { m with now := m.now + 1, dropped := m.drops m.now ++ m.dropped } }

def hasRoom (s : Store) (size : Nat) : Bool :=
  s.memory.runtime.room s.memory.now size

end Store

end ObjectLang
