import ObjectLang.Store.Chain
import Std.Data.TreeSet.Basic

/-!
# What is held, and what is let go

An entry of a store is held as long as the outermost frame, a value in use or
another entry that is held refers to it. Entries that refer to each other in a
circle hold each other for ever. What nothing holds is let go. Of all entries
only classes and modules are known by links that do not hold them, so they alone
have to be told apart.
-/

namespace ObjectLang

/-- A number of its own for each entry. -/
def Entry.code : Entry → Nat
  | frame f => 6 * f.index
  | object o => 6 * o.index + 1
  | cls c => 6 * c.index + 2
  | array a => 6 * a.index + 3
  | hash h => 6 * h.index + 4
  | proc p => 6 * p.index + 5

/-- The entries of `l` that are in use, or that one of them refers to. -/
def Entry.sustained (refs : Entry → List Entry) (used l : List Entry) : List Entry :=
  let codes := Std.TreeSet.ofList ((used ++ l.flatMap refs).map code)
  l.filter fun e => codes.contains e.code

/-- Takes away what nothing left refers to, until that is nothing. -/
def Entry.settle (refs : Entry → List Entry) (used : List Entry) :
    (fuel : Nat) → List Entry → List Entry
  | 0, l => l
  | fuel + 1, l =>
    let l' := sustained refs used l
    if l'.length = l.length then l else settle refs used fuel l'

/-- The entries that the values of a table hold. -/
def Table.held (t : Table Value) : List Entry :=
  t.entries.filterMap (·.2.reference?)

def ObjectData.held (o : ObjectData) : List Entry :=
  .cls o.cls :: (o.fields.held ++ (o.singleton.map Entry.cls).toList)

namespace Store

/-! ## What is held -/

/-- The entries that an entry holds. The class or module around a definition is not one of
them. -/
def refs (s : Store) : Entry → List Entry
  | .frame f =>
    let fr := s.frame f
    fr.locals.held ++ (fr.parent.map Entry.frame).toList ++
      (fr.self.bind Value.reference?).toList ++ (fr.enclosing.map Entry.cls).toList
  | .object o => (s.object o).held
  | .cls c =>
    let d := s.cls c
    d.object.held ++ (d.superclass.map Entry.cls).toList ++ d.constants.held ++ d.classVars.held
  | .array a => (s.array a).toList.filterMap Value.reference?
  | .hash h => (s.hash h).pairs.flatMap fun (k, v) => [k, v].filterMap Value.reference?
  | .proc p => [.frame (s.block p).frame]

def classIds (s : Store) : List ClassId :=
  (List.range s.classes.size).map ClassId.mk

def entries (s : Store) : List Entry :=
  (List.range s.frames.size).map (.frame ⟨·⟩) ++ (List.range s.objects.size).map (.object ⟨·⟩) ++
    s.classIds.map .cls ++ (List.range s.arrays.size).map (.array ⟨·⟩) ++
    (List.range s.hashes.size).map (.hash ⟨·⟩) ++ (List.range s.blocks.size).map (.proc ⟨·⟩)

/-- The entries that are held if those of `used` are in use. -/
def held (s : Store) (used : List Entry) : List Entry :=
  Entry.settle s.refs used s.entries.length s.entries

/-! ## What is let go -/

/-- Whether a name in the frame, or a constant of one of the classes, leads to the class. -/
def isNamed (s : Store) (f : FrameId) (classes : List ClassId) (c : ClassId) : Bool :=
  (s.frame f).locals.held.contains (.cls c) ||
    classes.any fun d => (s.cls d).constants.held.contains (.cls c)

/-- The classes and modules that names in the frame lead to, by constants of earlier ones. -/
def named (s : Store) (f : FrameId) : List ClassId :=
  s.classIds.foldl (fun classes c => if s.isNamed f classes c then c :: classes else classes) []

/-- Classes and modules that are there although no names in the frame lead to them. -/
def loose (s : Store) (f : FrameId) : List ClassId :=
  let named := s.named f
  s.classIds.filter fun c =>
    s.alive c && (s.cls c).kind != .singleton && !named.contains c

/-- The classes and modules that nothing holds any more but `f` and the values in use. Mostly
names lead to all of them, and there is nothing to search for. -/
def unheld (s : Store) (f : FrameId) (kept : List Value) : List ClassId :=
  match s.loose f with
  | [] => []
  | classes =>
    let held := s.held (.frame f :: kept.filterMap Value.reference?)
    classes.filter fun c => !held.contains (.cls c)

/-- Lets go of all classes and modules that nothing holds any more but `f` and the values, which
are in use outside of the next command. -/
def release (s : Store) (f : FrameId) (kept : List Value) : Store :=
  { s with memory := { s.memory with
      drops := s.memory.runtime.drops (kept.filterMap Value.reference?)
      dropped := s.unheld f kept ++ s.memory.dropped } }

end Store

end ObjectLang
