import ObjectLang.Proofs.Parse.Placed
import ObjectLang.Proofs.Store.Contents
import ObjectLang.Proofs.Store.Core

/-!
# Policies

A policy says which code a store may keep, in methods, in functions bound to names and in blocks,
which arrays values may refer to, and what has to hold of the arrays. Every way to read or change a
store respects every policy, as long as what is written obeys it too.
-/

namespace ObjectLang

/-- A fault that is no complaint about a tree: about a target that can be neither assigned nor
defined, or a class name that is none. -/
def Fault.Sensible : Fault → Prop
  | .type .assignmentTarget | .type .definitionTarget | .type .className => False
  | _ => True

/-- What code may be kept and run and what faults it may end in, and what arrays may be known. -/
structure Policy where
  code : Expr → Prop
  fault : Fault → Prop
  reference : ArrayId → Prop
  arrays : Array (Array Value) → Prop
  child : ∀ {e c}, code e → c ∈ e.children → code c
  nothing : code (.sequence [])
  sensible : ∀ {f : Fault}, f.Sensible → fault f
  /-- Only trees that are not well placed are refused. -/
  refused : ∀ {e}, code e → e.WellPlaced ∨ ∀ f, fault f
  fresh : ∀ {xs}, arrays xs → reference ⟨xs.size⟩
  push : ∀ {xs} (vs), arrays xs → arrays (xs.push vs)
  modify : ∀ {xs a} (k), arrays xs → reference a → arrays (xs.modify a.index k)

/-! ## Entries -/

variable {G : Policy}

def Callable.Obeys (G : Policy) : Callable → Prop
  | .defined d => G.code d.body
  | .builtin _ | .puts | .reader _ | .writer _ => True

/-- Of what a value leads to in a store, only arrays matter here. -/
def Value.Obeys (G : Policy) : Value → Prop
  | .function m => m.Obeys G
  | .array a => G.reference a
  | _ => True

structure Frame.Obeys (G : Policy) (fr : Frame) : Prop where
  locals : fr.locals.Forall (Value.Obeys G)
  self : ∀ v, fr.self = some v → v.Obeys G

def ObjectData.Obeys (G : Policy) (o : ObjectData) : Prop :=
  o.fields.Forall (Value.Obeys G)

structure ClassData.Obeys (G : Policy) (d : ClassData) : Prop where
  object : d.object.Obeys G
  methods : d.methods.Forall (Callable.Obeys G)
  constants : d.constants.Forall (Value.Obeys G)
  classVars : d.classVars.Forall (Value.Obeys G)

abbrev HashTable.Obeys (G : Policy) (t : HashTable) : Prop :=
  t.Forall (Value.Obeys G)

structure Store.Obeys (G : Policy) (s : Store) : Prop where
  frames : Entries (fun _ => Frame.Obeys G) s.frames
  objects : Entries (fun _ => ObjectData.Obeys G) s.objects
  classes : Entries (fun _ => ClassData.Obeys G) s.classes
  arrays : G.arrays s.arrays
  items : Entries (fun _ vs => ∀ v ∈ vs, v.Obeys G) s.arrays
  hashes : Entries (fun _ => HashTable.Obeys G) s.hashes
  blocks : Entries (fun _ b => G.code b.body) s.blocks

/-- A new frame without a `self`. -/
theorem Frame.obeys_of {parent : Option FrameId} {locals : Table Value}
    {enclosing : Option ClassId} (h : locals.Forall (Value.Obeys G)) :
    Frame.Obeys G ⟨parent, locals, none, enclosing⟩ :=
  ⟨h, nofun⟩

/-- A new class holds no code. -/
theorem ClassData.obeys_of {metaclass : ClassId} {singleton superclass enclosing : Option ClassId}
    {n : String} {kind : ClassKind} : ClassData.Obeys G
      ⟨⟨metaclass, .empty, singleton⟩, n, kind, superclass, enclosing, .empty, .empty, .empty⟩ :=
  ⟨Table.forall_empty _, Table.forall_empty _, Table.forall_empty _, Table.forall_empty _⟩

theorem Value.obeys_getD {o : Option Value} (h : ∀ v, o = some v → v.Obeys G) :
    (o.getD .nil).Obeys G := by
  cases o with
  | none => trivial
  | some v => exact h v rfl

namespace Store.Obeys

variable {s : Store} (h : s.Obeys G)
include h

/-! ## Reading -/

theorem frame (f : FrameId) : (s.frame f).Obeys G :=
  Entries.getD (P := fun _ => Frame.Obeys G) h.frames (Frame.obeys_of (Table.forall_empty _))

theorem object (o : ObjectId) : (s.object o).Obeys G :=
  Entries.getD (P := fun _ => ObjectData.Obeys G) h.objects (Table.forall_empty _)

theorem cls (c : ClassId) : (s.cls c).Obeys G :=
  Entries.getD (P := fun _ => ClassData.Obeys G) h.classes ClassData.obeys_of

theorem array (a : ArrayId) : ∀ v ∈ s.array a, v.Obeys G :=
  Entries.getD (P := fun _ vs => ∀ v ∈ vs, Value.Obeys G v) h.items (by simp)

theorem hash (t : HashId) : (s.hash t).Obeys G :=
  Entries.getD (P := fun _ => HashTable.Obeys G) h.hashes
    (by intro e he; simp [HashTable.empty] at he)

theorem block (p : ProcId) : G.code (s.block p).body :=
  Entries.getD (P := fun _ (b : Block) => G.code b.body) h.blocks G.nothing

theorem lookup? {f : FrameId} {n : String} {v : Value} (e : s.lookup? f n = some v) : v.Obeys G :=
  findSome?_of_forall (fun g _ hg => (h.frame g).locals.get? hg) e

theorem constant? {f : FrameId} {n : String} {v : Value} (e : s.constant? f n = some v) :
    v.Obeys G := by
  unfold Store.constant? at e
  rcases Option.or_eq_some_iff.mp e with e | ⟨_, e⟩
  · exact findSome?_of_forall (fun c _ hc => (h.cls c).constants.get? hc) e
  · exact h.lookup? e

theorem classVar? {c : ClassId} {n : String} {v : Value} (e : s.classVar? c n = some v) :
    v.Obeys G :=
  findSome?_of_forall (fun d _ hd => (h.cls d).classVars.get? hd) e

theorem instanceMethod? {c : ClassId} {n : String} {m : Callable}
    (e : s.instanceMethod? c n = some m) : m.Obeys G :=
  findSome?_of_forall (fun d _ hd => (h.cls d).methods.get? hd) e

theorem objectMethod? {o : ObjectData} {n : String} {m : Callable}
    (e : s.objectMethod? o n = some m) : m.Obeys G := by
  unfold Store.objectMethod? at e
  rcases Option.or_eq_some_iff.mp e with e | ⟨_, e⟩
  · obtain ⟨c, _, e⟩ := Option.bind_eq_some_iff.mp e
    exact (h.cls c).methods.get? e
  · exact h.instanceMethod? e

theorem method? {f : FrameId} {v : Value} {n : String} {m : Callable}
    (e : s.method? f v n = some m) : m.Obeys G := by
  unfold Store.method? at e
  split at e
  · exact h.objectMethod? e
  · unfold Store.classMethod? at e
    split at e
    · cases e; trivial
    · exact h.objectMethod? e
  · obtain ⟨c, _, e⟩ := Option.bind_eq_some_iff.mp e
    exact h.instanceMethod? e

theorem objectOf? {v : Value} {o : ObjectData} (e : s.objectOf? v = some o) : o.Obeys G := by
  cases v with
  | object i => cases e; exact h.object i
  | cls c => cases e; exact (h.cls c).object
  | _ => cases e

theorem field (v : Value) (n : String) : (s.field v n).Obeys G := by
  refine Value.obeys_getD fun w hw => ?_
  obtain ⟨o, ho, hw⟩ := Option.bind_eq_some_iff.mp hw
  exact (h.objectOf? ho).get? hw

/-! ## Memory -/

theorem tick : s.tick.Obeys G :=
  { h with }

theorem release (f : FrameId) (kept : List Value) : (s.release f kept).Obeys G :=
  { h with }

/-! ## New entries -/

theorem addFrame {fr : Frame} (hf : fr.Obeys G) : (s.addFrame fr).2.Obeys G :=
  { h with frames := h.frames.push hf }

theorem addObject {o : ObjectData} (ho : o.Obeys G) : (s.addObject o).2.Obeys G :=
  { h with objects := h.objects.push ho }

theorem addClass {d : ClassData} (hd : d.Obeys G) : (s.addClass d).2.Obeys G :=
  { h with classes := h.classes.push hd }

theorem addArray {vs : Array Value} (hv : ∀ v ∈ vs, v.Obeys G) : (s.addArray vs).2.Obeys G :=
  { h with arrays := G.push vs h.arrays, items := h.items.push hv }

theorem addHash {t : HashTable} (ht : t.Obeys G) : (s.addHash t).2.Obeys G :=
  { h with hashes := h.hashes.push ht }

theorem addBlock {b : Block} (hb : G.code b.body) : (s.addBlock b).2.Obeys G :=
  { h with blocks := h.blocks.push hb }

theorem enterBlock {b : Block} {args : List Value}
    (ha : ∀ x ∈ bindBlockParams b.params args, x.2.Obeys G) : (s.enterBlock b args).2.Obeys G :=
  h.addFrame ⟨Table.forall_ofList ha, (h.frame b.frame).self⟩

theorem enterCall (caller : FrameId) (d : Definition) {receiver : Option Value}
    (hv : ∀ v, receiver = some v → v.Obeys G) {args : List Value} (ha : ∀ v ∈ args, v.Obeys G) :
    (s.enterCall caller d receiver args).2.Obeys G :=
  h.tick.addFrame ⟨Table.forall_ofList fun x hx => ha x.2 (List.of_mem_zip hx).2, hv⟩

theorem enterBody (f : FrameId) (c : ClassId) : (s.enterBody f c).2.Obeys G := by
  refine h.addFrame ⟨Table.forall_empty _, ?_⟩
  rintro v ⟨⟩
  trivial

/-! ## Changed entries -/

theorem print (text : String) : (s.print text).Obeys G :=
  { h with }

theorem setLocal (f : FrameId) (n : String) {v : Value} (hv : v.Obeys G) :
    (s.setLocal f n v).Obeys G :=
  { h with frames := h.frames.modify fun _ _ hf => { hf with locals := hf.locals.set hv n } }

theorem modifyClass (c : ClassId) {k : ClassData → ClassData}
    (hk : ∀ d, d.Obeys G → (k d).Obeys G) : (s.modifyClass c k).Obeys G :=
  { h with classes := h.classes.modify fun d _ => hk d }

theorem setMethod (c : ClassId) (n : String) {m : Callable} (hm : m.Obeys G) :
    (s.setMethod c n m).Obeys G :=
  h.modifyClass c fun _ hd => { hd with methods := hd.methods.set hm n }

theorem setConstant (c : ClassId) (n : String) {v : Value} (hv : v.Obeys G) :
    (s.setConstant c n v).Obeys G :=
  h.modifyClass c fun _ hd => { hd with constants := hd.constants.set hv n }

theorem setClassVar (c : ClassId) (n : String) {v : Value} (hv : v.Obeys G) :
    (s.setClassVar c n v).Obeys G :=
  h.modifyClass _ fun _ hd => { hd with classVars := hd.classVars.set hv n }

theorem modifyObjectOf (v : Value) {k : ObjectData → ObjectData}
    (hk : ∀ o, o.Obeys G → (k o).Obeys G) : (s.modifyObjectOf v k).Obeys G := by
  cases v with
  | object o => exact { h with objects := h.objects.modify fun o _ => hk o }
  | cls c => exact h.modifyClass c fun _ hd => { hd with object := hk _ hd.object }
  | _ => exact h

theorem setField (v : Value) (n : String) {w : Value} (hw : w.Obeys G) :
    (s.setField v n w).Obeys G :=
  h.modifyObjectOf v fun _ ho => Table.Forall.set ho hw n

theorem modifyArray {a : ArrayId} (ha : G.reference a) {k : Array Value → Array Value}
    (hk : ∀ vs, (∀ v ∈ vs, v.Obeys G) → ∀ v ∈ k vs, v.Obeys G) : (s.modifyArray a k).Obeys G :=
  { h with arrays := G.modify k h.arrays ha, items := h.items.modify fun vs _ => hk vs }

theorem setHash (t : HashId) {x : HashTable} (hx : x.Obeys G) :
    (s.modifyHash t fun _ => x).Obeys G :=
  { h with hashes := h.hashes.modify fun _ _ _ => hx }

theorem bind (f : FrameId) (n : String) {v : Value} (hv : v.Obeys G) : (s.bind f n v).Obeys G := by
  unfold Store.bind
  split
  · split
    · exact h.setConstant _ n hv
    · exact h.setLocal f n hv
  · exact h.setLocal f n hv

theorem addSingleton (v : Value) (owner : String) : (s.addSingleton v owner).Obeys G := by
  unfold Store.addSingleton
  split
  · exact h
  · split
    · exact h
    · exact (h.addClass ClassData.obeys_of).modifyObjectOf v fun _ ho => ho

theorem addDefinition (f : FrameId) (container : Option ClassId) (n : String) (kind : ClassKind)
    (metaclass superclass : ClassId) :
    (s.addDefinition f container n kind metaclass superclass).2.Obeys G := by
  unfold Store.addDefinition
  cases container with
  | some outer => exact (h.addClass ClassData.obeys_of).setConstant outer n trivial
  | none => exact (h.addClass ClassData.obeys_of).setLocal _ n trivial

end Store.Obeys

end ObjectLang
