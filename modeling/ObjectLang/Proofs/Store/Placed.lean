import ObjectLang.Proofs.Store.Policy

/-!
# Stores of well-placed code

Code outlives the program it stands in: a store keeps it in methods, in functions bound to names,
which can go wherever values go, and in blocks. Here is what it means that all of this code is
well placed: a policy that every way to read or change a store respects.
-/

namespace ObjectLang

/-! ## Entries -/

/-- The code of the callable, if it has any, is well placed. -/
def Callable.Placed : Callable → Prop
  | .defined d => d.body.Sound
  | .builtin _ | .puts | .reader _ | .writer _ => True

/-- References need nothing here: what they lead to is a matter of the store. -/
def Value.Placed : Value → Prop
  | .function m => m.Placed
  | _ => True

structure Frame.Placed (fr : Frame) : Prop where
  locals : fr.locals.Forall Value.Placed
  self : ∀ v, fr.self = some v → v.Placed

def ObjectData.Placed (o : ObjectData) : Prop :=
  o.fields.Forall Value.Placed

structure ClassData.Placed (d : ClassData) : Prop where
  object : d.object.Placed
  methods : d.methods.Forall Callable.Placed
  constants : d.constants.Forall Value.Placed
  classVars : d.classVars.Forall Value.Placed

abbrev HashTable.Placed (t : HashTable) : Prop :=
  t.Forall Value.Placed

/-- All code that the store keeps is well placed. -/
structure Store.Placed (s : Store) : Prop where
  frames : Entries (fun _ => Frame.Placed) s.frames
  objects : Entries (fun _ => ObjectData.Placed) s.objects
  classes : Entries (fun _ => ClassData.Placed) s.classes
  arrays : Entries (fun _ vs => ∀ v ∈ vs, v.Placed) s.arrays
  hashes : Entries (fun _ => HashTable.Placed) s.hashes
  blocks : Entries (fun _ b => b.body.Sound) s.blocks

/-- A new frame with placed locals and no `self`. -/
theorem Frame.placed_of {parent : Option FrameId} {locals : Table Value}
    {enclosing : Option ClassId} (h : locals.Forall Value.Placed) :
    Frame.Placed ⟨parent, locals, none, enclosing⟩ :=
  ⟨h, nofun⟩

/-! ## The policy -/

/-- Only well-placed code may be kept, and no fault may be that of a malformed tree. -/
def Policy.placed : Policy where
  code := Expr.Sound
  fault := Fault.Sensible
  reference _ := True
  arrays _ := True
  child := Expr.Sound.child
  nothing :=
    have none : ∀ e ∈ ([] : List Expr), e.Operand := nofun
    (Expr.body_ofBody none).sound
  sensible := id
  refused h := .inl h.here
  fresh _ := trivial
  push _ _ := trivial
  modify _ _ _ := trivial

theorem Callable.obeys_placed : Callable.Obeys .placed = Callable.Placed :=
  funext fun m => by cases m <;> rfl

theorem Value.obeys_placed : Value.Obeys .placed = Value.Placed := by
  funext v
  cases v with
  | function m => exact congrFun Callable.obeys_placed m
  | _ => rfl

theorem Frame.placed_iff {fr : Frame} : fr.Placed ↔ fr.Obeys .placed :=
  ⟨fun h => ⟨Value.obeys_placed ▸ h.locals, Value.obeys_placed ▸ h.self⟩,
    fun h => ⟨Value.obeys_placed ▸ h.locals, Value.obeys_placed ▸ h.self⟩⟩

theorem ObjectData.placed_iff {o : ObjectData} : o.Placed ↔ o.Obeys .placed := by
  unfold ObjectData.Placed ObjectData.Obeys
  rw [Value.obeys_placed]

theorem ClassData.placed_iff {d : ClassData} : d.Placed ↔ d.Obeys .placed :=
  ⟨fun h => ⟨ObjectData.placed_iff.mp h.object, Callable.obeys_placed ▸ h.methods,
      Value.obeys_placed ▸ h.constants, Value.obeys_placed ▸ h.classVars⟩,
    fun h => ⟨ObjectData.placed_iff.mpr h.object, Callable.obeys_placed ▸ h.methods,
      Value.obeys_placed ▸ h.constants, Value.obeys_placed ▸ h.classVars⟩⟩

theorem HashTable.placed_iff {t : HashTable} : t.Placed ↔ t.Obeys .placed := by
  unfold HashTable.Placed HashTable.Obeys
  rw [Value.obeys_placed]

theorem Store.placed_iff {s : Store} : s.Placed ↔ s.Obeys .placed where
  mp h :=
    { frames := h.frames.mono fun _ _ => Frame.placed_iff.mp
      objects := h.objects.mono fun _ _ => ObjectData.placed_iff.mp
      classes := h.classes.mono fun _ _ => ClassData.placed_iff.mp
      arrays := trivial
      items := Value.obeys_placed ▸ h.arrays
      hashes := h.hashes.mono fun _ _ => HashTable.placed_iff.mp
      blocks := h.blocks }
  mpr h :=
    { frames := h.frames.mono fun _ _ => Frame.placed_iff.mpr
      objects := h.objects.mono fun _ _ => ObjectData.placed_iff.mpr
      classes := h.classes.mono fun _ _ => ClassData.placed_iff.mpr
      arrays := Value.obeys_placed ▸ h.items
      hashes := h.hashes.mono fun _ _ => HashTable.placed_iff.mpr
      blocks := h.blocks }

/-! ## New machines -/

theorem Store.core_placed (r : Runtime) (output : Output) : (coreStoreOn r output).Placed where
  frames := by
    intro i fr hfr
    obtain rfl : coreFrame = fr := by
      obtain ⟨hi, e⟩ := Array.getElem?_eq_some_iff.mp hfr
      obtain rfl : i = 0 := Nat.lt_one_iff.mp hi
      exact e
    refine Frame.placed_of (Table.forall_ofList fun x hx => ?_)
    rcases List.mem_cons.mp hx with rfl | hx
    · trivial
    · obtain ⟨y, _, rfl⟩ := List.mem_map.mp hx
      trivial
  objects := nofun
  classes := by
    intro i d hd
    obtain ⟨n, superclass, methods, _, rfl⟩ := core_classes r output hd
    refine ⟨Table.forall_empty _, Table.forall_ofList fun x hx => ?_, Table.forall_empty _,
      Table.forall_empty _⟩
    obtain ⟨b, _, rfl⟩ := List.mem_map.mp hx
    trivial
  arrays := nofun
  hashes := nofun
  blocks := nofun

theorem Store.bare_placed : bareStore.Placed where
  frames := by
    intro i fr hfr
    obtain ⟨hi, e⟩ := Array.getElem?_eq_some_iff.mp hfr
    obtain rfl : i = 0 := Nat.lt_one_iff.mp hi
    obtain rfl : (⟨none, .empty, none, none⟩ : Frame) = fr := e
    exact Frame.placed_of (Table.forall_empty _)
  objects := nofun
  classes := nofun
  arrays := nofun
  hashes := nofun
  blocks := nofun

end ObjectLang
