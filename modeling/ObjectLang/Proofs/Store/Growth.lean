import ObjectLang.Store.Release

/-!
# Growth of a store

A store only grows: entries stay in their places, and what a frame, an object or
a class is linked to stays as it is. So a reference that is good stays good. What
has been let go stays so, and a link that does not hold anything may come to lead
nowhere, but not somewhere else.
-/

namespace ObjectLang

/-! ## Entries of an array -/

/-- Every entry of `xs` is in its place in `ys`, up to a change that `R` allows. -/
def Stays {α : Type} (R : α → α → Prop) (xs ys : Array α) : Prop :=
  ∀ (i : Nat) (x : α), xs[i]? = some x → ∃ y, ys[i]? = some y ∧ R x y

namespace Stays

variable {α : Type} {R : α → α → Prop}

theorem refl (hR : ∀ x, R x x) (xs : Array α) : Stays R xs xs :=
  fun _ x h => ⟨x, h, hR x⟩

theorem trans (hR : ∀ x y z, R x y → R y z → R x z) {xs ys zs : Array α} (h : Stays R xs ys)
    (h' : Stays R ys zs) : Stays R xs zs := by
  intro i x hx
  obtain ⟨y, hy, hxy⟩ := h i x hx
  obtain ⟨z, hz, hyz⟩ := h' i y hy
  exact ⟨z, hz, hR x y z hxy hyz⟩

theorem push (hR : ∀ x, R x x) (xs : Array α) (a : α) : Stays R xs (xs.push a) := by
  intro i x hx
  obtain ⟨hi, _⟩ := Array.getElem?_eq_some_iff.mp hx
  refine ⟨x, ?_, hR x⟩
  rw [Array.getElem?_push, if_neg (Nat.ne_of_lt hi), hx]

theorem modify (hR : ∀ x, R x x) (xs : Array α) (j : Nat) {g : α → α}
    (hg : ∀ x, xs[j]? = some x → R x (g x)) : Stays R xs (xs.modify j g) := by
  intro i x hx
  rw [Array.getElem?_modify]
  by_cases h : j = i
  · subst h
    exact ⟨g x, by rw [if_pos rfl, hx]; rfl, hg x hx⟩
  · exact ⟨x, by rw [if_neg h, hx], hR x⟩

theorem size_le {xs ys : Array α} (h : Stays R xs ys) : xs.size ≤ ys.size := by
  rcases Nat.eq_zero_or_pos xs.size with h0 | h0
  · omega
  · obtain ⟨y, hy, _⟩ := h (xs.size - 1) _ (Array.getElem?_eq_getElem (by omega))
    obtain ⟨hi, _⟩ := Array.getElem?_eq_some_iff.mp hy
    omega

theorem get {xs ys : Array α} (h : Stays R xs ys) {i : Nat} (hi : i < xs.size) (a : α) :
    R (xs[i]?.getD a) (ys[i]?.getD a) := by
  have hx : xs[i]? = some xs[i] := Array.getElem?_eq_getElem hi
  obtain ⟨y, hy, hR⟩ := h i _ hx
  rw [hx, hy]
  exact hR

end Stays

/-! ## Links -/

/-- What a frame keeps: all but its locals. -/
structure Frame.Keeps (x y : Frame) : Prop where
  parent : y.parent = x.parent
  self : y.self = x.self
  enclosing : y.enclosing = x.enclosing

/-- What an object keeps: its class, and its own class once there is one. -/
structure ObjectData.Keeps (x y : ObjectData) : Prop where
  cls : y.cls = x.cls
  singleton : ∀ c, x.singleton = some c → y.singleton = some c

/-- What a class keeps: all but its tables. -/
structure ClassData.Keeps (x y : ClassData) : Prop where
  object : x.object.Keeps y.object
  name : y.name = x.name
  kind : y.kind = x.kind
  superclass : y.superclass = x.superclass
  enclosing : y.enclosing = x.enclosing

theorem Frame.Keeps.refl (x : Frame) : x.Keeps x :=
  ⟨rfl, rfl, rfl⟩

theorem Frame.Keeps.trans (x y z : Frame) (h : x.Keeps y) (h' : y.Keeps z) : x.Keeps z :=
  ⟨h'.parent.trans h.parent, h'.self.trans h.self, h'.enclosing.trans h.enclosing⟩

theorem ObjectData.Keeps.refl (x : ObjectData) : x.Keeps x :=
  ⟨rfl, fun _ h => h⟩

theorem ObjectData.Keeps.trans (x y z : ObjectData) (h : x.Keeps y) (h' : y.Keeps z) :
    x.Keeps z :=
  ⟨h'.cls.trans h.cls, fun c hc => h'.singleton c (h.singleton c hc)⟩

theorem ClassData.Keeps.refl (x : ClassData) : x.Keeps x :=
  ⟨.refl _, rfl, rfl, rfl, rfl⟩

theorem ClassData.Keeps.trans (x y z : ClassData) (h : x.Keeps y) (h' : y.Keeps z) : x.Keeps z :=
  ⟨.trans _ _ _ h.object h'.object, h'.name.trans h.name, h'.kind.trans h.kind,
    h'.superclass.trans h.superclass, h'.enclosing.trans h.enclosing⟩

/-! ## Memory -/

/-- Time goes on, and what has been let go does not come back. -/
structure Memory.Ages (m m' : Memory) : Prop where
  runtime : m'.runtime = m.runtime
  now : m.now ≤ m'.now
  dropped : m.dropped ⊆ m'.dropped

theorem Memory.Ages.refl (m : Memory) : m.Ages m :=
  ⟨rfl, Nat.le_refl _, List.Subset.refl _⟩

theorem Memory.Ages.trans {m m' m'' : Memory} (h : m.Ages m') (h' : m'.Ages m'') : m.Ages m'' :=
  ⟨h'.runtime.trans h.runtime, Nat.le_trans h.now h'.now,
    List.Subset.trans h.dropped h'.dropped⟩

namespace Store

theorem ages_tick (s : Store) : s.memory.Ages s.tick.memory :=
  ⟨rfl, Nat.le_succ _, List.subset_append_right _ _⟩

theorem ages_release (s : Store) (f : FrameId) (kept : List Value) :
    s.memory.Ages (s.release f kept).memory :=
  ⟨rfl, Nat.le_refl _, List.subset_append_right _ _⟩

theorem alive_iff {s : Store} {c : ClassId} : s.alive c = true ↔ c ∉ s.memory.dropped := by
  simp [alive]

theorem alive_of_ages {s s' : Store} (h : s.memory.Ages s'.memory) {c : ClassId}
    (hc : s'.alive c = true) : s.alive c = true :=
  alive_iff.mpr fun dropped => alive_iff.mp hc (h.dropped dropped)

/-! ## References that name an entry -/

def HasFrame (s : Store) (f : FrameId) : Prop := f.index < s.frames.size

def HasObject (s : Store) (o : ObjectId) : Prop := o.index < s.objects.size

def HasClass (s : Store) (c : ClassId) : Prop := c.index < s.classes.size

def HasArray (s : Store) (a : ArrayId) : Prop := a.index < s.arrays.size

def HasHash (s : Store) (h : HashId) : Prop := h.index < s.hashes.size

def HasBlock (s : Store) (p : ProcId) : Prop := p.index < s.blocks.size

theorem frames_get {s : Store} {f : FrameId} (h : s.HasFrame f) :
    s.frames[f.index]? = some (s.frame f) := by
  rw [frame, Array.getElem?_eq_getElem h]; rfl

theorem objects_get {s : Store} {o : ObjectId} (h : s.HasObject o) :
    s.objects[o.index]? = some (s.object o) := by
  rw [object, Array.getElem?_eq_getElem h]; rfl

theorem classes_get {s : Store} {c : ClassId} (h : s.HasClass c) :
    s.classes[c.index]? = some (s.cls c) := by
  rw [cls, Array.getElem?_eq_getElem h]; rfl

/-! ## Growth -/

structure Grows (s s' : Store) : Prop where
  frames : Stays Frame.Keeps s.frames s'.frames
  objects : Stays ObjectData.Keeps s.objects s'.objects
  classes : Stays ClassData.Keeps s.classes s'.classes
  arrays : s.arrays.size ≤ s'.arrays.size
  hashes : s.hashes.size ≤ s'.hashes.size
  blocks : Stays Eq s.blocks s'.blocks
  memory : s.memory.Ages s'.memory

namespace Grows

theorem refl (s : Store) : s.Grows s :=
  ⟨.refl Frame.Keeps.refl _, .refl ObjectData.Keeps.refl _, .refl ClassData.Keeps.refl _,
    Nat.le_refl _, Nat.le_refl _, .refl (fun _ => rfl) _, .refl _⟩

theorem trans {s s' s'' : Store} (h : s.Grows s') (h' : s'.Grows s'') : s.Grows s'' :=
  ⟨h.frames.trans Frame.Keeps.trans h'.frames, h.objects.trans ObjectData.Keeps.trans h'.objects,
    h.classes.trans ClassData.Keeps.trans h'.classes, Nat.le_trans h.arrays h'.arrays,
    Nat.le_trans h.hashes h'.hashes,
    Stays.trans (R := Eq) (fun _ _ _ => Eq.trans) h.blocks h'.blocks, h.memory.trans h'.memory⟩

variable {s s' : Store} (h : s.Grows s')
include h

theorem hasFrame {f : FrameId} (hf : s.HasFrame f) : s'.HasFrame f :=
  Nat.lt_of_lt_of_le hf h.frames.size_le

theorem hasObject {o : ObjectId} (ho : s.HasObject o) : s'.HasObject o :=
  Nat.lt_of_lt_of_le ho h.objects.size_le

theorem hasClass {c : ClassId} (hc : s.HasClass c) : s'.HasClass c :=
  Nat.lt_of_lt_of_le hc h.classes.size_le

theorem hasArray {a : ArrayId} (ha : s.HasArray a) : s'.HasArray a :=
  Nat.lt_of_lt_of_le ha h.arrays

theorem hasHash {t : HashId} (ht : s.HasHash t) : s'.HasHash t :=
  Nat.lt_of_lt_of_le ht h.hashes

theorem hasBlock {p : ProcId} (hp : s.HasBlock p) : s'.HasBlock p :=
  Nat.lt_of_lt_of_le hp h.blocks.size_le

theorem frame {f : FrameId} (hf : s.HasFrame f) : (s.frame f).Keeps (s'.frame f) :=
  h.frames.get hf _

theorem object {o : ObjectId} (ho : s.HasObject o) : (s.object o).Keeps (s'.object o) :=
  h.objects.get ho _

theorem cls {c : ClassId} (hc : s.HasClass c) : (s.cls c).Keeps (s'.cls c) :=
  h.classes.get hc _

/-- The class or module around a definition stays the same for as long as it is there. -/
theorem enclosing? {c : ClassId} (hc : s.HasClass c) :
    s'.enclosing? c = (s.enclosing? c).filter s'.alive := by
  unfold Store.enclosing? follow
  rw [(h.cls hc).enclosing, Option.filter_filter]
  congr 1
  funext d
  cases alive : s'.alive d with
  | false => rw [Bool.and_false]
  | true => rw [alive_of_ages h.memory alive, Bool.and_true]

end Grows

/-! ## Steps of growth -/

variable (s : Store)

theorem grows_addFrame (fr : Frame) : s.Grows (s.addFrame fr).2 :=
  { Grows.refl s with frames := .push Frame.Keeps.refl _ _ }

theorem grows_addObject (o : ObjectData) : s.Grows (s.addObject o).2 :=
  { Grows.refl s with objects := .push ObjectData.Keeps.refl _ _ }

theorem grows_addClass (d : ClassData) : s.Grows (s.addClass d).2 :=
  { Grows.refl s with classes := .push ClassData.Keeps.refl _ _ }

theorem grows_addArray (vs : Array Value) : s.Grows (s.addArray vs).2 :=
  { Grows.refl s with arrays := by simp [addArray] }

theorem grows_addHash (t : HashTable) : s.Grows (s.addHash t).2 :=
  { Grows.refl s with hashes := by simp [addHash] }

theorem grows_addBlock (b : Block) : s.Grows (s.addBlock b).2 :=
  { Grows.refl s with blocks := .push (fun _ => rfl) _ _ }

theorem grows_tick : s.Grows s.tick :=
  { Grows.refl s with memory := s.ages_tick }

theorem grows_release (f : FrameId) (kept : List Value) : s.Grows (s.release f kept) :=
  { Grows.refl s with memory := s.ages_release f kept }

theorem grows_setLocal (f : FrameId) (n : String) (v : Value) : s.Grows (s.setLocal f n v) :=
  { Grows.refl s with frames := .modify Frame.Keeps.refl _ _ fun _ _ => ⟨rfl, rfl, rfl⟩ }

theorem grows_modifyObject (o : ObjectId) {g : ObjectData → ObjectData}
    (hg : ∀ x, s.objects[o.index]? = some x → x.Keeps (g x)) : s.Grows (s.modifyObject o g) :=
  { Grows.refl s with objects := .modify ObjectData.Keeps.refl _ _ hg }

theorem grows_modifyClass (c : ClassId) {g : ClassData → ClassData}
    (hg : ∀ d, s.classes[c.index]? = some d → d.Keeps (g d)) : s.Grows (s.modifyClass c g) :=
  { Grows.refl s with classes := .modify ClassData.Keeps.refl _ _ hg }

theorem grows_modifyArray (a : ArrayId) (g : Array Value → Array Value) :
    s.Grows (s.modifyArray a g) :=
  { Grows.refl s with arrays := by simp [modifyArray] }

theorem grows_modifyHash (t : HashId) (g : HashTable → HashTable) :
    s.Grows (s.modifyHash t g) :=
  { Grows.refl s with hashes := by simp [modifyHash] }

end Store

end ObjectLang
