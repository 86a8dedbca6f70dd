import ObjectLang.Proofs.Store.Growth

/-!
# Sound stores

The invariant of a store. Every reference names an entry, and a link from one
entry to another of its kind leads to an earlier one. A value never names the
class of one object's own methods, whatever names a program rebinds; so classes
found through values can stand as superclasses and enclosing modules.
-/

namespace ObjectLang

/-! ## Entries with a property -/

/-- Every entry has the property `P` that belongs to its place. -/
def Entries {α : Type} (P : Nat → α → Prop) (xs : Array α) : Prop :=
  ∀ (i : Nat) (x : α), xs[i]? = some x → P i x

namespace Entries

variable {α : Type} {P Q : Nat → α → Prop} {xs : Array α}

theorem mono (h : Entries P xs) (hpq : ∀ i x, P i x → Q i x) : Entries Q xs :=
  fun i x hx => hpq i x (h i x hx)

theorem push (h : Entries P xs) {a : α} (ha : P xs.size a) : Entries P (xs.push a) := by
  intro i x hx
  rw [Array.getElem?_push] at hx
  by_cases hi : i = xs.size
  · rw [if_pos hi] at hx
    cases hx
    exact hi ▸ ha
  · rw [if_neg hi] at hx
    exact h i x hx

theorem modify (h : Entries P xs) {j : Nat} {g : α → α}
    (hg : ∀ x, xs[j]? = some x → P j x → P j (g x)) : Entries P (xs.modify j g) := by
  intro i x hx
  rw [Array.getElem?_modify] at hx
  by_cases hi : j = i
  · subst hi
    rw [if_pos rfl] at hx
    obtain ⟨y, hy, rfl⟩ := Option.map_eq_some_iff.mp hx
    exact hg y hy (h j y hy)
  · rw [if_neg hi] at hx
    exact h i x hx

end Entries

namespace Store

/-! ## Values and callables -/

/-- A class or module of its own, unlike the class of one object's methods. -/
structure Proper (s : Store) (c : ClassId) : Prop where
  has : s.HasClass c
  kind : (s.cls c).kind ≠ .singleton

structure Instantiable (s : Store) (c : ClassId) : Prop where
  has : s.HasClass c
  kind : (s.cls c).kind = .cls

/-- A callable that may be stored. `new` is found by the kind of its receiver alone. -/
def Admits (s : Store) : Callable → Prop
  | .builtin b => b ≠ .new
  | .defined d => ∀ c, d.enclosing = some c → s.Proper c
  | .puts | .reader _ | .writer _ => True

/-- A value whose references name entries that values may name. -/
def Knows (s : Store) : Value → Prop
  | .array a => s.HasArray a
  | .hash h => s.HasHash h
  | .object o => s.HasObject o
  | .cls c => s.Proper c
  | .proc p => s.HasBlock p
  | .function f => s.Admits f
  | .nil | .bool _ | .int _ | .real _ | .str _ | .symbol _ | .range _ _ => True

/-- A callable that may run with the receiver. -/
def MayRun (s : Store) (m : Callable) (receiver : Option Value) : Prop :=
  s.Admits m ∨ m = .builtin .new ∧ ∃ c, receiver = some (.cls c) ∧ s.Instantiable c

/-! ## Entries -/

/-- A frame in place `i`: only the first one has no parent. -/
structure FrameSound (s : Store) (i : Nat) (fr : Frame) : Prop where
  parent : fr.parent.elim (i = 0) (·.index < i)
  locals : fr.locals.Forall s.Knows
  self : ∀ v, fr.self = some v → s.Knows v
  enclosing : ∀ c, fr.enclosing = some c → s.Proper c

/-- The class `c` of the own methods of an object of class `owner`. -/
structure Singleton (s : Store) (owner c : ClassId) : Prop where
  has : s.HasClass c
  kind : (s.cls c).kind = .singleton
  superclass : (s.cls c).superclass = some owner

structure ObjectSound (s : Store) (o : ObjectData) : Prop where
  cls : s.Proper o.cls
  fields : o.fields.Forall s.Knows
  singleton : ∀ c, o.singleton = some c → s.Singleton o.cls c

/-- A class in place `i`: only the first one has no superclass. -/
structure ClassSound (s : Store) (i : Nat) (d : ClassData) : Prop where
  object : s.ObjectSound d.object
  superclass : d.superclass.elim (i = 0) fun p => p.index < i ∧ s.Proper p
  enclosing : ∀ c, d.enclosing = some c → c.index < i ∧ s.Proper c
  methods : d.methods.Forall s.Admits
  constants : d.constants.Forall s.Knows
  classVars : d.classVars.Forall s.Knows

def HashSound (s : Store) (t : HashTable) : Prop :=
  ∀ e ∈ t.entries, s.Knows e.given ∧ s.Knows e.value

/-! ## The invariant -/

/-- The entries of `s` refer to entries of `t`. -/
structure SoundIn (t s : Store) : Prop where
  rooted : 0 < s.frames.size
  frames : Entries t.FrameSound s.frames
  objects : Entries (fun _ o => t.ObjectSound o ∧ t.Instantiable o.cls) s.objects
  classes : Entries t.ClassSound s.classes
  arrays : Entries (fun _ vs => ∀ v ∈ vs, t.Knows v) s.arrays
  hashes : Entries (fun _ h => t.HashSound h) s.hashes
  blocks : Entries (fun _ b => t.HasFrame b.frame) s.blocks

abbrev Sound (s : Store) : Prop := s.SoundIn s

/-! ## What growth keeps -/

section
variable {s s' : Store} (g : s.Grows s')
include g

theorem Proper.grows {c : ClassId} (h : s.Proper c) : s'.Proper c :=
  ⟨g.hasClass h.has, by rw [(g.cls h.has).kind]; exact h.kind⟩

theorem Instantiable.grows {c : ClassId} (h : s.Instantiable c) : s'.Instantiable c :=
  ⟨g.hasClass h.has, by rw [(g.cls h.has).kind]; exact h.kind⟩

theorem Admits.grows {m : Callable} (h : s.Admits m) : s'.Admits m := by
  cases m with
  | defined d => exact fun c hc => (h c hc).grows g
  | builtin b => exact h
  | puts | reader _ | writer _ => trivial

theorem Knows.grows {v : Value} (h : s.Knows v) : s'.Knows v := by
  cases v with
  | array a => exact g.hasArray h
  | hash t => exact g.hasHash h
  | object o => exact g.hasObject h
  | cls c => exact Proper.grows g h
  | proc p => exact g.hasBlock h
  | function m => exact Admits.grows g h
  | nil | bool _ | int _ | real _ | str _ | symbol _ | range _ _ => trivial

theorem FrameSound.grows {i : Nat} {fr : Frame} (h : s.FrameSound i fr) : s'.FrameSound i fr :=
  ⟨h.parent, h.locals.mono fun _ => Knows.grows g, fun v hv => (h.self v hv).grows g,
    fun c hc => (h.enclosing c hc).grows g⟩

theorem Singleton.grows {owner c : ClassId} (h : s.Singleton owner c) : s'.Singleton owner c :=
  ⟨g.hasClass h.has, by rw [(g.cls h.has).kind]; exact h.kind,
    by rw [(g.cls h.has).superclass]; exact h.superclass⟩

theorem ObjectSound.grows {o : ObjectData} (h : s.ObjectSound o) : s'.ObjectSound o :=
  ⟨h.cls.grows g, h.fields.mono fun _ => Knows.grows g, fun c hc => (h.singleton c hc).grows g⟩

theorem ClassSound.grows {i : Nat} {d : ClassData} (h : s.ClassSound i d) :
    s'.ClassSound i d where
  object := h.object.grows g
  superclass := by
    have hs := h.superclass
    cases hd : d.superclass with
    | none => rw [hd] at hs; exact hs
    | some p => rw [hd] at hs; exact ⟨hs.1, hs.2.grows g⟩
  enclosing := fun c hc => ⟨(h.enclosing c hc).1, (h.enclosing c hc).2.grows g⟩
  methods := h.methods.mono fun _ => Admits.grows g
  constants := h.constants.mono fun _ => Knows.grows g
  classVars := h.classVars.mono fun _ => Knows.grows g

theorem HashSound.grows {t : HashTable} (h : s.HashSound t) : s'.HashSound t :=
  fun e he => ⟨(h e he).1.grows g, (h e he).2.grows g⟩

/-- Only the entries that a change touches need a proof of their own. -/
theorem SoundIn.grows {t : Store} (h : s.SoundIn t) : s'.SoundIn t where
  rooted := h.rooted
  frames := h.frames.mono fun _ _ => FrameSound.grows g
  objects := h.objects.mono fun _ _ ho => ⟨ho.1.grows g, ho.2.grows g⟩
  classes := h.classes.mono fun _ _ => ClassSound.grows g
  arrays := h.arrays.mono fun _ _ hv v hm => (hv v hm).grows g
  hashes := h.hashes.mono fun _ _ => HashSound.grows g
  blocks := h.blocks.mono fun _ _ => g.hasFrame

end

end Store

end ObjectLang
