import Mathlib
import ObjectLang.Proofs.ObjectGraph

/-!
# The scope tree

Frames are made one after the other, each with the frame around it fixed for good, and locals are
set in any order. What a name means in a frame is told by the calls alone: it is what was last set
in the nearest frame that ever set it.
-/

namespace ObjectLang

/-! ## Calls -/

/-- A way to make a frame, or to bind a local in one. -/
inductive ScopeCall where
  | new
  | inherit (parent : FrameId)
  | enter (parent : FrameId) (self : Option Value) (enclosing : Option ClassId)
  | set (f : FrameId) (n : String) (v : Value)

namespace ScopeCall

def run : ScopeCall → Store → Store
  | new, s => (s.addFrame ⟨none, .empty, none, none⟩).2
  | inherit p, s => (s.enterScope p .empty).2
  | enter p self enclosing, s => (s.addFrame ⟨some p, .empty, self, enclosing⟩).2
  | set f n v, s => s.setLocal f n v

/-- The frame that the call is given. -/
def given? : ScopeCall → Option FrameId
  | new => none
  | inherit p | enter p _ _ => some p
  | set f _ _ => some f

/-- The calls, the last one first, lead from the one store to the other. Each is given a frame
that is there. -/
inductive Lead (s : Store) : List ScopeCall → Store → Prop where
  | nil : Lead s [] s
  | call {calls : List ScopeCall} {t : Store} {c : ScopeCall} : Lead s calls t →
      (∀ f, c.given? = some f → t.HasFrame f) → Lead s (c :: calls) (c.run t)

/-! ## What the calls tell -/

/-- How many frames the calls make. -/
def made : List ScopeCall → Nat
  | [] => 0
  | set _ _ _ :: past => made past
  | new :: past | inherit _ :: past | enter _ _ _ :: past => made past + 1

/-- The frame around a frame: the one given to the call that made it. -/
def parentIn : List ScopeCall → FrameId → Option FrameId
  | [], _ => none
  | inherit p :: past, g | enter p _ _ :: past, g =>
    if g.index = made past then some p else parentIn past g
  | new :: past, g | set _ _ _ :: past, g => parentIn past g

/-- The value last set for a name in a frame. -/
def lastSet : List ScopeCall → FrameId → String → Option Value
  | [], _, _ => none
  | set f n v :: past, g, m => if g = f ∧ m = n then some v else lastSet past g m
  | new :: past, g, m | inherit _ :: past, g, m | enter _ _ _ :: past, g, m => lastSet past g m

/-- The frame `f` is `g` or a frame around it, and no frame before it on the way out from `g` ever
set the name. -/
def Uncovered (calls : List ScopeCall) (f : FrameId) (n : String) (g : FrameId) : Prop :=
  ∃ before after, Walk (parentIn calls) g (before ++ f :: after) ∧
    ∀ h ∈ before, lastSet calls h n = none

end ScopeCall

open ScopeCall

namespace Store

variable {s t : Store} {f g : FrameId} {n m : String} {v : Value}

/-! ## Single frames -/

theorem get?_setLocal (hf : s.HasFrame f) (n : String) (v : Value) (g : FrameId) (m : String) :
    ((s.setLocal f n v).frame g).locals.get? m =
      if g = f ∧ m = n then some v else (s.frame g).locals.get? m := by
  rw [frame_setLocal hf]
  by_cases e : g = f
  · subst e
    simp [Table.get?_set]
  · simp [e]

theorem parent?_setLocal (f : FrameId) (n : String) (v : Value) :
    (s.setLocal f n v).parent? = s.parent? := by
  funext g
  simp only [parent?, frame, setLocal, modifyFrame, Array.getElem?_modify]
  split
  · cases s.frames[g.index]? <;> rfl
  · rfl

theorem frame_of_not_hasFrame (h : ¬ s.HasFrame f) : s.frame f = ⟨none, .empty, none, none⟩ := by
  rw [frame, Array.getElem?_eq_none (Nat.le_of_not_lt h)]
  rfl

/-! ## The way out -/

theorem getLast?_chain (s : Store) : ∀ (fuel : Nat) (f : FrameId),
    (chain s.parent? (fuel + 1) f).getLast? = some (s.climb fuel f)
  | 0, f => by
    rw [chain, climb]
    cases s.parent? f <;> rfl
  | fuel + 1, f => by
    have ih := getLast?_chain s fuel
    rw [chain, climb]
    cases e : (s.frame f).parent <;> simp [e, List.getLast?_cons, ih]

theorem root_eq_outermost (s : Store) (f : FrameId) : s.root f = s.outermost f := by
  rw [root, outermost, show (s.scopes f).getLast? = _ from getLast?_chain s f.index f]
  rfl

/-! ## The record of the calls -/

/-- The store holds what the calls tell, and frames are inside of earlier ones. -/
structure Records (calls : List ScopeCall) (s : Store) : Prop where
  size : s.frames.size = made calls
  parent : s.parent? = parentIn calls
  earlier : ∀ f p, s.parent? f = some p → p.index < f.index
  locals : ∀ f n, (s.frame f).locals.get? n = lastSet calls f n

theorem Records.addFrame {past : List ScopeCall} (r : Records past s) {c : ScopeCall}
    {fr : Frame} (empty : fr.locals = .empty) (made : made (c :: past) = made past + 1)
    (parent : ∀ g, parentIn (c :: past) g =
      if g.index = ScopeCall.made past then fr.parent else parentIn past g)
    (last : lastSet (c :: past) = lastSet past) (earlier : ∀ p, fr.parent = some p → s.HasFrame p) :
    Records (c :: past) (s.addFrame fr).2 := by
  have same := r.size
  refine ⟨by simp [Store.addFrame, made, same], funext fun g => ?_, fun g p e => ?_, fun g m => ?_⟩
  · rw [parent, ← r.parent, ← same, parent?, frame_addFrame]
    split <;> rfl
  · rw [parent?, frame_addFrame] at e
    split at e
    · next new => exact new ▸ earlier p e
    · exact r.earlier g p e
  · rw [last, ← r.locals, frame_addFrame]
    split
    · next new =>
      -- A frame that is not there yet reads as one without locals, so nothing was set in it.
      rw [empty, frame_of_not_hasFrame (f := g) (by simp [HasFrame, new])]
    · rfl

theorem parentIn_made {calls : List ScopeCall} (r : Records calls s) {g : FrameId}
    (new : g.index = made calls) : parentIn calls g = none := by
  rw [← r.parent, parent?, frame_of_not_hasFrame]
  simp [HasFrame, r.size, new]

theorem Records.call {calls : List ScopeCall} (r : Records calls s) {c : ScopeCall}
    (has : ∀ f, c.given? = some f → s.HasFrame f) : Records (c :: calls) (c.run s) := by
  cases c with
  | new =>
    refine r.addFrame rfl rfl (fun g => ?_) rfl nofun
    split
    · next new => exact parentIn_made r new
    · rfl
  | inherit p => exact r.addFrame rfl rfl (fun _ => rfl) rfl has
  | enter p self enclosing => exact r.addFrame rfl rfl (fun _ => rfl) rfl has
  | set f n v =>
    have links := parent?_setLocal (s := s) f n v
    refine ⟨?_, links.trans r.parent, fun g p e => r.earlier g p (links ▸ e), fun g m => ?_⟩
    · simpa [run, setLocal, modifyFrame, made] using r.size
    · rw [lastSet, ← r.locals]
      exact get?_setLocal (has f rfl) n v g m

theorem records_of_lead {calls : List ScopeCall} (start : s.frames = #[]) (h : Lead s calls t) :
    Records calls t := by
  induction h with
  | nil =>
    have none : ∀ g, s.frame g = ⟨none, .empty, none, none⟩ :=
      fun g => frame_of_not_hasFrame (by simp [HasFrame, start])
    refine ⟨by simp [start, made], funext fun g => by simp [parent?, none, parentIn], ?_, ?_⟩
    · simp [parent?, none]
    · exact fun g m => by rw [none]; rfl
  | call _ has ih => exact ih.call has

theorem grows_of_lead {calls : List ScopeCall} (h : Lead s calls t) : s.Grows t := by
  induction h with
  | nil => exact .refl s
  | @call _ t c _ _ ih =>
    refine ih.trans ?_
    cases c with
    | new | inherit _ | enter _ _ _ => exact t.grows_addFrame _
    | set f n v => exact t.grows_setLocal f n v

/-! ## Reads -/

section
variable {calls : List ScopeCall} (r : Records calls s)
include r

theorem Records.walk (g : FrameId) : Walk (parentIn calls) g (s.scopes g) := by
  have down : ∀ x y, True → s.parent? x = some y → y.index < x.index ∧ True :=
    fun x y _ e => ⟨r.earlier x y e, trivial⟩
  rw [← r.parent]
  exact walk_chain down _ g trivial (Nat.lt_succ_self _)

theorem Records.lookup?_eq (g : FrameId) (m : String) :
    s.lookup? g m = (s.scopes g).findSome? (lastSet calls · m) := by
  simp only [lookup?, r.locals]

theorem Records.nodup (g : FrameId) : (s.scopes g).Nodup := by
  have down : ∀ x y, True → parentIn calls x = some y → y.index < x.index ∧ True :=
    fun x y _ e => ⟨r.earlier x y (r.parent ▸ e), trivial⟩
  exact (r.walk g).nodup down trivial

/-- A frame is uncovered if it answers first once the name is set in it. -/
theorem Records.uncovered_iff (hf : s.HasFrame f) (n : String) (v : Value) (g : FrameId) :
    Uncovered calls f n g ↔
      (s.scopes g).find? (fun h => (((s.setLocal f n v).frame h).locals.get? n).isSome) =
        some f := by
  rw [List.find?_eq_some_iff_append]
  constructor
  · rintro ⟨before, after, w, free⟩
    have way := (r.walk g).unique w
    -- The way out visits nothing twice, so the frames in front of `f` are others.
    have once := way ▸ r.nodup g
    refine ⟨by simp [get?_setLocal hf], before, after, way, fun h hh => ?_⟩
    have other : h ≠ f := (List.nodup_append.mp once).2.2 h hh f List.mem_cons_self
    simp [get?_setLocal hf, other, r.locals, free h hh]
  · rintro ⟨-, before, after, way, free⟩
    refine ⟨before, after, way ▸ r.walk g, fun h hh => ?_⟩
    have unset := free h hh
    by_cases e : h = f
    · simp [get?_setLocal hf, e] at unset
    · simpa [get?_setLocal hf, e, r.locals] using unset

theorem Records.lookup?_setLocal (hf : s.HasFrame f) (n : String) (v : Value) (g : FrameId) :
    (Uncovered calls f n g → (s.setLocal f n v).lookup? g n = some v) ∧
    (¬ Uncovered calls f n g → (s.setLocal f n v).lookup? g n = s.lookup? g n) ∧
    ∀ m, m ≠ n → (s.setLocal f n v).lookup? g m = s.lookup? g m := by
  have scopes : (s.setLocal f n v).scopes g = s.scopes g :=
    congrArg (chain · (g.index + 1) g) (parent?_setLocal f n v)
  have slot : ∀ h, ((s.setLocal f n v).frame h).locals.get? n =
      if h = f then some v else (s.frame h).locals.get? n := by
    simp [get?_setLocal hf]
  have read := findSome?_of_slot slot (s.scopes g)
  rw [← scopes] at read
  refine ⟨fun u => ?_, fun u => ?_, fun m e => ?_⟩
  · rw [lookup?, read, scopes, if_pos ((r.uncovered_iff hf n v g).mp u)]
  · rw [lookup?, read, scopes, if_neg fun first => u ((r.uncovered_iff hf n v g).mpr first)]
    rfl
  · simp [lookup?, scopes, get?_setLocal hf, e]

/-- The name is bound as seen from a frame if it, or one around it, has ever set the name. -/
theorem Records.binds_iff (g : FrameId) (m : String) :
    s.binds g m ↔ ∃ l, Walk (parentIn calls) g l ∧ ∃ f ∈ l, (lastSet calls f m).isSome := by
  rw [binds, r.lookup?_eq, List.findSome?_isSome_iff]
  constructor
  · intro set
    exact ⟨_, r.walk g, set⟩
  · rintro ⟨l, w, set⟩
    rwa [(r.walk g).unique w]

theorem Records.root_last (g : FrameId) :
    ∃ l, Walk (parentIn calls) g l ∧ l.getLast? = some (s.root g) := by
  refine ⟨_, r.walk g, ?_⟩
  rw [root_eq_outermost]
  exact getLast?_chain s g.index g

end

end Store

open Store

/-! ## Every scope tree -/

/-- After any calls from the beginning: a lookup finds what was last set for the name in the
nearest frame that ever set it, and the two ways to the outermost frame come to the end of the
same walk. A further binding is seen from the frames that it is uncovered for, under its name
alone, and changes nothing else. What a frame has taken over from the frame around it, it keeps. -/
theorem scope_tree {s₀ s : Store} {calls : List ScopeCall} (start : s₀.frames = #[])
    (h : Lead s₀ calls s) :
    (∀ g m, Search (parentIn calls) (lastSet calls · m) g (s.lookup? g m) ∧
      s.binds g m = (s.lookup? g m).isSome ∧
      (s.binds g m ↔ ∃ l, Walk (parentIn calls) g l ∧ ∃ f ∈ l, (lastSet calls f m).isSome)) ∧
    (∀ g, s.root g = s.outermost g ∧
      ∃ l, Walk (parentIn calls) g l ∧ l.getLast? = some (s.root g)) ∧
    (∀ f n v, s.HasFrame f → ∀ g,
      (Uncovered calls f n g → (s.setLocal f n v).lookup? g n = some v) ∧
      ∀ m, (s.setLocal f n v).lookup? g m ≠ s.lookup? g m →
        m = n ∧ Uncovered calls f n g ∧ (s.setLocal f n v).lookup? g m = some v) ∧
    ∀ p, s.HasFrame p → ∀ later t, Lead ((inherit p).run s) later t →
      (s.frame p).Keeps (t.frame p) ∧ (t.frame ⟨made calls⟩).parent = some p ∧
      (t.frame ⟨made calls⟩).self = (t.frame p).self ∧
      (t.frame ⟨made calls⟩).enclosing = (t.frame p).enclosing := by
  have r := records_of_lead start h
  refine ⟨fun g m => ⟨?_, rfl, r.binds_iff g m⟩, fun g => ⟨root_eq_outermost s g, r.root_last g⟩,
    fun f n v hf g => ?_, fun p hp later t lead => ?_⟩
  · rw [r.lookup?_eq]
    exact (r.walk g).search _
  · obtain ⟨seen, unseen, other⟩ := r.lookup?_setLocal hf n v g
    refine ⟨seen, fun m changed => ?_⟩
    by_cases e : m = n
    · subst e
      have u : Uncovered calls f m g := by_contra fun u => changed (unseen u)
      exact ⟨rfl, u, seen u⟩
    · exact absurd (other m e) changed
  · have grows := grows_of_lead lead
    have keeps : (s.frame p).Keeps (t.frame p) := ((s.grows_addFrame _).trans grows).frame hp
    have kept := grows.frame (f := ⟨made calls⟩)
      (by simp [HasFrame, ScopeCall.run, enterScope, Store.addFrame, r.size])
    rw [ScopeCall.run, enterScope, frame_addFrame, if_pos r.size.symm] at kept
    exact ⟨keeps, kept.parent, kept.self.trans keeps.self.symm,
      kept.enclosing.trans keeps.enclosing.symm⟩

/-- A late binding in the outermost frame is seen from the frame inside of it. -/
theorem scope_tree_late_binding :
    ∃ calls s, Store.empty.frames = #[] ∧ Lead .empty calls s ∧ s.HasFrame ⟨0⟩ ∧
      s.lookup? ⟨1⟩ "a" = none ∧ (s.setLocal ⟨0⟩ "a" .nil).lookup? ⟨1⟩ "a" = some .nil := by
  have outer : Lead .empty [.new] _ := .call .nil nofun
  have inner : Lead .empty [inherit ⟨0⟩, .new] _ :=
    outer.call (by rintro _ ⟨⟩; exact Nat.one_pos)
  have has : HasFrame ((inherit ⟨0⟩).run (ScopeCall.new.run .empty)) ⟨0⟩ := Nat.two_pos
  have walk : Walk (parentIn [inherit ⟨0⟩, .new]) ⟨1⟩ ([⟨1⟩] ++ ⟨0⟩ :: []) :=
    .step rfl (.stop rfl)
  obtain ⟨_, _, writes, _⟩ := scope_tree rfl inner
  refine ⟨_, _, rfl, inner, has, rfl, (writes ⟨0⟩ "a" .nil has ⟨1⟩).1 ⟨_, _, walk, ?_⟩⟩
  exact List.forall_mem_singleton.mpr rfl

end ObjectLang
