import ObjectLang.Proofs.Eval.Preserve
import ObjectLang.Proofs.Store.Core

/-!
# Frame isolation

Assignments, loops, method definitions and parameters write locals of the frame
that they are evaluated in. A call, a body and a block run in a frame of their
own, so none of them changes a local of the caller or of the frame that a block
was written in. Only definitions of classes and modules reach further: they bind
names in the outermost frame.
-/

namespace ObjectLang

open Store Eval

/-- The step ends, with a value or with a fault, and leaves the store `s`. -/
def Outcome.EndsIn {α : Type} : Outcome α → Store → Prop
  | value _ s', s | fault _ s', s => s' = s
  | unfinished, _ => False

theorem Eval.Does.effect {α : Type} {W : FrameId → Prop} {s s' : Store} {x : Eval α}
    {Q : α → Store → Prop} (hx : Does W s x Q) (ends : (x s).EndsIn s') : Effect W s s' := by
  unfold Does at hx
  cases e : x s with
  | value a t => rw [e] at hx ends; exact ends ▸ hx.1
  | fault f t => rw [e] at hx ends; exact ends ▸ hx
  | unfinished => rw [e] at ends; exact ends.elim

theorem performer_endsIn {t : Task} {s s' : Store} (fuel : Nat)
    (ends : (perform fuel t s).EndsIn s') : (performer t s).EndsIn s' := by
  have fin : (perform fuel t s).isFinal = true := by
    cases e : perform fuel t s with
    | value a u => rfl
    | fault f u => rfl
    | unfinished => rw [e] at ends; exact ends.elim
  rw [(performer_eq_iff t s fin).mpr ⟨fuel, rfl⟩]
  exact ends

namespace Store

def KeepsLocals (s s' : Store) (f : FrameId) : Prop :=
  (s'.frame f).locals = (s.frame f).locals

/-- Each binding of the outermost frame is as it was, or leads to a new class or module that is
defined at the top level under this name. -/
def OnlyRegisters (s s' : Store) : Prop :=
  ∀ n, (s'.frame Machine.root).locals.get? n = (s.frame Machine.root).locals.get? n ∨
    ∃ c, (s'.frame Machine.root).locals.get? n = some (.cls c) ∧ s.Registers s' n c

end Store

/-! ## A store with a scope and a block in it -/

/-- A new machine in which a scope inside the outermost one holds a block. -/
def scopeStore : Store :=
  ((coreStore.addFrame ⟨some Machine.root, .empty, none, none⟩).2.addBlock
    ⟨["x"], .assign "x" (.literal .nil), ⟨1⟩⟩).2

theorem scopeStore_sound : scopeStore.Sound := by
  have inner : coreStore.FrameSound 1 ⟨some Machine.root, .empty, none, none⟩ :=
    ⟨Nat.one_pos, Table.forall_empty _, nofun, nofun⟩
  have e := effect_addFrame (W := fun _ => False) (core_sound .usual coreStore.output) inner
  exact (effect_addBlock (W := fun _ => False) e.sound (b := ⟨["x"], _, ⟨1⟩⟩)
    (Nat.lt_succ_self 1)).sound

/-! ## Isolation -/

/-- In a sound store, evaluation in `f` changes no locals of a frame that was there besides `f`
and the outermost one, and in the outermost one, unless it is `f`, only names of new classes and
modules. A call from `f` and a run of a block change no others even in `f` itself and in the
frame of the block. -/
theorem frame_isolation {s : Store} (h : s.Sound) {f : FrameId} (hf : s.HasFrame f) :
    (∀ e s', (eval f e s).EndsIn s' →
      (∀ g, s.HasFrame g → g ≠ f → g ≠ Machine.root → s.KeepsLocals s' g) ∧
      (f ≠ Machine.root → s.OnlyRegisters s')) ∧
    (∀ m receiver args s', s.MayRun m receiver → (∀ v, receiver = some v → s.Knows v) →
      (∀ v ∈ args, s.Knows v) → (performer (.invoke f m receiver args) s).EndsIn s' →
      (∀ g, s.HasFrame g → g ≠ Machine.root → s.KeepsLocals s' g) ∧ s.OnlyRegisters s') ∧
    (∀ p args s', (∀ v ∈ args, s.Knows v) → (callBlock performer p args s).EndsIn s' →
      (∀ g, s.HasFrame g → g ≠ Machine.root → s.KeepsLocals s' g) ∧ s.OnlyRegisters s') := by
  refine ⟨fun e s' ends => ?_, fun m receiver args s' hm hv ha ends => ?_,
    fun p args s' ha ends => ?_⟩
  · have effect := (performer_sound.expr e h hf).effect ends
    exact ⟨fun g hg hgf hr => effect.locals g hg hr hgf, fun hfr => effect.registers (Ne.symm hfr)⟩
  · have effect := (performer_sound.invoke h hf hm hv ha).effect ends
    exact ⟨fun g hg hr => effect.locals g hg hr nofun, effect.registers nofun⟩
  · have effect := (does_callBlock (W := fun _ => False) performer_sound h p ha).effect ends
    exact ⟨fun g hg hr => effect.locals g hg hr nofun, effect.registers nofun⟩

/-- A scope keeps its locals when its own name is assigned in a block. -/
theorem frame_isolation_scope :
    scopeStore.Sound ∧ scopeStore.HasFrame ⟨1⟩ ∧ ∃ s₁ s₂ s₃,
      (eval ⟨1⟩ (.assign "x" (.literal .nil)) scopeStore).EndsIn s₁ ∧
        scopeStore.OnlyRegisters s₁ ∧
      (performer (.invoke ⟨1⟩ .puts none []) scopeStore).EndsIn s₂ ∧
        scopeStore.KeepsLocals s₂ ⟨1⟩ ∧
      (callBlock performer ⟨0⟩ [] scopeStore).EndsIn s₃ ∧ scopeStore.KeepsLocals s₃ ⟨1⟩ := by
  have has : scopeStore.HasFrame ⟨1⟩ := Nat.lt_succ_self 1
  obtain ⟨evaluation, call, block⟩ := frame_isolation scopeStore_sound has
  have ends₁ : (eval ⟨1⟩ (.assign "x" (.literal .nil)) scopeStore).EndsIn _ :=
    performer_endsIn 2 rfl
  have ends₂ : (performer (.invoke ⟨1⟩ .puts none []) scopeStore).EndsIn _ :=
    performer_endsIn 1 rfl
  have ends₃ : (callBlock performer ⟨0⟩ [] scopeStore).EndsIn _ :=
    performer_endsIn (t := .expr ⟨2⟩ (.assign "x" (.literal .nil))) 2 rfl
  refine ⟨scopeStore_sound, has, _, _, _, ends₁, (evaluation _ _ ends₁).2 (by decide), ends₂,
    (call .puts none [] _ (.inl trivial) nofun nofun ends₂).1 _ has (by decide), ends₃,
    (block ⟨0⟩ [] _ nofun ends₃).1 _ has (by decide)⟩

end ObjectLang
