import ObjectLang.Proofs.ObjectGraph

/-!
# Stores on the way of a run

A run passes through stores that it does not end in. If it is broken off with a fault where a
nested task begins, it ends there; so the stores on the way are those that runs end in which may be
broken off anywhere.
-/

namespace ObjectLang

open Store Eval

namespace Performer

/-- One level of a task, given a way to carry out what is nested. -/
def level (r : Performer) (fuel : Nat) : Performer
  | .expr f e => evalExpr r fuel f e
  | .invoke f m receiver args => invoke r f m receiver args

/-- Carries out tasks as the evaluator does, or breaks them off: at once or somewhere inside. -/
inductive Interrupted : Performer → Prop where
  | whole (fuel : Nat) : Interrupted (perform fuel)
  | broken {r r' : Performer} : Interrupted r →
      (∀ t s, (∃ fuel, r' t s = perform fuel t s) ∨ (∃ fault, r' t s = .fault fault s) ∨
        ∃ fuel, r' t s = r.level fuel t s) → Interrupted r'

end Performer

theorem Eval.Does.of_eq {α : Type} {W : FrameId → Prop} {s : Store} {x y : Eval α}
    {Q : α → Store → Prop} (hy : Does W s y Q) (e : x s = y s) : Does W s x Q := by
  unfold Does at hy ⊢
  rw [e]
  exact hy

theorem Performer.Interrupted.sound {r : Performer} (h : r.Interrupted) : r.Sound := by
  induction h with
  | whole fuel => exact perform_sound fuel
  | broken _ parts ih =>
    constructor
    · intro s f e hs hf
      rcases parts (.expr f e) s with ⟨fuel, same⟩ | ⟨fault, same⟩ | ⟨fuel, same⟩
      · exact ((perform_sound fuel).expr e hs hf).of_eq same
      · exact (does_fail hs fault).of_eq same
      · exact (does_evalExpr ih (W := (· = f)) rfl hs hf fuel e).of_eq same
    · intro s f m receiver args hs hf hm hv ha
      rcases parts (.invoke f m receiver args) s with ⟨fuel, same⟩ | ⟨fault, same⟩ | ⟨fuel, same⟩
      · exact ((perform_sound fuel).invoke hs hf hm hv ha).of_eq same
      · exact (does_fail hs fault).of_eq same
      · exact (does_invoke ih hs hf hm hv ha).of_eq same

/-! ## Visited stores -/

namespace Store

/-- The store of a new machine, and what evaluations in any frame there is pass through and end
in. Between them, classes and modules may be let go. -/
inductive Visited : Store → Prop where
  | start (r : Runtime) (output : Output) : Visited (coreStoreOn r output)
  | step {s s' : Store} {f : FrameId} {e : Expr} {r : Performer} {fuel : Nat} : Visited s →
      s.HasFrame f → r.Interrupted → (evalExpr r fuel f e s).EndsIn s' → Visited s'
  | release {s : Store} (f : FrameId) (kept : List Value) : Visited s → Visited (s.release f kept)

/-- Every store on the way of a run is sound and has grown out of that of a new machine. -/
theorem Visited.invariant {s : Store} (h : s.Visited) :
    s.Sound ∧ ∃ r output, (coreStoreOn r output).Grows s := by
  induction h with
  | start r output => exact ⟨core_sound r output, r, output, .refl _⟩
  | @step s s' f e r fuel _ hf hr ends ih =>
    obtain ⟨sound, host, output, g⟩ := ih
    have effect := (does_evalExpr hr.sound (W := (· = f)) rfl sound hf fuel e).effect ends
    exact ⟨effect.sound, host, output, g.trans effect.grows⟩
  | @release s f kept _ ih =>
    obtain ⟨sound, host, output, g⟩ := ih
    have effect := effect_release (W := (· = f)) sound f kept
    exact ⟨effect.sound, host, output, g.trans effect.grows⟩

theorem Visited.sound {s : Store} (h : s.Visited) : s.Sound :=
  h.invariant.1

theorem Visited.hasObjectClass {s : Store} (h : s.Visited) : s.HasClass objectClass :=
  have ⟨_, _, _, g⟩ := h.invariant
  g.hasClass (by decide : 0 < 14)

end Store

end ObjectLang
