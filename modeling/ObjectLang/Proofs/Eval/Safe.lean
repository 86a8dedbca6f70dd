import ObjectLang.Proofs.Eval.UpholdsRules
import ObjectLang.Proofs.Store.Placed

/-!
# Safe steps

A step is safe if it never ends in a fault of a malformed tree and leaves a store of well-placed
code whenever it starts in one. That is to uphold a policy, so every run is safe, and code that it
leaves behind for later is as well placed as the code that it ran.
-/

namespace ObjectLang

namespace Eval

variable {α : Type} {x : Eval α} {Q : α → Prop}

/-- Run on well-placed code, the step keeps it so and ends in no fault of a malformed tree, and
its value satisfies `Q`. -/
def Safe (x : Eval α) (Q : α → Prop) : Prop :=
  ∀ s, s.Placed →
    match x s with
    | .value a s' => s'.Placed ∧ Q a
    | .fault f s' => s'.Placed ∧ f.Sensible
    | .unfinished => True

/-- The step is safe, and code in its value is well placed too. -/
abbrev Gives (x : Eval Value) : Prop :=
  Safe x Value.Placed

theorem safe_iff : Safe x Q ↔ Upholds .placed x Q := by
  unfold Safe Upholds
  simp only [Store.placed_iff]
  rfl

theorem gives_iff {x : Eval Value} : Gives x ↔ Yields .placed x := by
  rw [Yields, Value.obeys_placed]
  exact safe_iff

end Eval

open Eval

theorem safe_evalProgram (f : FrameId) {commands : List Expr} (hc : ∀ e ∈ commands, e.Sound) :
    Gives (evalProgram f commands) :=
  gives_iff.mpr (upholds_evalProgram hc)

end ObjectLang
