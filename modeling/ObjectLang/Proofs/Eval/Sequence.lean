import ObjectLang.Eval.Outcome

/-!
# Steps in sequence

What a sequence of two steps does follows from where the first one leads: the second goes on behind
a value, and nothing comes behind a fault or a crash.
-/

namespace ObjectLang.Eval

variable {α β : Type} {x y : Eval α} {k l : α → Eval β} {s s' : Store}

theorem bind_of_value {a : α} (h : x s = .value a s') : (x >>= k) s = k a s' := by
  change Eval.bind x k s = _
  rw [Eval.bind, h]

theorem bind_of_fault {f : Fault} (h : x s = .fault f s') : (x >>= k) s = .fault f s' := by
  change Eval.bind x k s = _
  rw [Eval.bind, h]

theorem bind_of_unfinished {halt : Halt} (h : x s = @Outcome.unfinished α halt) :
    (x >>= k) s = @Outcome.unfinished β halt := by
  change Eval.bind x k s = _
  rw [Eval.bind, h]

/-- A sequence with a value has one behind its first step too. -/
theorem value_of_bind {b : β} (h : (x >>= k) s = .value b s') :
    ∃ a s₁, x s = .value a s₁ ∧ k a s₁ = .value b s' := by
  cases first : x s with
  | value a s₁ => exact ⟨a, s₁, rfl, (bind_of_value first).symm.trans h⟩
  | fault f s₁ => cases (bind_of_fault first).symm.trans h
  | unfinished => cases (bind_of_unfinished first).symm.trans h

theorem bind_of_read {g : Store → α} {a : α} (h : g s = a) : (read g >>= k) s = k a s := by
  subst h
  rfl

/-- Steps in sequence agree if they do so wherever the first one leads. -/
theorem bind_agree (h : x s = y s) (hk : ∀ a s', y s = .value a s' → k a s' = l a s') :
    (x >>= k) s = (y >>= l) s := by
  cases e : y s with
  | value a s' => rw [bind_of_value (h.trans e), bind_of_value e, hk a s' e]
  | fault f s' => rw [bind_of_fault (h.trans e), bind_of_fault e]
  | unfinished => rw [bind_of_unfinished (h.trans e), bind_of_unfinished e]

/-- Steps that begin with readings agree if the readings do and if they go on in the same way. -/
theorem read_bind_agree {g h : Store → α} (e : g s = h s) (hk : ∀ a, k a s = l a s) :
    (read g >>= k) s = (read h >>= l) s := by
  change k (g s) s = l (h s) s
  rw [e]
  exact hk _

end ObjectLang.Eval
