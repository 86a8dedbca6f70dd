import ObjectLang.Proofs.Eval.Monotone
import ObjectLang.Proofs.Execute

/-!
# What has been printed before

A run never looks at the text that has been printed before it, and only adds to it. So taking the
text away between two runs changes nothing but the text.
-/

namespace ObjectLang

open Eval

/-- The store with more text printed before. -/
def Store.after (pre : String) (s : Store) : Store :=
  s.withOutput ⟨pre ++ s.output.text, s.output.closed⟩

theorem Store.after_empty (s : Store) : s.after "" = s := by
  unfold Store.after Store.withOutput
  rw [String.empty_append]

theorem Store.after_print (pre : String) (s : Store) (text : String) :
    (s.after pre).print text = (s.print text).after pre := by
  unfold Store.after Store.print Store.withOutput
  rw [String.append_assoc]

namespace Outcome

variable {α : Type}

def after (pre : String) : Outcome α → Outcome α
  | value a s => .value a (s.after pre)
  | fault f s => .fault f (s.after pre)
  | @unfinished _ halt => @unfinished _ (halt.map (·.after pre))

theorem after_empty (o : Outcome α) : o.after "" = o := by
  cases o with
  | value a s | fault f s => simp only [after, Store.after_empty]
  | @unfinished halt => simp only [after, Store.after_empty, Halt.map_id']

@[simp] theorem isFinal_after (pre : String) (o : Outcome α) :
    (o.after pre).isFinal = o.isFinal := by
  cases o with
  | value a s | fault f s => rfl
  | @unfinished halt => cases halt <;> rfl

end Outcome

/-! ## Steps behind different texts -/

namespace Eval

variable {α β : Type} {pre pre' : String}

/-- Where the outcome of `x` behind `pre` is final, `y` has the same one behind `pre'`. -/
def Behind (pre pre' : String) (x y : Eval α) : Prop :=
  ∀ s : Store, x (s.after pre) = .endless ∨
    ∃ o : Outcome α, x (s.after pre) = o.after pre ∧ y (s.after pre') = o.after pre'

/-- A step that does the same behind every text. -/
theorem behind_self {x : Eval α} (h : ∀ pre s, x (s.after pre) = (x s).after pre) :
    Behind pre pre' x x :=
  fun s => .inr ⟨x s, h pre s, h pre' s⟩

theorem Behind.bind {x y : Eval α} {k l : α → Eval β} (h : Behind pre pre' x y)
    (hk : ∀ a, Behind pre pre' (k a) (l a)) : Behind pre pre' (x >>= k) (y >>= l) := by
  intro s
  change Eval.bind x k _ = _ ∨ ∃ o : Outcome β, Eval.bind x k _ = _ ∧ Eval.bind y l _ = _
  unfold Eval.bind
  rcases h s with e | ⟨o, hx, hy⟩
  · rw [e]
    exact .inl rfl
  · rw [hx, hy]
    cases o with
    | value a s' => exact hk a s'
    | fault f s' => exact .inr ⟨.fault f s', rfl, rfl⟩
    | @unfinished halt => exact .inr ⟨@Outcome.unfinished _ halt, rfl, rfl⟩

theorem change_after {g : Store → Store} (h : ∀ s o, g (s.withOutput o) = (g s).withOutput o)
    (pre : String) (s : Store) : g (s.after pre) = (g s).after pre := by
  have kept : (g s).output = s.output := (congrArg Store.output (h s s.output) :)
  rw [Store.after, Store.after, h, kept]

theorem puts_after (args : List Value) (pre : String) (s : Store) :
    puts args (s.after pre) = (puts args s).after pre := by
  have run (s : Store) : puts args s = if s.output.closed then .fault (.stream .brokenPipe) s
      else .value .nil (s.print (s.putsText args)) := by
    change (if s.output.closed then fail (.stream .brokenPipe) else _ : Eval Value) s = _
    cases s.output.closed <;> rfl
  have text : (s.after pre).putsText args = s.putsText args := by
    rw [Store.after, Store.putsText_withOutput]
  rw [run, run, text, Store.after_print]
  change (if s.output.closed then _ else _) = _
  cases s.output.closed <;> rfl

theorem behind_congruence (pre pre' : String) : Congruence (Behind pre pre') where
  endless _ := fun _ => .inl rfl
  pure a := behind_self fun _ _ => rfl
  fail f := behind_self fun _ _ => rfl
  crash := behind_self fun _ _ => rfl
  bind := Behind.bind
  read h := behind_self fun _ s => congrArg (Outcome.value · _) (h s _)
  change h := behind_self fun pre s => congrArg (Outcome.value ()) (change_after h pre s)
  add {_ g} h := behind_self fun pre s => by
    have kept : (g s).2.output = s.output := congrArg (·.2.output) (h s s.output)
    change Outcome.value (g (s.after pre)).1 (g (s.after pre)).2 =
      (Outcome.value (g s).1 (g s).2).after pre
    rw [Store.after, h, Outcome.after, Store.after, kept]
  puts args := behind_self (puts_after args)

end Eval

/-! ## Runs behind a text -/

theorem performer_behind {pre : String} (pre' : String) {t : Task} {s : Store}
    (fin : (performer t (s.after pre)).isFinal = true) :
    ∃ o : Outcome Value, performer t (s.after pre) = o.after pre ∧
      performer t (s.after pre') = o.after pre' := by
  obtain ⟨fuel, run⟩ := (performer_eq_iff t _ fin).mp rfl
  -- Under a bound the two runs are related by the rules. Both come from one outcome.
  rcases perform_related (behind_congruence pre pre') (Nat.le_refl fuel) t s with e | ⟨o, hx, hy⟩
  · rw [← run, e] at fin
    cases fin
  · rw [run] at hx
    rw [hx, Outcome.isFinal_after] at fin
    exact ⟨o, hx, (performer_eq_iff t _ (by rwa [Outcome.isFinal_after])).mpr ⟨fuel, hy⟩⟩

theorem performer_after (t : Task) (pre : String) (s : Store) :
    performer t (s.after pre) = (performer t s).after pre := by
  have alone : performer t (s.after "") = performer t s := by rw [s.after_empty]
  have both : (performer t s).isFinal = true ∨ (performer t (s.after pre)).isFinal = true →
      performer t (s.after pre) = (performer t s).after pre := by
    intro fin
    -- Whichever run finishes is compared with the other one.
    have run : ∃ o : Outcome Value, performer t (s.after "") = o.after "" ∧
        performer t (s.after pre) = o.after pre := by
      rcases fin with fin | fin
      · exact performer_behind pre (by rwa [alone])
      · obtain ⟨o, run, first⟩ := performer_behind "" fin
        exact ⟨o, first, run⟩
    obtain ⟨o, first, run⟩ := run
    rw [run, ← alone, first, Outcome.after_empty]
  by_cases fin : (performer t s).isFinal = true ∨ (performer t (s.after pre)).isFinal = true
  · exact both fin
  · rw [eq_endless fun h => fin (.inr h), eq_endless fun h => fin (.inl h)]
    rfl

theorem release_after (f : FrameId) (kept : List Value) (pre : String) (s : Store) :
    (s.after pre).release f kept = (s.release f kept).after pre :=
  change_after (g := fun s => s.release f kept) (fun s o => s.release_withOutput o f kept) pre s

theorem commandsFrom_after (f : FrameId) (last : Value) (commands : List Expr) (pre : String)
    (s : Store) :
    commandsFrom performer f last commands (s.after pre) =
      (commandsFrom performer f last commands s).after pre := by
  induction commands generalizing last s with
  | nil => rfl
  | cons c cs ih =>
    change Eval.bind (performer (.expr f c)) _ (s.after pre) =
      (Eval.bind (performer (.expr f c)) _ s).after pre
    unfold Eval.bind
    rw [performer_after]
    cases performer (.expr f c) s with
    | value v s' =>
      have next := ih v (s'.release f [v])
      rw [← release_after] at next
      exact next
    | fault fault s' => rfl
    | unfinished => rfl

theorem evalProgram_after (f : FrameId) (commands : List Expr) (pre : String) (s : Store) :
    evalProgram f commands (s.after pre) = (evalProgram f commands s).after pre := by
  rw [evalProgram_eq, evalProgram_eq, release_after, commandsFrom_after]

/-! ## Machines -/

/-- The machine with more text printed before. -/
def Machine.after (pre : String) (m : Machine) : Machine :=
  ⟨m.store.after pre⟩

def Execution.after (pre : String) : Execution → Execution
  | value v m => .value v (m.after pre)
  | failure e m => .failure e (m.after pre)
  | @unfinished halt => @unfinished (halt.map (·.after pre))

section
variable {x : Execution} {pre : String} {m : Machine}

theorem Execution.after_eq_value {v : Value} (h : x.after pre = .value v m) :
    ∃ m', x = .value v m' ∧ m = m'.after pre := by
  cases x with
  | value w m' => cases h; exact ⟨m', rfl, rfl⟩
  | failure e m' => cases h
  | unfinished => cases h

theorem Execution.after_eq_failure {e : Failure} (h : x.after pre = .failure e m) :
    ∃ m', x = .failure e m' ∧ m = m'.after pre := by
  cases x with
  | value w m' => cases h
  | failure e' m' => cases h; exact ⟨m', rfl, rfl⟩
  | unfinished => cases h

end

theorem perform_after {x : Eval Value} {pre : String} {m : Machine}
    (h : x (m.store.after pre) = (x m.store).after pre) :
    (m.after pre).perform x = (m.perform x).after pre := by
  unfold Machine.perform
  rw [Machine.after, h]
  cases x m.store <;> rfl

theorem execute_after (pre : String) (m : Machine) (text : String) :
    (m.after pre).execute text = (m.execute text).after pre := by
  rcases parseProgram_finishes text with ⟨commands, rest, h⟩ | ⟨e, rest, h⟩
  · rw [execute_of_parse h, execute_of_parse h]
    exact perform_after (evalProgram_after _ _ _ _)
  · rw [execute_of_error h, execute_of_error h]
    rfl

/-- A machine is the one without its output, behind what it has printed. -/
theorem takeOutput_after (m : Machine) : m.takeOutput.2.after m.takeOutput.1 = m := by
  change (⟨m.store.withOutput ⟨m.store.output.text ++ "", m.store.output.closed⟩⟩ : Machine) = m
  rw [String.append_empty]
  rfl

/-- What has been printed can be taken away before a run. -/
theorem execute_takeOutput (m : Machine) (text : String) :
    m.execute text = (m.takeOutput.2.execute text).after m.takeOutput.1 := by
  rw [← execute_after, takeOutput_after]

end ObjectLang
