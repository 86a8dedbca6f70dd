import ObjectLang.Proofs.Eval.Monotone
import ObjectLang.Proofs.Parse.Program
import ObjectLang.Proofs.Store.Release

/-!
# Programs and their runs

A run of a text is a run of its commands, in order, and between them classes and modules are let go
that nothing holds. A text that does not parse leaves the machine as it is.
-/

namespace ObjectLang

open Store Eval

section
variable {m m' : Machine} {text : String} {commands : List Expr} {rest : Parser} {e : SyntaxError}

theorem execute_of_parse (h : parseProgram text = .ok commands rest) :
    m.execute text = m.perform (evalProgram Machine.root commands) := by
  unfold Machine.execute Machine.executeBy
  simp only [h]

theorem execute_of_error (h : parseProgram text = .error e rest) :
    m.execute text = .failure (.source e) m := by
  unfold Machine.execute Machine.executeBy
  simp only [h]

theorem evalProgram_eq (f : FrameId) (commands : List Expr) (s : Store) :
    evalProgram f commands s = commandsFrom performer f .nil commands (s.release f []) :=
  rfl

theorem execute_of_value {c : Expr} {v : Value} {s : Store} (h : parseProgram text = .ok [c] rest)
    (run : performer (.expr Machine.root c) (m.store.release Machine.root []) = .value v s) :
    m.execute text = .value v ⟨s.release Machine.root [v]⟩ := by
  have alone : commandsFrom performer Machine.root .nil [c] (m.store.release Machine.root []) =
      .value v (s.release Machine.root [v]) := bind_of_value run
  rw [execute_of_parse h, Machine.perform, evalProgram_eq, alone]

/-- A command that can be carried out under some bound. There is nothing to let go before it and
behind it. -/
theorem execute_of_command (fuel : Nat) {c : Expr} {v : Value} {s : Store}
    (h : parseProgram text = .ok [c] rest) (start : m.store.release Machine.root [] = m.store)
    (run : perform fuel (.expr Machine.root c) m.store = .value v s)
    (done : s.release Machine.root [v] = s) : m.execute text = .value v ⟨s⟩ := by
  have ends := (performer_eq_iff _ _ rfl).mpr ⟨fuel, run⟩
  rw [execute_of_value h (start.symm ▸ ends), done]

theorem execute_of_fault (fuel : Nat) {c : Expr} {f : Fault} {s : Store}
    (h : parseProgram text = .ok [c] rest) (start : m.store.release Machine.root [] = m.store)
    (run : perform fuel (.expr Machine.root c) m.store = .fault f s) :
    m.execute text = .failure (.run f) ⟨s⟩ := by
  have ends := (performer_eq_iff _ _ rfl).mpr ⟨fuel, run⟩
  have alone : commandsFrom performer Machine.root .nil [c] m.store = .fault f s :=
    bind_of_fault ends
  rw [execute_of_parse h, Machine.perform, evalProgram_eq, start, alone]

theorem perform_ne_source {x : Eval Value} : m.perform x ≠ .failure (.source e) m' := by
  unfold Machine.perform
  split <;> exact nofun

/-- A syntax error is one of the text, whatever the machine is like. -/
theorem parse_of_execute (h : m.execute text = .failure (.source e) m') :
    (∃ rest, parseProgram text = .error e rest) ∧ m' = m := by
  rcases parseProgram_finishes text with ⟨commands, rest, hp⟩ | ⟨e', rest, hp⟩
  · rw [execute_of_parse hp] at h
    exact absurd h perform_ne_source
  · rw [execute_of_error hp] at h
    cases h
    exact ⟨⟨rest, hp⟩, rfl⟩

theorem parse_of_value {v : Value} (h : m.execute text = .value v m') :
    ∃ commands rest, parseProgram text = .ok commands rest := by
  refine (parseProgram_finishes text).resolve_right fun ⟨e, rest, he⟩ => ?_
  rw [execute_of_error he] at h
  cases h

end

theorem parse_empty : ∃ rest, parseProgram "" = .ok [] rest :=
  gives_iff_ok.mp (Parser.gives_end (p := .ofString "") rfl)

/-! ## Commands in order -/

section
variable {f : FrameId}

theorem commandsFrom_append : ∀ (last : Value) (cs ds : List Expr),
    commandsFrom performer f last (cs ++ ds) =
      commandsFrom performer f last cs >>= fun v => commandsFrom performer f v ds
  | _, [], _ => rfl
  | last, c :: cs, ds => by
    have rest := fun v => commandsFrom_append v cs ds
    funext s
    change Eval.bind (performer (.expr f c)) _ s =
      Eval.bind (Eval.bind (performer (.expr f c)) _) _ s
    unfold Eval.bind
    cases performer (.expr f c) s with
    | value v s' => exact congrFun (rest v) (s'.release f [v])
    | fault fault s' => rfl
    | unfinished => rfl

theorem evalProgram_append (cs ds : List Expr) :
    evalProgram f (cs ++ ds) = evalProgram f cs >>= fun v => commandsFrom performer f v ds := by
  funext s
  rw [evalProgram_eq, commandsFrom_append]
  rfl

/-- The value before the first command is of no use. -/
theorem commandsFrom_any {cs : List Expr} (h : cs ≠ []) (last last' : Value) :
    commandsFrom performer f last cs = commandsFrom performer f last' cs := by
  cases cs with
  | nil => exact absurd rfl h
  | cons c cs => rfl

end

/-! ## What a value alone holds -/

/-- Nothing changes if the value of the last command is not in use any more. -/
def Machine.Settled (m : Machine) : Prop :=
  m.store.release Machine.root [] = m.store

section
variable {m m' : Machine} {text : String} {v : Value}

/-- The machine is settled if names of the outermost frame and what they lead to hold all classes
and modules that are there, and the same ones will go in the middle of the next command as if the
value were in use. -/
theorem Machine.settled_iff (hr : m.store.HasFrame root) : m.Settled ↔
    (∀ c, m.store.HasClass c → m.store.alive c = true → (m.store.cls c).kind ≠ .singleton →
      m.store.IsHeld [.frame root] (.cls c)) ∧
    m.store.memory.runtime.drops [] = m.store.memory.drops := by
  rw [Settled, release_eq_iff, List.eq_nil_iff_forall_not_mem, List.filterMap_nil]
  refine and_congr_left' (forall_congr' fun c => ?_)
  rw [mem_unheld hr, List.filterMap_nil]
  constructor
  · intro none has alive proper
    exact Classical.byContradiction fun unheld => none ⟨has, alive, proper, unheld⟩
  · rintro all ⟨has, alive, proper, unheld⟩
    exact unheld (all has alive proper)

/-- It makes no difference to a program whether the value of the one before is still in use. -/
theorem Machine.Settled.perform (settled : m.Settled) {q : List Expr} (hq : q ≠ []) :
    m.perform (commandsFrom performer root v q) = m.perform (evalProgram root q) := by
  unfold Machine.perform
  rw [evalProgram_eq, settled, commandsFrom_any hq v .nil]

/-- Without commands there is nothing to do, and nothing to let go. -/
theorem Machine.Settled.execute_nothing (settled : m.Settled) {rest : Parser}
    (h : parseProgram text = .ok [] rest) : m.execute text = .value .nil m := by
  rw [execute_of_parse h, Machine.perform, evalProgram_eq, settled]
  rfl

end

/-- The same halt, with the store as `g` makes it. -/
def Halt.map (g : Store → Store) : Halt → Halt
  | endless => endless
  | crash s => crash (g s)

theorem Halt.map_id' (halt : Halt) : halt.map (fun s => s) = halt := by
  cases halt <;> rfl

/-- Goes on after a value, on the machine that is left. -/
def Execution.andThen (x : Execution) (next : Value → Machine → Execution) : Execution :=
  match x with
  | .value v m => next v m
  | .failure e m => .failure e m
  | @Execution.unfinished halt => @Execution.unfinished halt

theorem perform_bind (m : Machine) (x : Eval Value) (k : Value → Eval Value) :
    m.perform (x >>= k) = (m.perform x).andThen fun v m' => m'.perform (k v) := by
  change m.perform (Eval.bind x k) = _
  unfold Machine.perform Eval.bind
  cases x m.store with
  | value v s => rfl
  | fault f s => rfl
  | unfinished => rfl

end ObjectLang
