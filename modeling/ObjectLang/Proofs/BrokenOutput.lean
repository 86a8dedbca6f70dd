import Mathlib
import ObjectLang.Proofs.Eval.Monotone
import ObjectLang.Proofs.Eval.Sequence
import ObjectLang.Proofs.Execute

/-!
# Runs with a broken output

Until something is printed, a run does the same whatever the output is like. So a run whose output
is broken comes as far as the first call of `puts` and ends there with the fault of that call,
however deep the call is nested. If there is no such call, it is the run with a working output.
-/

namespace ObjectLang

open Eval

/-- How far a run comes without printing: to its end, to a crash, or to a call of `puts`. -/
inductive Stop (α : Type) where
  | value (a : α) (s : Store)
  | fault (f : Fault) (s : Store)
  | crash (s : Store)
  | puts (args : List Value) (s : Store)

namespace Stop

variable {α : Type}

def store : Stop α → Store
  | value _ s | fault _ s | crash s | puts _ s => s

/-- The outcome of a run that comes to the stop with the output `o`. Nothing is said of what
follows a call of `puts` that prints. -/
def EndsOn (o : Output) : Stop α → Outcome α → Prop
  | value a s, r => r = .value a (s.withOutput o)
  | fault f s, r => r = .fault f (s.withOutput o)
  | crash s, r => r = .crash (s.withOutput o)
  | puts _ s, r => o.closed = true → r = .fault (.stream .brokenPipe) (s.withOutput o)

end Stop

/-! ## Runs up to the first call of `puts` -/

namespace Eval

/-- The step, run from the store, comes to the stop without having called `puts` before. A task
comes to the stop that it has under some bound: a larger one only lets it go on from there. -/
inductive Reaches : {α : Type} → Eval α → Store → Stop α → Prop where
  | pure {α : Type} (a : α) (s : Store) : Reaches (pure a) s (.value a s)
  | fail {α : Type} (f : Fault) (s : Store) : Reaches (fail f : Eval α) s (.fault f s)
  | crash {α : Type} (s : Store) : Reaches (crash : Eval α) s (.crash s)
  | read {α : Type} {g : Store → α} (h : ∀ s o, g (s.withOutput o) = g s) (s : Store) :
      Reaches (read g) s (.value (g s) s)
  | change {g : Store → Store} (h : ∀ s o, g (s.withOutput o) = (g s).withOutput o) (s : Store) :
      Reaches (change g) s (.value () (g s))
  | add {α : Type} {g : Store → α × Store}
      (h : ∀ s o, g (s.withOutput o) = ((g s).1, (g s).2.withOutput o)) (s : Store) :
      Reaches (add g) s (.value (g s).1 (g s).2)
  | puts (args : List Value) (s : Store) : Reaches (puts args) s (.puts args s)
  | next {α β : Type} {x : Eval α} {k : α → Eval β} {a : α} {s s' : Store} {stop : Stop β} :
      Reaches x s (.value a s') → Reaches (k a) s' stop → Reaches (x >>= k) s stop
  | fault {α β : Type} {x : Eval α} {k : α → Eval β} {f : Fault} {s s' : Store} :
      Reaches x s (.fault f s') → Reaches (x >>= k) s (.fault f s')
  | broken {α β : Type} {x : Eval α} {k : α → Eval β} {s s' : Store} :
      Reaches x s (.crash s') → Reaches (x >>= k) s (.crash s')
  | first {α β : Type} {x : Eval α} {k : α → Eval β} {args : List Value} {s s' : Store} :
      Reaches x s (.puts args s') → Reaches (x >>= k) s (.puts args s')
  | task {t : Task} {fuel : Nat} {s : Store} {stop : Stop Value} :
      Reaches (perform fuel t) s stop → Reaches (performer t) s stop

variable {α β : Type}

theorem puts_of_closed {s : Store} (closed : s.output.closed = true) (args : List Value) :
    puts args s = .fault (.stream .brokenPipe) s := by
  change (if s.output.closed then fail (.stream .brokenPipe) else _ : Eval Value) s = _
  rw [if_pos closed]
  rfl

theorem performer_of_perform {t : Task} {fuel : Nat} {s : Store} {o : Outcome Value}
    (fin : o.isFinal = true) (h : perform fuel t s = o) : performer t s = o :=
  (performer_eq_iff t s fin).mpr ⟨fuel, h⟩

theorem Reaches.endsOn {x : Eval α} {s : Store} {stop : Stop α} (h : x.Reaches s stop)
    (o : Output) : stop.EndsOn o (x (s.withOutput o)) := by
  induction h with
  | pure a s => rfl
  | fail f s => rfl
  | crash s => rfl
  | read h s => exact congrArg (Outcome.value · (s.withOutput o)) (h s o)
  | change h s => exact congrArg (Outcome.value ()) (h s o)
  | add h s => exact congrArg (fun p => Outcome.value p.1 p.2) (h s o)
  | puts args s => exact fun closed => puts_of_closed closed args
  | next _ _ hx hk =>
    rw [bind_of_value hx]
    exact hk
  | fault _ hx => exact bind_of_fault hx
  | broken _ hx => exact bind_of_unfinished hx
  | first _ hx => exact fun closed => bind_of_fault (hx closed)
  | @task t fuel s stop _ ht =>
    cases stop with
    | value v s' => exact performer_of_perform rfl ht
    | fault f s' => exact performer_of_perform rfl ht
    | crash s' => exact performer_of_perform rfl ht
    | puts args s' => exact fun closed => performer_of_perform rfl (ht closed)

theorem Reaches.output {x : Eval α} {s : Store} {stop : Stop α} (h : x.Reaches s stop) :
    stop.store.output = s.output := by
  induction h with
  | pure | fail | crash | read | puts => rfl
  | change h s => exact (congrArg Store.output (h s s.output) :)
  | add h s => exact (congrArg (·.2.output) (h s s.output) :)
  | next _ _ hx hk => exact hk.trans hx
  | fault _ ih | broken _ ih | first _ ih | task _ ih => exact ih

/-! ## Every run comes to a stop or goes on without end -/

/-- From every store the step comes to a stop, or it goes on without end with any output. -/
def Stops (x : Eval α) : Prop :=
  ∀ s, (∃ stop, x.Reaches s stop) ∨ ∀ o, x (s.withOutput o) = .endless

theorem Stops.bind {x : Eval α} {k : α → Eval β} (hx : x.Stops) (hk : ∀ a, (k a).Stops) :
    (x >>= k).Stops := by
  intro s
  rcases hx s with ⟨stop, reached⟩ | endless
  · cases stop with
    | value a s' =>
      rcases hk a s' with ⟨stop, next⟩ | endless
      · exact .inl ⟨stop, reached.next next⟩
      · exact .inr fun o => (bind_of_value (reached.endsOn o)).trans (endless o)
    | fault f s' => exact .inl ⟨_, reached.fault⟩
    | crash s' => exact .inl ⟨_, reached.broken⟩
    | puts args s' => exact .inl ⟨_, reached.first⟩
  · exact .inr fun o => bind_of_unfinished (endless o)

/-- No rule of evaluation hides a fault: all of them only put steps together. -/
theorem stops_congruence : Congruence fun x _ => x.Stops where
  endless _ := fun _ => .inr fun _ => rfl
  pure a := fun s => .inl ⟨_, .pure a s⟩
  fail f := fun s => .inl ⟨_, .fail f s⟩
  crash := fun s => .inl ⟨_, .crash s⟩
  bind := Stops.bind
  read h := fun s => .inl ⟨_, .read h s⟩
  change h := fun s => .inl ⟨_, .change h s⟩
  add h := fun s => .inl ⟨_, .add h s⟩
  puts args := fun s => .inl ⟨_, .puts args s⟩

theorem performer_stops (t : Task) : (performer t).Stops := by
  intro s
  by_cases bounded : ∃ fuel stop, (perform fuel t).Reaches s stop
  · obtain ⟨fuel, stop, reached⟩ := bounded
    exact .inl ⟨stop, reached.task⟩
  · refine .inr fun o => ?_
    rcases underBound_cases (fun fuel => perform fuel t) Eval.fuel (s.withOutput o) with e | ⟨fuel, e⟩
    · exact e
    · have stops := perform_related stops_congruence (Nat.le_refl fuel) t s
      exact e.trans (stops.resolve_left (fun reached => bounded ⟨fuel, reached⟩) o)

theorem evalProgram_stops (f : FrameId) (commands : List Expr) :
    (evalProgram f commands).Stops :=
  (stops_congruence.change fun s o => s.release_withOutput o f []).bind fun _ =>
    @commandsFrom_related _ stops_congruence performer performer performer_stops f .nil commands

end Eval

/-! ## Programs -/

def Store.withBrokenOutput (s : Store) : Store :=
  s.withOutput ⟨s.output.text, true⟩

namespace Machine

/-- The machine with an output that fails on every write. -/
def broken (m : Machine) : Machine :=
  ⟨m.store.withBrokenOutput⟩

/-- A run of the program on the machine comes to the stop without having called `puts` before. -/
def Reaches (m : Machine) (text : String) (stop : Stop Value) : Prop :=
  ∃ commands rest, parseProgram text = .ok commands rest ∧
    (evalProgram root commands).Reaches m.store stop

end Machine

def Execution.broken : Execution → Execution
  | value v m => .value v m.broken
  | failure e m => .failure e m.broken
  | @unfinished halt => @unfinished (halt.map Store.withBrokenOutput)

section
variable (m : Machine) {x : Eval Value}

theorem perform_until_puts {args : List Value} {s : Store}
    (h : x.Reaches m.store (.puts args s)) :
    m.broken.perform x = .failure (.run (.stream .brokenPipe)) (Machine.mk s).broken := by
  have kept : s.output = m.store.output := h.output
  have run : x m.broken.store = .fault (.stream .brokenPipe) (Machine.mk s).broken.store := by
    simp only [Machine.broken, Store.withBrokenOutput, kept]
    exact h.endsOn _ rfl
  rw [Machine.perform, run]

theorem perform_without_puts (stops : x.Stops)
    (h : ∀ args s, ¬ x.Reaches m.store (.puts args s)) :
    m.broken.perform x = (m.perform x).broken := by
  rcases stops m.store with ⟨stop, reached⟩ | endless
  · have own := reached.endsOn m.store.output
    have other := reached.endsOn ⟨m.store.output.text, true⟩
    unfold Machine.perform
    cases stop with
    | value v s =>
      have own : x m.store = .value v (s.withOutput m.store.output) := own
      have other : x m.broken.store = .value v (s.withOutput _) := other
      rw [own, other]
      rfl
    | fault f s =>
      have own : x m.store = .fault f (s.withOutput m.store.output) := own
      have other : x m.broken.store = .fault f (s.withOutput _) := other
      rw [own, other]
      rfl
    | crash s =>
      have own : x m.store = .crash (s.withOutput m.store.output) := own
      have other : x m.broken.store = .crash (s.withOutput _) := other
      rw [own, other]
      rfl
    | puts args s => exact absurd reached (h args s)
  · have own : x m.store = .endless := endless m.store.output
    have other : x m.broken.store = .endless := endless _
    rw [Machine.perform, Machine.perform, own, other]
    rfl

end

/-- A program that is run with a broken output ends with the fault of its first call of `puts`,
and with the store that the run with the working output has at that call. If it comes to no such
call, then it ends as with the working output, or goes on without end as well. -/
theorem execute_broken (m : Machine) (text : String) :
    (∀ args s, m.Reaches text (.puts args s) →
      m.broken.execute text = .failure (.run (.stream .brokenPipe)) (Machine.mk s).broken) ∧
    ((∀ args s, ¬ m.Reaches text (.puts args s)) →
      m.broken.execute text = (m.execute text).broken) := by
  constructor
  · rintro args s ⟨commands, rest, parsed, reached⟩
    rw [execute_of_parse parsed]
    exact perform_until_puts m reached
  · intro none
    rcases parseProgram_finishes text with ⟨commands, rest, parsed⟩ | ⟨e, rest, failed⟩
    · rw [execute_of_parse parsed, execute_of_parse parsed]
      exact perform_without_puts m (evalProgram_stops _ commands) fun args s reached =>
        none args s ⟨commands, rest, parsed, reached⟩
    · rw [execute_of_error failed, execute_of_error failed]
      rfl

/-- In the first program the second command calls `puts`, though it has nothing to print. The
second program does not call it. -/
theorem execute_broken_assignment : ∃ args s,
    Machine.initial.Reaches "x = 1\nputs []" (.puts args s) ∧
      (s.frame Machine.root).locals.get? "x" = some (.int 1) ∧
      Machine.initial.broken.execute "x = 1\nputs []" =
        .failure (.run (.stream .brokenPipe)) (Machine.mk s).broken ∧
      (∀ args s, ¬ Machine.initial.Reaches "x = 1" (.puts args s)) ∧
      Machine.initial.broken.execute "x = 1" = (Machine.initial.execute "x = 1").broken := by
  have both : (parseProgram "x = 1\nputs []").answer =
      some (.ok [.assign "x" (.literal (.integer 1)), .call "puts" [.array []]]) := by cbv
  have one : (parseProgram "x = 1").answer = some (.ok [.assign "x" (.literal (.integer 1))]) := by
    cbv
  obtain ⟨_, both⟩ := gives_iff_ok.mp both
  obtain ⟨_, one⟩ := gives_iff_ok.mp one
  have working : evalProgram Machine.root [.assign "x" (.literal (.integer 1)),
      .call "puts" [.array []]] Machine.initial.store = .value .nil _ :=
    evalProgram_of_perform 3 rfl rfl rfl
  have failing : evalProgram Machine.root [.assign "x" (.literal (.integer 1)),
      .call "puts" [.array []]] Machine.initial.broken.store = .fault (.stream .brokenPipe) _ :=
    evalProgram_of_perform 3 rfl rfl rfl
  have quiet : evalProgram Machine.root [.assign "x" (.literal (.integer 1))]
      Machine.initial.broken.store = .value (.int 1) _ := evalProgram_of_perform 2 rfl rfl rfl
  have called : ∃ args s, Machine.initial.Reaches "x = 1\nputs []" (.puts args s) := by
    refine Classical.byContradiction fun none => ?_
    have same := (execute_broken Machine.initial "x = 1\nputs []").2
      fun args s reached => none ⟨args, s, reached⟩
    rw [execute_of_parse both, execute_of_parse both, Machine.perform, Machine.perform, failing,
      working] at same
    cases same
  obtain ⟨args, s, reached⟩ := called
  have first := (execute_broken Machine.initial "x = 1\nputs []").1 args s reached
  have calls : ∀ args s, ¬ Machine.initial.Reaches "x = 1" (.puts args s) := by
    intro args s reached
    have first := (execute_broken Machine.initial "x = 1").1 args s reached
    rw [execute_of_parse one, Machine.perform, quiet] at first
    cases first
  refine ⟨args, s, reached, ?_, first, calls, (execute_broken Machine.initial "x = 1").2 calls⟩
  rw [execute_of_parse both, Machine.perform, failing] at first
  have left := (Execution.failure.inj first).2
  have same := congrArg (fun m : Machine => (m.store.frame Machine.root).locals.get? "x") left
  exact same.symm

end ObjectLang
