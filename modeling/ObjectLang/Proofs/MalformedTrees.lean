import ObjectLang.Proofs.Eval.Monotone
import ObjectLang.Proofs.Eval.Safe
import ObjectLang.Proofs.Execute
import ObjectLang.Proofs.Parse.Shapes

/-!
# Malformed trees

Evaluation refuses trees that make no sense as the target of an assignment or of a definition or as
the name of a class. Source text never leads there: a parsed program is well placed, and so is all
code that the programs before it have left in the machine, in methods and in blocks.
-/

namespace ObjectLang

open Eval

/-! ## Messages -/

/-- The messages of the faults that a malformed tree has. -/
def malformedMessages : List String :=
  ["invalid assignment target", "invalid method definition target", "invalid class name"]

/-- No other fault has one of these messages, whatever names and values it shows: the text around
them has a character that none of these has, or ends in another one. -/
theorem message_of_sensible {t : TypeFault} (h : (Fault.type t).Sensible) :
    t.message ∉ malformedMessages := by
  have holds (c : Char) (absent : ∀ d ∈ malformedMessages, c ∉ d.toList)
      (present : c ∈ t.message.toList) : t.message ∉ malformedMessages :=
    fun mem => absent _ mem present
  cases t with
  | assignmentTarget | definitionTarget | className => exact h.elim
  | instanceVariable | classVariable | rangeBounds | noBlock | notNumeric | notAName | notAKey =>
    exact holds 'b' (by simp [malformedMessages]) (by unfold TypeFault.message; simp)
  | indexConversion | superclassKind | superclassMismatch | incomparable =>
    exact holds 'p' (by simp [malformedMessages]) (by unfold TypeFault.message; simp)
  | notAModule | negativeCount | integerRange | recursiveKey =>
    exact holds 'u' (by simp [malformedMessages]) (by unfold TypeFault.message; simp)
  | singletonTarget => exact holds '\'' (by simp [malformedMessages]) (by unfold TypeFault.message; simp)
  | noClass given =>
    -- The letters of its text are all among those of the others.
    have ends : ∀ d ∈ malformedMessages, d.toList.getLast? ≠ some 's' := by
      simp [malformedMessages]
    exact fun mem => ends _ mem (by unfold TypeFault.message; simp)

/-! ## Runs of source text -/

/-- The machine is left with well-placed code, and a fault is not that of a malformed tree. -/
def Execution.Safe : Execution → Prop
  | .value _ m | .failure (.source _) m => m.store.Placed
  | .failure (.run f) m => m.store.Placed ∧ f.Sensible
  | .unfinished => True

theorem perform_safe_of {m : Machine} (h : m.store.Placed) {x : Eval Value} (hx : Gives x) :
    (m.perform x).Safe := by
  have hs := hx m.store h
  unfold Machine.perform
  cases e : x m.store with
  | value v s => rw [e] at hs; exact hs.1
  | fault f s => rw [e] at hs; exact hs
  | unfinished => trivial

theorem execute_safe {m : Machine} (h : m.store.Placed) (source : String) :
    (m.execute source).Safe := by
  rcases parseProgram_finishes source with ⟨commands, rest, parsed⟩ | ⟨e, rest, error⟩
  · rw [execute_of_parse parsed]
    refine perform_safe_of h (safe_evalProgram _ fun c hc => ?_)
    exact (parseProgram_operands parsed c hc).sound
  · rw [execute_of_error error]
    exact h

namespace Machine

/-- A run of source text, given as text or as bytes. -/
inductive Runs (m : Machine) : Execution → Prop where
  | text (source : String) : Runs m (m.execute source)
  | bytes (source : ByteArray) : Runs m (m.executeBytes source)

theorem Runs.safe {m : Machine} (h : m.store.Placed) {x : Execution} (run : m.Runs x) :
    x.Safe := by
  cases run with
  | text source => exact execute_safe h source
  | bytes source =>
    unfold executeBytes
    split
    · exact execute_safe h _
    · exact ⟨h, trivial⟩

/-- A machine that has been given nothing but source text, whether its runs ended with values or
with errors. -/
inductive Scripted : Machine → Prop where
  | start (r : Runtime) (output : Output) : Scripted ⟨coreStoreOn r output⟩
  | bare : Scripted bare
  | value {m m' : Machine} {v : Value} : Scripted m → m.Runs (.value v m') → Scripted m'
  | failure {m m' : Machine} {e : Failure} : Scripted m → m.Runs (.failure e m') → Scripted m'
  | takeOutput {m : Machine} : Scripted m → Scripted m.takeOutput.2

theorem Scripted.placed {m : Machine} (h : m.Scripted) : m.store.Placed := by
  -- Each run leaves only code of its own program besides what was there.
  induction h with
  | start r output => exact Store.core_placed r output
  | bare => exact Store.bare_placed
  | value _ run ih => exact run.safe ih
  | @failure _ _ e _ run ih =>
    cases e with
    | source e => exact run.safe ih
    | run f => exact (run.safe ih).1
  | takeOutput _ ih => exact { ih with }

end Machine

/-- A machine that is only ever given source text never ends a run in a fault of a malformed
tree, and all code that it keeps for later is well placed. -/
theorem malformed_tree_unreachable {m : Machine} (h : m.Scripted) :
    m.store.Placed ∧ ∀ t m', m.Runs (.failure (.run (.type t)) m') →
      t.message ∉ malformedMessages :=
  ⟨h.placed, fun _ _ run => message_of_sensible (run.safe h.placed).2⟩

/-- A method that assigns a class variable where there is no class. -/
def strayMethod : Definition :=
  ⟨"f", [], .assignClassVar "x" (.literal (.integer 1)), none⟩

def strayMachine : Machine :=
  ⟨coreStore.setLocal Machine.root "f" (.function (.defined strayMethod))⟩

/-- A method that one program leaves behind, and that fails in the next one. -/
theorem malformed_tree_unreachable_method :
    strayMachine.Scripted ∧ ∃ m,
      strayMachine.Runs (.failure (.run (.type (.classVariable "x"))) m) ∧
      (TypeFault.classVariable "x").message ∉ malformedMessages := by
  have definition : (parseProgram "def f() @@x = 1 end").answer =
      some (.ok [.define (.name "f") [] strayMethod.body]) := by cbv
  have call : (parseProgram "f()").answer = some (.ok [.call "f" []]) := by cbv
  obtain ⟨_, definition⟩ := gives_iff_ok.mp definition
  obtain ⟨_, call⟩ := gives_iff_ok.mp call
  have defined : Machine.initial.execute "def f() @@x = 1 end" =
      .value (.symbol "f") strayMachine := execute_of_command 1 definition rfl rfl rfl
  have failed : strayMachine.execute "f()" = .failure (.run (.type (.classVariable "x"))) ⟨_⟩ :=
    execute_of_fault 3 call rfl rfl
  have first : Machine.initial.Runs (.value (.symbol "f") strayMachine) :=
    defined ▸ .text "def f() @@x = 1 end"
  have scripted : strayMachine.Scripted := .value (.start .usual coreStore.output) first
  have run := failed ▸ Machine.Runs.text (m := strayMachine) "f()"
  exact ⟨scripted, _, run, (malformed_tree_unreachable scripted).2 _ _ run⟩

-- A tree that no source text has does end in such a fault.
example : perform 1 (.expr Machine.root (.assignDot .selfRef .selfRef)) coreStore =
    .fault (.type .assignmentTarget) coreStore := rfl

end ObjectLang
