import Mathlib
import ObjectLang.CommandLine
import ObjectLang.Proofs.Eval.Printed

/-!
# Sessions run chunks of lines

A session cuts its lines into chunks, runs each of them once and answers it. What is left when the
lines end is dropped.
-/

namespace ObjectLang

/-! ## Chunks -/

def Parsed.isIncomplete {α : Type} : Parsed α → Bool
  | .error e _ => e.isIncomplete
  | .ok _ _ | .unfinished => false

/-- Whether the text ends inside an unfinished construct. -/
def isIncomplete (text : String) : Bool :=
  (parseProgram text).isIncomplete

/-- Lines that a session keeps, one after the other. -/
def Unfinished (lines : List String) : Prop :=
  ∀ front, front <+: lines → front ≠ [] → isIncomplete (String.join front) = true

/-- A shortest run of lines that is not incomplete. -/
structure IsChunk (lines : List String) : Prop where
  nonempty : lines ≠ []
  whole : isIncomplete (String.join lines) = false
  shortest : ∀ front, front <+: lines → front ≠ [] → front ≠ lines →
    isIncomplete (String.join front) = true

/-- Lines as chunks and a remainder that never becomes one. -/
structure Divided (lines : List String) (chunks : List (List String)) (remainder : List String) :
    Prop where
  all : lines = chunks.flatten ++ remainder
  chunks : ∀ c ∈ chunks, IsChunk c
  unfinished : Unfinished remainder

theorem unfinished_nil : Unfinished [] :=
  fun _ h hf => absurd (List.prefix_nil.mp h) hf

section
variable {front lines : List String}

theorem Unfinished.concat (h : Unfinished front) (line : String)
    (hl : isIncomplete (String.join (front ++ [line])) = true) : Unfinished (front ++ [line]) := by
  intro a ha hn
  rcases List.prefix_concat_iff.mp ha with rfl | ha
  · exact hl
  · exact h a ha hn

theorem Unfinished.init {line : String} (h : Unfinished (front ++ [line])) : Unfinished front :=
  fun a ha => h a (ha.trans (List.prefix_append _ _))

theorem Unfinished.chunk (h : Unfinished front) (line : String)
    (hl : isIncomplete (String.join (front ++ [line])) = false) : IsChunk (front ++ [line]) where
  nonempty := List.append_ne_nil_of_right_ne_nil _ (List.cons_ne_nil _ _)
  whole := hl
  shortest a ha hn hne := h a ((List.prefix_concat_iff.mp ha).resolve_left hne) hn

theorem IsChunk.cut (h : IsChunk lines) :
    ∃ front line, lines = front ++ [line] ∧ Unfinished front := by
  have cut := (List.dropLast_concat_getLast h.nonempty).symm
  refine ⟨_, _, cut, fun a ha hn => h.shortest a (ha.trans (List.dropLast_prefix _)) hn fun e => ?_⟩
  have shorter := ha.length_le
  have positive := List.length_pos_iff.mpr h.nonempty
  rw [e, List.length_dropLast] at shorter
  omega

end

/-- The machine after a run that ends. -/
def Execution.machine? : Execution → Option Machine
  | value _ m | failure _ m => some m
  | unfinished => none

/-- Runs texts in order on one machine, whatever each of them ends with. -/
def Machine.executeAll (m : Machine) : List String → Option Machine
  | [] => some m
  | text :: rest => do
    let m' ← (m.execute text).machine?
    m'.executeAll rest

theorem executeAll_cons {m m' : Machine} {text : String} (h : (m.execute text).machine? = some m')
    (rest : List String) : m.executeAll (text :: rest) = m'.executeAll rest := by
  rw [Machine.executeAll, h]
  rfl

/-- A run of a text with what it prints and its one answer: the value, or a report of the
error. -/
inductive Answers (m : Machine) (text : String) : Reply → Machine → Prop where
  | value {v : Value} {m' : Machine} {printed : String} : m.execute text = .value v m' →
      m'.store.output.text = m.store.output.text ++ printed →
      Answers m text ⟨printed ++ "=> " ++ m'.store.inspect v ++ "\n", ""⟩ m'
  | failure {e : Failure} {m' : Machine} {printed : String} : m.execute text = .failure e m' →
      m'.store.output.text = m.store.output.text ++ printed →
      Answers m text ⟨printed, e.report⟩ m'

/-- The prompts in front of the first `n` lines of a chunk. -/
def prompts : Nat → String
  | 0 => ""
  | n + 1 => prompts n ++ if n = 0 then "> " else ".. "

/-- Chunks run in order, each line with its prompt and each chunk with its answer. -/
inductive Dialogue : Machine → List (List String) → Reply → Machine → Prop where
  | done (m : Machine) : Dialogue m [] ⟨"", ""⟩ m
  | chunk {m m' m'' : Machine} {lines : List String} {rest : List (List String)}
      {reply replies : Reply} : Answers m (String.join lines) reply m' →
      Dialogue m' rest replies m'' →
      Dialogue m (lines :: rest) (⟨prompts lines.length, ""⟩ ++ reply ++ replies) m''

/-! ## One line -/

theorem isIncomplete_of_ok {text : String} {cs : List Expr} {rest : Parser}
    (h : parseProgram text = .ok cs rest) : isIncomplete text = false :=
  congrArg Parsed.isIncomplete h

theorem isIncomplete_of_error {text : String} {e : SyntaxError} {rest : Parser}
    (h : parseProgram text = .error e rest) : isIncomplete text = e.isIncomplete :=
  congrArg Parsed.isIncomplete h

theorem exists_error_of_isIncomplete {text : String} (h : isIncomplete text = true) :
    ∃ e rest, parseProgram text = .error e rest ∧ e.isIncomplete = true := by
  rcases parseProgram_finishes text with ⟨cs, rest, hp⟩ | ⟨e, rest, hp⟩
  · rw [isIncomplete_of_ok hp] at h
    cases h
  · exact ⟨e, rest, hp, (isIncomplete_of_error hp).symm.trans h⟩

/-- The session on a machine whose output has been taken, with lines that are kept. -/
def Session.keeping (m : Machine) (lines : List String) : Session :=
  ⟨m.takeOutput.2, String.join lines⟩

theorem join_concat (front : List String) (line : String) :
    String.join (front ++ [line]) = String.join front ++ line := by
  simp only [String.join_append, String.join_cons, String.join_nil, String.append_empty]

section
variable {m : Machine} {front : List String} {line : String}

theorem feed_kept (h : isIncomplete (String.join (front ++ [line])) = true) :
    (Session.keeping m front).feed line =
      some (⟨"", ""⟩, some (Session.keeping m (front ++ [line]))) := by
  obtain ⟨e, rest, hp, he⟩ := exists_error_of_isIncomplete h
  have run := execute_of_error (m := m.takeOutput.2) hp
  unfold Session.feed Session.keeping
  simp only [← join_concat]
  simp only [run]
  simp only [he, if_true]
  rfl

end

/-- The answer as a session finds it: on the machine whose output has been taken. -/
theorem Answers.taken {m m' : Machine} {text : String} {reply : Reply}
    (run : Answers m text reply m') :
    (∃ v d, m.takeOutput.2.execute text = .value v d ∧ m'.takeOutput.2 = d.takeOutput.2 ∧
      reply = ⟨d.takeOutput.1 ++ "=> " ++ d.takeOutput.2.store.inspect v ++ "\n", ""⟩) ∨
    ∃ e d, m.takeOutput.2.execute text = .failure e d ∧ m'.takeOutput.2 = d.takeOutput.2 ∧
      reply = ⟨d.takeOutput.1, e.report⟩ := by
  have taken := (execute_takeOutput m text).symm
  cases run with
  | @value v _ printed h output =>
    obtain ⟨d, hd, rfl⟩ := Execution.after_eq_value (taken.trans h)
    obtain rfl : d.takeOutput.1 = printed := (String.append_right_inj m.takeOutput.1).mp output
    have shown : (d.after m.takeOutput.1).store.inspect = d.takeOutput.2.store.inspect :=
      (Store.inspect_withOutput _ _).trans (Store.inspect_withOutput _ _).symm
    exact .inl ⟨v, d, hd, rfl, by rw [shown]⟩
  | @failure e _ printed h output =>
    obtain ⟨d, hd, rfl⟩ := Execution.after_eq_failure (taken.trans h)
    obtain rfl : d.takeOutput.1 = printed := (String.append_right_inj m.takeOutput.1).mp output
    exact .inr ⟨e, d, hd, rfl, rfl⟩

/-- The line that makes lines a chunk has them run. -/
theorem feed_answers {m m' : Machine} {front : List String} {line : String} {reply : Reply}
    (whole : isIncomplete (String.join (front ++ [line])) = false)
    (run : Answers m (String.join (front ++ [line])) reply m') :
    (Session.keeping m front).feed line = some (reply, some (Session.keeping m' [])) := by
  unfold Session.feed Session.keeping
  simp only [← join_concat]
  rcases run.taken with ⟨v, d, h, machine, rfl⟩ | ⟨e, d, h, machine, rfl⟩
  · simp only [h, machine]
    rfl
  · simp only [h, machine]
    cases e with
    -- A syntax error is reported only if it does not mean that the text is incomplete.
    | source e =>
      obtain ⟨⟨rest, hp⟩, _⟩ := parse_of_execute h
      simp only [(isIncomplete_of_error hp).symm.trans whole]
      rfl
    | run f => rfl

theorem Reply.append_assoc (a b c : Reply) : a ++ b ++ c = a ++ (b ++ c) :=
  congrArg₂ Reply.mk String.append_assoc String.append_assoc

theorem Reply.empty_append (a : Reply) : ⟨"", ""⟩ ++ a = a :=
  congrArg₂ Reply.mk String.empty_append String.empty_append

theorem Reply.append_empty (a : Reply) : a ++ ⟨"", ""⟩ = a :=
  congrArg₂ Reply.mk String.append_empty String.append_empty

/-- The rest of a session with a reply in front. -/
def Reply.before (r : Reply) (x : Option (Reply × Option Session)) :
    Option (Reply × Option Session) :=
  x.map fun p => (r ++ p.1, p.2)

theorem Reply.empty_before (x : Option (Reply × Option Session)) : Reply.before ⟨"", ""⟩ x = x := by
  cases x with
  | none => rfl
  | some p => exact congrArg some (Prod.ext (Reply.empty_append p.1) rfl)

theorem Reply.before_before (a b : Reply) (x : Option (Reply × Option Session)) :
    a.before (b.before x) = (a ++ b).before x := by
  cases x with
  | none => rfl
  | some p => exact congrArg some (Prod.ext (Reply.append_assoc a b p.1).symm rfl)

theorem feedAll_nil (s : Session) : s.feedAll [] = some (⟨s.prompt, ""⟩, some s) :=
  congrArg some (Prod.ext (Reply.append_empty _) rfl)

theorem feedAll_cons {s next : Session} {line : String} {reply : Reply}
    (h : s.feed line = some (reply, some next)) (rest : List String) :
    s.feedAll (line :: rest) = (⟨s.prompt, ""⟩ ++ reply : Reply).before (next.feedAll rest) := by
  rw [Session.feedAll, Session.feedAll, Session.turns, Session.turn, h]
  change Option.map _ ((next.turns rest).bind _) = _
  cases next.turns rest with
  | none => rfl
  | some p =>
    refine congrArg some (Prod.ext ?_ rfl)
    change ⟨s.prompt, ""⟩ ++ (reply ++ ⟨next.prompt, ""⟩ ++ p.1) =
      ⟨s.prompt, ""⟩ ++ reply ++ (⟨next.prompt, ""⟩ ++ p.1)
    rw [Reply.append_assoc, Reply.append_assoc]

theorem prompt_keeping {m : Machine} {front : List String} (h : Unfinished front) :
    prompts (front.length + 1) = prompts front.length ++ (Session.keeping m front).prompt := by
  by_cases hf : front = []
  · subst hf
    rfl
  · have pending : (String.join front).isEmpty = false := by
      refine Bool.eq_false_iff.mpr fun e => ?_
      have kept := h front (List.prefix_refl front) hf
      obtain ⟨rest, hp⟩ := parse_empty
      rw [String.isEmpty_iff.mp e, isIncomplete_of_ok hp] at kept
      cases kept
    have some : front.length ≠ 0 := fun e => hf (List.length_eq_zero_iff.mp e)
    rw [prompts, if_neg some, Session.prompt, Session.keeping, pending]
    rfl

/-- A session that keeps all of `front` is one that has got these lines. -/
theorem feedAll_kept {m : Machine} {front : List String} (h : Unfinished front)
    (rest : List String) : (Session.keeping m []).feedAll (front ++ rest) =
      (⟨prompts front.length, ""⟩ : Reply).before ((Session.keeping m front).feedAll rest) := by
  -- From the back: the prompt of a line depends on the lines in front of it.
  induction front using List.reverseRecOn generalizing rest with
  | nil => exact (Reply.empty_before _).symm
  | append_singleton front line ih =>
    have kept := feed_kept (m := m) (h _ (List.prefix_refl _) (List.concat_ne_nil line front))
    rw [List.append_assoc, ih h.init, List.singleton_append, feedAll_cons kept, Reply.before_before,
      Reply.append_empty, List.length_append, List.length_singleton, prompt_keeping h.init]
    rfl

theorem feedAll_chunk {m m' : Machine} {lines : List String} {reply : Reply} (h : IsChunk lines)
    (run : Answers m (String.join lines) reply m') (rest : List String) :
    (Session.keeping m []).feedAll (lines ++ rest) =
      (⟨prompts lines.length, ""⟩ ++ reply : Reply).before
        ((Session.keeping m' []).feedAll rest) := by
  obtain ⟨front, line, rfl, kept⟩ := h.cut
  rw [List.append_assoc, feedAll_kept kept, List.singleton_append,
    feedAll_cons (feed_answers h.whole run), Reply.before_before, ← Reply.append_assoc,
    List.length_append, List.length_singleton, prompt_keeping kept]
  rfl

theorem feedAll_remainder {m : Machine} {lines : List String} (h : Unfinished lines) :
    (Session.keeping m []).feedAll lines =
      some (⟨prompts (lines.length + 1), ""⟩, some (Session.keeping m lines)) := by
  have kept := feedAll_kept (m := m) h []
  rw [List.append_nil] at kept
  rw [kept, prompt_keeping (m := m) h, feedAll_nil]
  rfl

/-- By induction on the chunks: each begins with a session that keeps nothing. -/
theorem feedAll_dialogue {m m' : Machine} {chunks : List (List String)} {reply : Reply}
    (run : Dialogue m chunks reply m') (hc : ∀ c ∈ chunks, IsChunk c) (rest : List String) :
    (Session.keeping m []).feedAll (chunks.flatten ++ rest) =
      reply.before ((Session.keeping m' []).feedAll rest) := by
  induction run with
  | done m => exact (Reply.empty_before _).symm
  | chunk first _ ih =>
    obtain ⟨hl, hc⟩ := List.forall_mem_cons.mp hc
    rw [List.flatten_cons, List.append_assoc, feedAll_chunk hl first, ih hc, Reply.before_before]

theorem Divided.feedAll {lines remainder : List String} {chunks : List (List String)}
    (d : Divided lines chunks remainder) {r : Runtime} {reply : Reply} {m : Machine}
    (run : Dialogue (.initialIn r) chunks reply m) :
    (Session.initialIn r).feedAll lines = some (reply ++ ⟨prompts (remainder.length + 1), ""⟩,
      some ⟨m.takeOutput.2, String.join remainder⟩) := by
  rw [d.all]
  refine (feedAll_dialogue run d.chunks remainder).trans ?_
  rw [feedAll_remainder d.unfinished]
  rfl

end ObjectLang
