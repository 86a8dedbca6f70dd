import ObjectLang.Proofs.ExecuteAppend
import ObjectLang.Proofs.SessionChunks

/-!
# Sessions run programs

A program that runs as a whole runs in a session too, as long as the session can tell wherever it
has to go on. It cannot where a bracket or a name is missing at the end of a line, and where the
end of a line is escaped. Nor does a session keep the values that it has printed, and what they
alone hold.
-/

namespace ObjectLang

/-! ## Cuts -/

/-- The text ends with the end of a line, and it is not for want of a token if it does not
parse. -/
structure IsCut (text : String) : Prop where
  ends : EndsLine text.toList
  decided : ∀ (e : SyntaxError) (rest : Parser), parseProgram text = .error e rest →
    e.fault.isMissing = false

/-- Lines that a session has read behind whole chunks are incomplete, or can be cut off from the
lines behind. -/
def Cuttable (lines : List String) : Prop :=
  ∀ (chunks : List (List String)) (front back : List String), (∀ c ∈ chunks, IsChunk c) →
    lines = chunks.flatten ++ front ++ back → front ≠ [] → back ≠ [] →
    isIncomplete (String.join front) = true ∨ IsCut (String.join front)

section
variable {front back : List String}

theorem Cuttable.tail (h : Cuttable (front ++ back)) (hf : IsChunk front) : Cuttable back := by
  intro chunks a b hc e
  refine h (front :: chunks) a b (List.forall_mem_cons.mpr ⟨hf, hc⟩) ?_
  rw [e, List.flatten_cons, List.append_assoc, List.append_assoc, List.append_assoc]

theorem Cuttable.head (h : Cuttable (front ++ back)) (hf : IsChunk front) (hb : back ≠ []) :
    IsCut (String.join front) := by
  refine (h [] front back nofun rfl hf.nonempty hb).resolve_left fun e => ?_
  rw [hf.whole] at e
  cases e

theorem IsCut.parses (h : IsCut (String.join front)) {r : List Expr} {rest : Parser}
    (hr : parseProgram (String.join (front ++ back)) = .ok r rest) :
    ∃ p q, (∃ rest, parseProgram (String.join front) = .ok p rest) ∧
      (∃ rest, parseProgram (String.join back) = .ok q rest) ∧ r = p ++ q := by
  obtain ⟨r₁, given₁⟩ := (Parser.ofString (String.join front)).exists_gives
  obtain ⟨r₂, given₂⟩ := (Parser.ofString (String.join back)).exists_gives
  obtain ⟨r₃, given, joined⟩ := joins_text h.ends (String.join back) given₁ given₂
  rw [← String.join_append] at given
  obtain rfl := (gives_iff_ok.mpr ⟨rest, hr⟩).unique given
  cases r₁ with
  | error e =>
    obtain ⟨rest₁, he⟩ := gives_iff_error.mp given₁
    cases joined (h.decided e rest₁ he)
  | ok p =>
    cases r₂ with
    | error e => cases joined
    | ok q =>
      cases joined
      exact ⟨p, q, gives_iff_ok.mp given₁, gives_iff_ok.mp given₂, rfl⟩

/-- What runs as a whole runs in two parts, if nothing changes when the value of the first one is
not in use any more. -/
theorem IsCut.execute (h : IsCut (String.join front)) {m m' : Machine} {v : Value}
    (run : m.execute (String.join (front ++ back)) = .value v m') :
    ∃ w m₁, m.execute (String.join front) = .value w m₁ ∧
      (m₁.Settled → ∃ w', m₁.execute (String.join back) = .value w' m') := by
  obtain ⟨r, rest, hr⟩ := parse_of_value run
  obtain ⟨p, q, ⟨_, hp⟩, ⟨_, hq⟩, rfl⟩ := h.parses hr
  rw [String.join_append, execute_pieces h.ends hp hq] at run
  cases first : m.execute (String.join front) with
  | value w m₁ =>
    rw [first] at run
    refine ⟨w, m₁, rfl, fun settled => ?_⟩
    cases q with
    | nil =>
      cases run
      exact ⟨.nil, settled.execute_nothing hq⟩
    | cons c q =>
      refine ⟨v, ?_⟩
      rw [execute_of_parse hq, ← settled.perform (List.cons_ne_nil c q)]
      exact run
  | failure e m₁ => rw [first] at run; cases run
  | unfinished => rw [first] at run; cases run

end

/-! ## Values between chunks -/

/-- Wherever lines follow behind chunks that have been run, nothing changes when the last value is
not in use any more. -/
def SettledBetween (m : Machine) (lines : List String) : Prop :=
  ∀ (chunks : List (List String)) (back : List String) (m' : Machine), (∀ c ∈ chunks, IsChunk c) →
    lines = chunks.flatten ++ back → back ≠ [] →
    m.executeAll (chunks.map String.join) = some m' → m'.Settled

section
variable {front back : List String} {m m₁ : Machine}

theorem SettledBetween.tail (h : SettledBetween m (front ++ back)) (hf : IsChunk front)
    (first : (m.execute (String.join front)).machine? = some m₁) : SettledBetween m₁ back := by
  intro chunks rest m' hc e hr run
  refine h (front :: chunks) rest m' (List.forall_mem_cons.mpr ⟨hf, hc⟩) ?_ hr ?_
  · rw [e, List.flatten_cons, List.append_assoc]
  · exact (executeAll_cons first _).trans run

theorem SettledBetween.head (h : SettledBetween m (front ++ back)) (hf : IsChunk front)
    (hb : back ≠ []) (first : (m.execute (String.join front)).machine? = some m₁) : m₁.Settled :=
  h [front] back m₁ (List.forall_mem_singleton.mpr hf) (by rw [List.flatten_singleton]) hb
    (executeAll_cons first [])

/-- Of two chunks neither is the beginning of the other. -/
theorem IsChunk.unique {lines lines' rest rest' : List String} (h : IsChunk lines)
    (h' : IsChunk lines') (e : lines ++ rest = lines' ++ rest') : lines = lines' := by
  have shorter {a b : List String} (ha : IsChunk a) (hb : IsChunk b) (begins : a <+: b) : a = b :=
    Classical.byContradiction fun different => by
      have kept := hb.shortest a begins ha.nonempty different
      rw [ha.whole] at kept
      cases kept
  rcases List.prefix_or_prefix_of_prefix ⟨rest, rfl⟩ ⟨rest', e.symm⟩ with begins | begins
  · exact shorter h h' begins
  · exact (shorter h' h begins).symm

end

/-! ## Programs -/

section
variable {front back : List String}

theorem Cuttable.parses (cut : Cuttable (front ++ back)) (hf : IsChunk front) {r : List Expr}
    {rest : Parser} (hr : parseProgram (String.join (front ++ back)) = .ok r rest) :
    ∃ q rest, parseProgram (String.join back) = .ok q rest := by
  by_cases hb : back = []
  · subst hb
    exact ⟨[], String.join_nil ▸ parse_empty⟩
  · obtain ⟨p, q, _, hq, _⟩ := (cut.head hf hb).parses hr
    exact ⟨q, hq⟩

end

/-- Not all lines can be cut: a session does not wait for the bracket that is missing at the end of
the second line. -/
theorem session_open_bracket : ∃ m s,
    Machine.initial.execute "(\n1\n)\n" = .value (.int 1) m ∧
    (Session.initialIn .usual).feedAll (splitLines "(\n1\n)\n") = some (⟨"> .. > > ",
      "Error on line 3: expected ')'\nError on line 1: unexpected ')'\n"⟩, some s) := by
  have opened : (parseProgram "(\n").answer = some (.error ⟨.unexpectedEnd, 2⟩) := by cbv
  have missing : (parseProgram "(\n1\n").answer = some (.error ⟨.expected .rparen, 3⟩) := by cbv
  have closing : (parseProgram ")\n").answer = some (.error ⟨.unexpected ")", 1⟩) := by cbv
  have whole : (parseProgram "(\n1\n)\n").answer = some (.ok [.literal (.integer 1)]) := by cbv
  obtain ⟨_, opened⟩ := gives_iff_error.mp opened
  obtain ⟨_, missing⟩ := gives_iff_error.mp missing
  obtain ⟨_, closing⟩ := gives_iff_error.mp closing
  obtain ⟨_, whole⟩ := gives_iff_ok.mp whole
  have divided : Divided ["(\n", "1\n", ")\n"] [["(\n", "1\n"], [")\n"]] [] := by
    refine ⟨rfl, List.forall_mem_cons.mpr ⟨?_, List.forall_mem_singleton.mpr ?_⟩, unfinished_nil⟩
    · exact (unfinished_nil.concat "(\n" (isIncomplete_of_error opened)).chunk "1\n"
        (isIncomplete_of_error missing)
    · exact unfinished_nil.chunk ")\n" (isIncomplete_of_error closing)
  have report {text : String} {e : SyntaxError} {rest : Parser}
      (h : parseProgram text = .error e rest) :
      Answers Machine.initial text ⟨"", (Failure.source e).report⟩ Machine.initial :=
    .failure (execute_of_error h) String.append_empty.symm
  have text : String.join ["(\n", "1\n"] = "(\n1\n" := by cbv
  have dialogue : Dialogue Machine.initial [["(\n", "1\n"], [")\n"]] _ Machine.initial :=
    .chunk (text ▸ report missing) (.chunk (report closing) (.done _))
  have lines : splitLines "(\n1\n)\n" = ["(\n", "1\n", ")\n"] := by cbv
  have run := execute_of_command (m := Machine.initial) 2 whole rfl rfl rfl
  refine ⟨_, ⟨Machine.initial.takeOutput.2, String.join []⟩, run, ?_⟩
  rw [lines, divided.feedAll dialogue]
  congr 2

end ObjectLang
