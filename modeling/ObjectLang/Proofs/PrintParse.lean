import ObjectLang.Proofs.Parse.Inverse
import ObjectLang.Proofs.Parse.WellFormed

/-!
# Parsing inverts printing

Every list of well-formed commands can be printed, and whatever text it is printed as,
parsing the text gives the commands back.
-/

namespace ObjectLang

open Parse Grammar

/-- The text is one of the ways to print the commands. -/
def IsText (commands : List Expr) (text : String) : Prop :=
  ∃ ps, PrintsProgram commands ps ∧ Reads text.toList ps

theorem isText_of_command {e : Expr} {ps : List Piece} {text : String}
    (h : Prints (.expr false e) ps) (ht : Reads text.toList ps) : IsText [e] text := by
  refine ⟨ps, ⟨[(e, ps)], rfl, ?_, .last separators_nil⟩, ht⟩
  intro x hx
  rw [List.mem_singleton.mp hx]
  exact h

theorem exists_text {commands : List Expr} (h : ∀ e ∈ commands, WellFormed e) :
    ∃ text, IsText commands text := by
  obtain ⟨xs, rfl, hp, hw⟩ := exists_printed fun e he => printable_expr (h e he) false
  obtain ⟨ps, hs, hw'⟩ := exists_sequenced hw
  obtain ⟨text, ht⟩ := hw'.text
  refine ⟨String.ofList text, ps, ⟨xs, rfl, hp, hs⟩, ?_⟩
  rw [String.toList_ofList]
  exact ht

theorem parse_text {commands : List Expr} {text : String} (h : IsText commands text) :
    ∃ rest, parseProgram text = .ok commands rest := by
  obtain ⟨ps, ⟨xs, rfl, hp, hs⟩, ht⟩ := h
  exact parse_commands hs (fun x hx => prints_parses (hp x hx)) ht

/-- Well-formed commands can be printed, and any text they are printed as is parsed to the same
commands. -/
theorem parse_print {commands : List Expr} (h : ∀ e ∈ commands, WellFormed e) :
    (∃ text, IsText commands text) ∧
      ∀ text, IsText commands text → ∃ rest, parseProgram text = .ok commands rest :=
  ⟨exists_text h, fun _ ht => parse_text ht⟩

/-- An assignment, and a call with a block of a method that has the name of a keyword. -/
theorem parse_print_block :
    (∃ text, IsText [.assign "x" (.array [.literal (.integer 1)]),
      .dot (.name "x") "class" [.block ["y"] (.ofBody [])]] text) ∧
    ∀ text, IsText [.assign "x" (.array [.literal (.integer 1)]),
      .dot (.name "x") "class" [.block ["y"] (.ofBody [])]] text →
      ∃ rest, parseProgram text = .ok [.assign "x" (.array [.literal (.integer 1)]),
        .dot (.name "x") "class" [.block ["y"] (.ofBody [])]] rest := by
  have x : IsName "x" := ⟨by decide, rfl⟩
  have y : IsName "y" := ⟨by decide, rfl⟩
  have array : WellFormed (.array [.literal (.integer 1)]) := by
    refine .array fun e he => ?_
    rw [List.mem_singleton.mp he]
    exact .literal (show 0 ≤ (1 : Int64).toInt by decide)
  have call : WellFormed (.dot (.name "x") "class" ([] ++ [.block ["y"] (.ofBody [])])) := by
    refine .dotBlock (.name x) ⟨by decide, by decide⟩ ?_ ?_ ?_
    · intro a ha
      cases ha
    · intro p hp
      rw [List.mem_singleton.mp hp]
      exact y
    · intro c hc
      cases hc
  apply parse_print
  intro e he
  rcases List.mem_cons.mp he with rfl | he
  · exact .assign x array
  · rw [List.mem_singleton.mp he]
    exact call

theorem reads_next {p : Piece} {ps : List Piece} {w rest : List Char} (hw : Spelling p.token w)
    (ha : Apart w rest) (h : Reads rest ps) : Reads (w ++ rest) (p :: ps) :=
  .piece (g := []) (k := []) .nil (.inl rfl) (fun e => absurd rfl e) (fun _ => ⟨rfl, rfl⟩) hw ha h

theorem elsif_text : IsText [.dot .selfRef "elif" []] "(self).elsif()" := by
  have receiver : Prints (.group .selfRef) [mark .lparen, mark .selfWord, mark .rparen] :=
    .group separators_nil .selfRef separators_nil
  have none : ∀ x ∈ ([] : List (Expr × List Piece)), Prints (.group x.1) x.2 := by
    intro x hx
    cases hx
  have call : Prints (.expr false (.dot .selfRef "elif" []))
      [mark .lparen, mark .selfWord, mark .rparen, mark .dot, mark .elifWord, touching .lparen,
        mark .rparen] :=
    .dot (m := .fixed .elifWord) receiver rfl (.arguments none newlines_nil .none)
  have read : Reads "(self).elsif()".toList [mark .lparen, mark .selfWord, mark .rparen,
      mark .dot, mark .elifWord, touching .lparen, mark .rparen] := by
    have marks : ∀ f : Fixed, f = .lparen ∨ f = .rparen ∨ f = .dot →
        Spelling (.fixed f) f.text.toList := by
      rintro f (rfl | rfl | rfl) <;> exact .mark (by decide) (by decide)
    have self : Spelling (.fixed .selfWord) ['s', 'e', 'l', 'f'] :=
      .keyword (by decide) rfl
    have elsif : Spelling (.fixed .elifWord) ['e', 'l', 's', 'i', 'f'] :=
      .keyword (by decide) rfl
    have nothing : Reads [] [] := .done .nil (.inl rfl)
    have last : Apart [')'] [] := ⟨by simp, by simp⟩
    have whole : "(self).elsif()".toList = ['('] ++ (['s', 'e', 'l', 'f'] ++ ([')'] ++ (['.'] ++
        (['e', 'l', 's', 'i', 'f'] ++ (['('] ++ ([')'] ++ [])))))) := by decide
    rw [whole]
    exact reads_next (marks .lparen (by simp)) (apart_of (a := []) rfl (.inl (by decide)))
      (reads_next self (apart_of (a := ['s', 'e', 'l']) rfl (.inl (by decide)))
      (reads_next (marks .rparen (by simp)) (apart_of (a := []) rfl (.inr rfl))
      (reads_next (marks .dot (by simp)) (apart_of (a := []) rfl (.inr rfl))
      (reads_next elsif (apart_of (a := ['e', 'l', 's', 'i']) rfl (.inl (by decide)))
      (reads_next (marks .lparen (by simp)) (apart_of (a := []) rfl (.inl (by decide)))
      (reads_next (marks .rparen (by simp)) last nothing))))))
  exact isText_of_command call read

/-- The keywords `elif` and `elsif` are one token, so that a method called `elsif` is taken for one
called `elif`. -/
theorem elsif_parsed_as_elif :
    (∃ rest, parseProgram "(self).elsif()" = .ok [.dot .selfRef "elif" []] rest) ∧
      ¬∃ rest, parseProgram "(self).elsif()" = .ok [.dot .selfRef "elsif" []] rest := by
  have parsed := parse_text elsif_text
  refine ⟨parsed, ?_⟩
  intro both
  obtain ⟨rest, h⟩ := both
  obtain ⟨rest', h'⟩ := parsed
  rw [h'] at h
  simp at h

end ObjectLang
