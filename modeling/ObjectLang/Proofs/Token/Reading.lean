import ObjectLang.Proofs.Token.Spelling
import ObjectLang.Token.Stream

/-!
# Reading printed text

A printed text is a row of tokens with blanks, joined lines and comments between
them. A stream of such a text gives its tokens one after the other.
-/

namespace ObjectLang

open Scan

/-! ## Text between tokens -/

inductive Blank : List Char → Prop where
  | nil : Blank []
  | char {c : Char} {g : List Char} : c = ' ' ∨ c = '\t' ∨ c = '\r' ∨ c = '\x0c' → Blank g →
      Blank (c :: g)
  | line {g : List Char} : Blank g → Blank ('\\' :: '\n' :: g)
  | carriage {g : List Char} : Blank g → Blank ('\\' :: '\r' :: '\n' :: g)

/-- Nothing, or a comment up to the end of its line. -/
def Comment (k : List Char) : Prop :=
  k = [] ∨ ∃ r, k = '#' :: r ∧ '\n' ∉ r

theorem skip_blank {g : List Char} (h : Blank g) (x : List Char) : ∀ (line : Nat) (b : Bool),
    skip line b (g ++ x) = skip (line + g.count '\n') (b || !g.isEmpty) x := by
  have step : ∀ (c : Char) (w : List Char) {g : List Char},
      (∀ line b y, skip line b (c :: w ++ y) = skip (line + (c :: w).count '\n') true y) →
      (∀ line b, skip line b (g ++ x) = skip (line + g.count '\n') (b || !g.isEmpty) x) →
      ∀ line b, skip line b (c :: w ++ g ++ x) =
        skip (line + (c :: w ++ g).count '\n') (b || !(c :: w ++ g).isEmpty) x := by
    intro c w g front ih line b
    rw [List.append_assoc, front, ih, List.count_append, Nat.add_assoc, List.cons_append,
      List.isEmpty_cons, Bool.true_or, Bool.not_false, Bool.or_true]
  induction h with
  | nil =>
    intro line b
    rw [List.isEmpty_nil, Bool.not_true, Bool.or_false]
    rfl
  | @char c g hc _ ih =>
    refine step c [] (fun line b y => ?_) ih
    rcases hc with rfl | rfl | rfl | rfl <;> exact skip.eq_def _ _ _
  | line _ ih => exact step '\\' ['\n'] (fun line b y => skip.eq_def _ _ _) ih
  | carriage _ ih => exact step '\\' ['\r', '\n'] (fun line b y => skip.eq_def _ _ _) ih

theorem skip_comment {r x : List Char} (hr : '\n' ∉ r) (hx : ∀ d ∈ x.head?, d = '\n')
    (line : Nat) (b : Bool) : skip line b ('#' :: r ++ x) = ⟨x, line, true⟩ := by
  have hd : ∀ c ∈ r, decide (c ≠ '\n') = true := by
    intro c hc
    apply decide_eq_true
    intro e
    rw [e] at hc
    exact hr hc
  have hx' : ∀ d ∈ x.head?, decide (d ≠ '\n') = false := by
    intro d hd
    rw [hx d hd]
    rfl
  rw [List.cons_append, skip, dropWhile_run hd hx']

def beginsGap (c : Char) : Bool :=
  c = ' ' || c = '\t' || c = '\r' || c = '\x0c' || c = '\\' || c = '#'

theorem skip_token {c : Char} (h : beginsGap c = false) (r : List Char) (line : Nat) (b : Bool) :
    skip line b (c :: r) = ⟨c :: r, line, b⟩ := by
  unfold skip
  split
  all_goals first | rfl | (next e => rw [List.cons.injEq] at e; rw [e.1] at h; exact absurd h (by decide))

section
variable {g k : List Char}

theorem skip_to_end (hg : Blank g) (hk : Comment k) (line : Nat) :
    ∃ b, skip line false (g ++ k) = ⟨[], line + g.count '\n', b⟩ := by
  rw [skip_blank hg]
  rcases hk with rfl | ⟨r, rfl, hr⟩
  · exact ⟨_, rfl⟩
  · rw [← List.append_nil ('#' :: r), skip_comment hr (by simp)]
    exact ⟨_, rfl⟩

theorem skip_to_line (hg : Blank g) (hk : Comment k) (r : List Char) (line : Nat) :
    ∃ b, skip line false (g ++ (k ++ '\n' :: r)) = ⟨'\n' :: r, line + g.count '\n', b⟩ := by
  rw [skip_blank hg]
  rcases hk with rfl | ⟨q, rfl, hq⟩
  · exact ⟨_, skip_token rfl r _ _⟩
  · exact ⟨_, skip_comment hq (by simp) _ _⟩

theorem skip_to_token (hg : Blank g) {c : Char} (hc : beginsGap c = false) (r : List Char)
    (line : Nat) : skip line false (g ++ c :: r) = ⟨c :: r, line + g.count '\n', !g.isEmpty⟩ := by
  rw [skip_blank hg, skip_token hc, Bool.false_or]

end

theorem Spelling.begins {t : Token} {w : List Char} (h : Spelling t w) :
    ∃ c r, w = c :: r ∧ beginsGap c = false := by
  have digit : ∀ c : Char, isIdentRest c = true → beginsGap c = false := by
    intro c hc
    simp only [beginsGap, Bool.or_eq_false_iff, decide_eq_false_iff_not]
    refine ⟨⟨⟨⟨⟨?_, ?_⟩, ?_⟩, ?_⟩, ?_⟩, ?_⟩ <;>
    · intro e
      rw [e] at hc
      exact absurd hc (by decide)
  have ident : ∀ {w : List Char}, IsIdentifier w → ∃ c r, w = c :: r ∧ beginsGap c = false := by
    intro w hw
    cases w with
    | nil => exact hw.elim
    | cons c r => exact ⟨c, r, rfl, digit c (isIdentRest_of_start hw.1)⟩
  cases h with
  | integer hne hd _ =>
    cases w with
    | nil => exact absurd rfl hne
    | cons c r => exact ⟨c, r, rfl, digit c (isIdentRest_of_isDigit (hd c (by simp)))⟩
  | str hq _ => exact ⟨_, _, rfl, by rcases hq with rfl | rfl <;> rfl⟩
  | symbol _ | instanceVar _ | classVar _ | newline => exact ⟨_, _, rfl, rfl⟩
  | name hw _ => exact ident hw
  | keyword hw _ => exact ident hw
  | @mark f hk hn =>
    cases f <;> first | exact absurd hk (by decide) | exact absurd rfl hn | exact ⟨_, _, rfl, rfl⟩

/-! ## Printed text -/

/-- A token of a printed text. Nothing stands in front of a glued one. -/
structure Piece where
  token : Token
  glued : Bool

/-- The text consists of the pieces and of gaps. Gaps are free, except that nothing stands
before a glued piece, that a comment ends a line, and that tokens must not run together. -/
inductive Reads : List Char → List Piece → Prop where
  | done {g k : List Char} : Blank g → Comment k → Reads (g ++ k) []
  | piece {g k w rest : List Char} {p : Piece} {ps : List Piece} : Blank g → Comment k →
      (k ≠ [] → p.token = .fixed .newline) → (p.glued = true → g = [] ∧ k = []) →
      Spelling p.token w → Apart w rest → Reads rest ps → Reads (g ++ (k ++ (w ++ rest))) (p :: ps)

theorem Reads.length_le {text : List Char} {ps : List Piece} (h : Reads text ps) :
    ps.length ≤ text.length := by
  induction h with
  | done _ _ => exact Nat.zero_le _
  | piece _ _ _ _ hw _ _ ih =>
    obtain ⟨c, r, e, _⟩ := hw.begins
    rw [e]
    simp only [List.length_append, List.length_cons]
    omega

namespace TokenStream

/-- The stream gives the tokens of the pieces, and then ends. -/
def Yields (s : TokenStream) : List Piece → Prop
  | [] => ∃ s', s.next = (.ok none, s') ∧ s'.next = (.ok none, s')
  | p :: ps => ∃ l s', s.next = (.ok (some l), s') ∧ l.token = p.token ∧
      (p.glued = true → l.spaced = false) ∧ s'.Yields ps

theorem read_end {s : TokenStream} (h : (skip s.line false s.rest).rest = []) :
    s.read = (.ok none, { s with rest := [], line := (skip s.line false s.rest).line }) := by
  unfold read
  simp only [h]

theorem read_token {s : TokenStream} {c : Char} {r after : List Char} {t : Token}
    (h : (skip s.line false s.rest).rest = c :: r) (ht : itemAt c r = (.token t, after)) :
    s.read = (.ok (some ⟨t, s.line, (skip s.line false s.rest).skipped⟩),
      { s with rest := after, line := lineAfter (skip s.line false s.rest).line (.token t) }) := by
  unfold read
  simp only [h, ht]

theorem yields_of_reads {text : List Char} {ps : List Piece} (h : Reads text ps) :
    ∀ line, Yields ⟨text, line, []⟩ ps := by
  induction h with
  | @done g k hg hk =>
    intro line
    obtain ⟨b, e⟩ := skip_to_end hg hk line
    exact ⟨_, read_end (congrArg Gap.rest e), rfl⟩
  | @piece g k w rest p ps hg hk hkn hglued hw ha _ ih =>
    intro line
    obtain ⟨c, r, ew, hc⟩ := hw.begins
    have here : ∃ b, skip line false (g ++ (k ++ (w ++ rest))) =
        ⟨c :: (r ++ rest), line + g.count '\n', b⟩ ∧ (p.glued = true → b = false) := by
      rw [ew]
      by_cases none : k = []
      · subst none
        exact ⟨_, skip_to_token hg hc _ line, fun h => by rw [(hglued h).1]; rfl⟩
      · rw [hkn none] at hw
        obtain rfl : w = ['\n'] := by
          cases hw with
          | keyword _ hk => exact absurd (isKeyword_of_lookup hk) (by decide)
          | mark _ hn => exact absurd rfl hn
          | newline => rfl
        obtain ⟨rfl, rfl⟩ := List.cons.inj ew
        obtain ⟨b, e⟩ := skip_to_line hg hk rest line
        exact ⟨b, e, fun h => absurd (hglued h).2 none⟩
    obtain ⟨b, he, hspaced⟩ := here
    refine ⟨_, _, read_token (congrArg Gap.rest he) (itemAt_spelling ew hw ha), rfl, ?_, ih _⟩
    intro hp
    rw [he]
    exact hspaced hp

end TokenStream

end ObjectLang
