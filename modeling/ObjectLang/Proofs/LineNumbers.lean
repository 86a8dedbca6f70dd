import ObjectLang.Proofs.Parse.Correspondence
import ObjectLang.Proofs.Token.Tiles

/-!
# Line numbers

Only the end of a line and a joined line hold a newline, and both are counted. So an item has the
number of the line that reading had reached when the item before it ended, and every error of the
parser has the number of a line that the text has.
-/

namespace ObjectLang

open Scan

/-! ## Gaps -/

/-- Two lines are joined somewhere in the gap. -/
def JoinsLines (gap : List Char) : Prop :=
  ∃ a k b, gap = a ++ (k ++ b) ∧ IsGap a ∧ k ∈ Pattern.continuation.language ∧ IsGap b

theorem newline_mem_continuation {k : List Char} (h : k ∈ Pattern.continuation.language) :
    '\n' ∈ k := by
  obtain ⟨a, _, b, hb, rfl⟩ := Language.mem_mul.mp h
  rw [show b = ['\n'] from hb]
  exact List.mem_append_right a List.mem_cons_self

theorem newline_not_mem_blanks {w : List Char} (h : w ∈ Pattern.blanks.language) : '\n' ∉ w := by
  obtain ⟨c, r, rfl, hc, hr⟩ := mem_oneOf_mul.mp h
  intro mem
  rcases List.mem_cons.mp mem with rfl | mem
  · exact absurd hc (by decide)
  · exact absurd (mem_oneOf_star.mp hr '\n' mem) (by decide)

theorem newline_not_mem_comment {w : List Char} (h : w ∈ Pattern.comment.language) : '\n' ∉ w := by
  obtain ⟨r, hr, rfl⟩ := mem_exactly_mul.mp h
  intro mem
  rcases List.mem_cons.mp mem with e | mem
  · exact absurd e (by decide)
  · exact absurd (mem_oneOf_star.mp hr '\n' mem) (by decide)

/-- Comments and blanks hold no newline. -/
theorem newline_mem_gap {gap : List Char} (h : IsGap gap) : '\n' ∈ gap ↔ JoinsLines gap := by
  refine ⟨fun mem => ?_, ?_⟩
  · obtain ⟨parts, rfl, each⟩ := Language.mem_kstar.mp h
    obtain ⟨k, hk, within⟩ := List.mem_flatten.mp mem
    obtain ⟨front, back, rfl⟩ := List.append_of_mem hk
    refine ⟨front.flatten, k, back.flatten, by rw [List.flatten_append, List.flatten_cons],
      Language.mem_kstar.mpr ⟨front, rfl, fun y hy => each y (List.mem_append_left _ hy)⟩, ?_,
      Language.mem_kstar.mpr ⟨back, rfl, fun y hy =>
        each y (List.mem_append_right _ (List.mem_cons_of_mem _ hy))⟩⟩
    rcases each k hk with (blanks | comment) | continuation
    · exact absurd within (newline_not_mem_blanks blanks)
    · exact absurd within (newline_not_mem_comment comment)
    · exact continuation
  · rintro ⟨a, k, b, rfl, _, hk, _⟩
    exact List.mem_append_right a (List.mem_append_left b (newline_mem_continuation hk))

/-! ## Items -/

/-- The text of the tiles. -/
def Tile.joined (tiles : List Tile) : List Char :=
  tiles.flatMap fun t => t.gap ++ t.text

/-- The lines of the tiles, from the line that the first of them has. -/
def Tile.lines (line : Nat) : List Tile → List Nat
  | [] => []
  | t :: ts => line :: Tile.lines (line + (t.gap ++ t.text).count '\n') ts

theorem lines_at (t : Tile) (back : List Tile) : ∀ (front : List Tile) (line : Nat),
    (Tile.lines line (front ++ t :: back))[front.length]? =
      some (line + (Tile.joined front).count '\n')
  | [], line => rfl
  | u :: front, line => by
    have behind := lines_at t back front (line + (u.gap ++ u.text).count '\n')
    have newlines : (Tile.joined (u :: front)).count '\n' =
        (u.gap ++ u.text).count '\n' + (Tile.joined front).count '\n' := by
      rw [Tile.joined, List.flatMap_cons]
      exact List.count_append
    rw [List.cons_append, Tile.lines, List.length_cons, List.getElem?_cons_succ, behind, newlines,
      Nat.add_assoc]

theorem le_of_mem_lines : ∀ {tiles : List Tile} {line n : Nat}, n ∈ Tile.lines line tiles → line ≤ n
  | t :: ts, line, n, h => by
    rcases List.mem_cons.mp h with rfl | h
    · exact Nat.le_refl _
    · exact Nat.le_trans (Nat.le_add_right _ _) (le_of_mem_lines h)

theorem lines_pairwise : ∀ (tiles : List Tile) (line : Nat),
    (Tile.lines line tiles).Pairwise (· ≤ ·)
  | [], _ => .nil
  | t :: ts, line => by
    refine .cons (fun n hn => ?_) (lines_pairwise ts _)
    exact Nat.le_trans (Nat.le_add_right _ _) (le_of_mem_lines hn)

namespace TokenStream

/-- What the stream gives until it ends, and with which lines. -/
inductive Numbered : TokenStream → List Tile → List Nat → Prop where
  | done {s s' : TokenStream} : s.next = (.ok none, s') → Numbered s [] []
  | tile {s s' : TokenStream} {line : Nat} {spaced : Bool} {t : Tile} {tiles : List Tile}
      {lines : List Nat} : s.next = (answer line spaced t.item, s') →
      s.rest = t.gap ++ (t.text ++ s'.rest) → Numbered s' tiles lines →
      Numbered s (t :: tiles) (line :: lines)

theorem next_answer {s s' : TokenStream} {line : Nat} {spaced : Bool} {i : Item}
    (unpushed : s.pushed = []) (h : s.next = (answer line spaced i, s')) :
    line = s.line ∧ s'.pushed = [] := by
  have given := s.gives_next
  rw [h] at given
  cases i with
  | token t =>
    cases given with
    | returned pushed => cases unpushed.symm.trans pushed
    | token _ after => exact ⟨rfl, after⟩
  | fault f =>
    cases given with
    | fault _ after => exact ⟨rfl, after⟩

theorem line_of_split {s s' : TokenStream} {w : List Char} (h : s.Onward s')
    (split : s.rest = w ++ s'.rest) : s'.line = s.line + w.count '\n' := by
  obtain ⟨v, hv, line⟩ := h
  rw [line, List.append_cancel_right (hv.symm.trans split)]

theorem Tiled.numbered {s : TokenStream} {tiles : List Tile} {last : List Char}
    (h : s.Tiled tiles last) (unpushed : s.pushed = []) :
    s.Numbered tiles (Tile.lines s.line tiles) := by
  induction h with
  | done ends _ => exact .done ends
  | @tile s s' line spaced t tiles last given split _ _ _ ih =>
    obtain ⟨rfl, unpushed'⟩ := next_answer unpushed given
    have onward := s.onward_next
    rw [given] at onward
    have behind := line_of_split onward (split.trans (List.append_assoc _ _ _).symm)
    have rest := ih unpushed'
    rw [behind] at rest
    exact .tile given split rest

/-! ## Any use of a stream -/

/-- The states of a stream of this text, whatever is asked of it and given back to it. -/
inductive Reached (source : String) : TokenStream → Prop where
  | start : Reached source (ofString source)
  | next {s : TokenStream} : Reached source s → Reached source s.next.2
  | peek {s : TokenStream} : Reached source s → Reached source s.peek.2
  | push {s : TokenStream} (l : Lexeme) : Reached source s → Reached source (s.push l)

theorem onward_peek (s : TokenStream) : s.Onward s.peek.2 := by
  have onward := s.onward_next
  unfold peek
  cases h : s.next with
  | mk a s' =>
    rw [h] at onward
    match a with
    | .ok none => exact onward
    | .ok (some l) => exact onward
    | .error e => exact onward

theorem Reached.onward {source : String} {s : TokenStream} (h : Reached source s) :
    (ofString source).Onward s := by
  induction h with
  | start => exact .refl _
  | next _ ih => exact ih.trans (onward_next _)
  | peek _ ih => exact ih.trans (onward_peek _)
  | push l _ ih => exact ih

theorem Reached.next_line {source : String} {s : TokenStream} (h : Reached source s)
    (unpushed : s.pushed = []) : ∃ before, source.toList = before ++ s.rest ∧
      ∀ line spaced i s', s.next = (answer line spaced i, s') → line = 1 + before.count '\n' := by
  obtain ⟨before, split, reached⟩ := h.onward
  refine ⟨before, split, fun line spaced i s' given => ?_⟩
  rw [(next_answer unpushed given).1, reached]
  rfl

theorem Reached.lineHere {source : String} {s : TokenStream} (h : Reached source s)
    (unpushed : s.pushed = []) (rest : s.rest = []) :
    s.lineHere = 1 + source.toList.count '\n' := by
  have line := line_of_split h.onward (w := source.toList) (by rw [rest, List.append_nil]; rfl)
  rw [TokenStream.lineHere, unpushed, line]
  rfl

/-! ## Errors -/

/-- All lines of the stream are among the first `n`, also those still to come. -/
structure Within (n : Nat) (s : TokenStream) : Prop where
  first : 1 ≤ s.line
  last : s.line + s.rest.count '\n' ≤ n
  pushed : ∀ l ∈ s.pushed, 1 ≤ l.line ∧ l.line ≤ n

variable {n : Nat} {s : TokenStream}

theorem Within.here (h : Within n s) : 1 ≤ s.line ∧ s.line ≤ n := by
  have last := h.last
  exact ⟨h.first, by omega⟩

theorem Within.next (h : Within n s) : Within n s.next.2 := by
  obtain ⟨w, split, line⟩ := s.onward_next
  have first := h.first
  have last := h.last
  rw [split, List.count_append] at last
  refine ⟨by omega, by omega, ?_⟩
  have given := s.gives_next
  generalize s.next = answer at given
  cases given with
  | returned pushed => exact fun l hl => h.pushed l (pushed ▸ List.mem_cons_of_mem _ hl)
  | ended _ pushed _ | token _ pushed | fault _ pushed => exact pushed ▸ nofun

theorem Within.push (h : Within n s) {l : Lexeme} (range : 1 ≤ l.line ∧ l.line ≤ n) :
    Within n (s.push l) :=
  ⟨h.first, h.last, List.forall_mem_cons.mpr ⟨range, h.pushed⟩⟩

theorem Within.lineHere (h : Within n s) : 1 ≤ s.lineHere ∧ s.lineHere ≤ n := by
  obtain ⟨rest, line, pushed⟩ := s
  cases pushed with
  | nil => exact h.here
  | cons l ls => exact h.pushed l List.mem_cons_self

end TokenStream

open TokenStream (Within)

/-- A stream whose lines are among the first `n` corresponds to itself. -/
def Correspondence.within (n : Nat) : Correspondence where
  rel s s' := s = s' ∧ Within n s
  lexeme l l' := l = l' ∧ 1 ≤ l.line ∧ l.line ≤ n
  line l l' := l = l' ∧ 1 ≤ l ∧ l ≤ n
  halt e _ e' _ := e = e' ∧ 1 ≤ e.line ∧ e.line ≤ n
  alike same := same.1 ▸ .refl _
  atLine same := ⟨same.1 ▸ rfl, same.2⟩
  meets := by
    rintro s _ ⟨rfl, within⟩
    have after := within.next
    have given := s.gives_next
    generalize s.next = answer at after given
    cases given with
    | returned pushed =>
      exact .token ⟨rfl, within.pushed _ (pushed ▸ List.mem_cons_self)⟩ ⟨rfl, after⟩
    | ended => exact .ended ⟨rfl, after⟩
    | token => exact .token ⟨rfl, within.here⟩ ⟨rfl, after⟩
    | fault => exact .error ⟨rfl, within.here⟩
  pushes := by
    rintro s _ l _ ⟨rfl, within⟩ ⟨rfl, range⟩
    exact ⟨rfl, within.push range⟩
  lines := by
    rintro s _ ⟨rfl, within⟩
    exact .inl ⟨rfl, within.lineHere⟩
  fails fault _ _ _ same := ⟨by rw [same.1], same.2⟩

theorem error_line_within {source : String} {e : SyntaxError} {rest : Parser}
    (h : parseProgram source = .error e rest) :
    1 ≤ e.line ∧ e.line ≤ 1 + source.toList.count '\n' := by
  have gives := gives_iff_error.mpr ⟨rest, h⟩
  have within : Within (1 + source.toList.count '\n') (.ofString source) :=
    ⟨Nat.le_refl 1, Nat.le_refl _, nofun⟩
  have side : (Correspondence.within (1 + source.toList.count '\n')).Side (.ofString source)
      (.ofString source) := ⟨⟨rfl, within⟩, rfl⟩
  cases Correspondence.answers_program _ side gives gives with
  | error range => exact range.2

/-- An item has the line that the text in front of it comes to, up to the end of the item before
it, also if other tokens were put back and taken again in between. That is the line on which it
begins, unless lines are joined in the gap. At the end the line is that of the whole text, and an
error of the parser has a line up to there. -/
theorem line_numbers (source : String) :
    (∃ tiles last lines, (TokenStream.ofString source).Numbered tiles lines ∧
      source.toList = Tile.joined tiles ++ last ∧ lines.Pairwise (· ≤ ·) ∧
      ∀ front t back, tiles = front ++ t :: back → ∃ line, lines[front.length]? = some line ∧
        line = 1 + (Tile.joined front).count '\n' ∧ t.text ≠ [] ∧ IsGap t.gap ∧
        (line = 1 + (Tile.joined front ++ t.gap).count '\n' ↔ ¬JoinsLines t.gap)) ∧
    (∀ s, TokenStream.Reached source s → s.pushed = [] → ∃ before,
      source.toList = before ++ s.rest ∧ ∀ line spaced i s',
        s.next = (TokenStream.answer line spaced i, s') → line = 1 + before.count '\n') ∧
    (∀ s, TokenStream.Reached source s → ∀ s', s.next = (.ok none, s') →
      s'.pushed = [] ∧ s'.rest = []) ∧
    (∀ s, TokenStream.Reached source s → s.pushed = [] → s.rest = [] →
      s.lineHere = 1 + source.toList.count '\n') ∧
    ∀ e rest, parseProgram source = .error e rest →
      1 ≤ e.line ∧ e.line ≤ 1 + source.toList.count '\n' := by
  refine ⟨?_, fun s h => h.next_line, fun s _ s' => TokenStream.next_end_rest,
    fun s h => h.lineHere, fun e rest h => error_line_within h⟩
  obtain ⟨tiles, last, tiled⟩ := TokenStream.exists_tiled (s := .ofString source) rfl
  obtain ⟨whole, _, each⟩ := tiled.covers
  refine ⟨tiles, last, _, tiled.numbered rfl, whole, lines_pairwise tiles 1, ?_⟩
  rintro front t back rfl
  obtain ⟨gap, text⟩ := each t (List.mem_append_right front List.mem_cons_self)
  refine ⟨_, lines_at t back front 1, rfl, text, gap, ?_⟩
  rw [← newline_mem_gap gap, List.count_append, ← List.count_pos_iff]
  omega

/-- A token that begins on the second line counts for the first, with which that line is joined. -/
example : (TokenStream.ofString "a \\\n b").next.2.next.1 =
    .ok (some ⟨.name "b", 1, true⟩) := by cbv

end ObjectLang
