import ObjectLang.Proofs.Token.Longest
import ObjectLang.Proofs.Token.Shift

/-!
# Tiles of a text

The tokens and errors that a stream gives until it ends cover its text from the front to the
back, with nothing but gaps between them.
-/

namespace ObjectLang

open Scan

/-! ## Gaps -/

theorem gap_append {w g : List Char} (hg : IsGap g)
    (hw : w ∈ Pattern.blanks.language ∨ w ∈ Pattern.comment.language ∨
      w ∈ Pattern.continuation.language) : IsGap (w ++ g) :=
  append_mem_star (hw.elim (fun hw => .inl (.inl hw)) fun hw =>
    hw.elim (fun hw => .inl (.inr hw)) .inr) hg

theorem atItem_of {x : List Char} (blank : ∀ c ∈ x.head?, isBlank c = false)
    (hash : ∀ c ∈ x.head?, c ≠ '#') (line : ∀ r, x ≠ '\\' :: '\n' :: r)
    (carriage : ∀ r, x ≠ '\\' :: '\r' :: '\n' :: r) : AtItem x := by
  rintro v ⟨t, rfl⟩
  refine ⟨fun h => ?_, fun h => ?_, fun h => ?_⟩
  · obtain ⟨c, r, rfl, hc, _⟩ := mem_oneOf_mul.mp h
    rw [blank c rfl] at hc
    cases hc
  · obtain ⟨r, _, rfl⟩ := mem_exactly_mul.mp h
    exact hash '#' rfl rfl
  · rcases (Pattern.of_opening_backslash rfl h).2 with rfl | rfl
    · exact line t rfl
    · exact carriage t rfl

/-- Behind a comment there is the end of its line, or nothing. -/
theorem atItem_lineEnd (r : List Char) : AtItem (r.dropWhile fun c => decide (c ≠ '\n')) := by
  have front := front_dropWhile_line r
  refine atItem_of (fun c hc => front c hc ▸ rfl) (fun c hc => front c hc ▸ by decide) ?_ ?_
  · exact fun r' e => absurd (front '\\' (congrArg List.head? e)) (by decide)
  · exact fun r' e => absurd (front '\\' (congrArg List.head? e)) (by decide)

/-- What is skipped is a gap, and it is skipped as far as it goes. -/
theorem skip_gap (line : Nat) (b : Bool) (l : List Char) :
    ∃ g, IsGap g ∧ l = g ++ (skip line b l).rest ∧ AtItem (skip line b l).rest := by
  have step : ∀ {w r : List Char} {gap : Gap},
      (w ∈ Pattern.blanks.language ∨ w ∈ Pattern.comment.language ∨
        w ∈ Pattern.continuation.language) →
      (∃ g, IsGap g ∧ r = g ++ gap.rest ∧ AtItem gap.rest) →
      ∃ g, IsGap g ∧ w ++ r = g ++ gap.rest ∧ AtItem gap.rest := by
    rintro w r gap hw ⟨g, hg, e, at_item⟩
    exact ⟨w ++ g, gap_append hg hw, by rw [List.append_assoc, ← e], at_item⟩
  fun_induction skip line b l with
  | case1 line b r ih => exact step (.inl (blank_mem (c := ' ') rfl)) ih
  | case2 line b r ih => exact step (.inl (blank_mem (c := '\t') rfl)) ih
  | case3 line b r ih => exact step (.inl (blank_mem (c := '\r') rfl)) ih
  | case4 line b r ih => exact step (.inl (blank_mem (c := '\x0c') rfl)) ih
  | case5 line b r ih => exact step (.inr (.inr (continuation_mem (.inl rfl)))) ih
  | case6 line b r ih => exact step (.inr (.inr (continuation_mem (.inr rfl)))) ih
  | case7 line b r =>
    have free := not_mem_takeWhile (p := fun c => decide (c ≠ '\n')) (x := '\n') (by decide) r
    refine ⟨_, gap_append (Language.nil_mem_kstar _) (.inr (.inl (comment_mem free))), ?_,
      atItem_lineEnd r⟩
    rw [List.append_nil, List.cons_append, List.takeWhile_append_dropWhile]
  | case8 line b r space tab return' feed line' carriage comment =>
    refine ⟨[], Language.nil_mem_kstar _, rfl, atItem_of (fun c hc => ?_) (fun c hc e => ?_)
      line' carriage⟩
    · obtain ⟨r', rfl⟩ := List.head?_eq_some_iff.mp hc
      rw [← Bool.not_eq_true]
      intro blank
      simp only [isBlank, Bool.or_eq_true, decide_eq_true_eq] at blank
      rcases blank with ((rfl | rfl) | rfl) | rfl
      · exact space r' rfl
      · exact tab r' rfl
      · exact return' r' rfl
      · exact feed r' rfl
    · obtain ⟨r', rfl⟩ := List.head?_eq_some_iff.mp hc
      exact comment r' (by rw [e])

/-! ## Streams -/

/-- A gap, the text behind it, and what this is read as. -/
structure Tile where
  gap : List Char
  text : List Char
  item : Item

namespace TokenStream

/-- What the stream gives until it ends, with the texts that it is given for; behind the last of
them stands only the gap `last`. -/
inductive Tiled : TokenStream → List Tile → (last : List Char) → Prop
  | done {s s' : TokenStream} : s.next = (.ok none, s') → IsGap s.rest → Tiled s [] s.rest
  | tile {s s' : TokenStream} {line : Nat} {spaced : Bool} {t : Tile} {tiles : List Tile}
      {last : List Char} : s.next = (answer line spaced t.item, s') →
      s.rest = t.gap ++ (t.text ++ s'.rest) → IsGap t.gap →
      t.item.Covers (t.text ++ s'.rest) t.text → Tiled s' tiles last →
      Tiled s (t :: tiles) last

theorem next_unpushed {s : TokenStream} (h : s.pushed = []) : s.next = s.read := by
  rw [next, h]

/-- Each item leaves less text behind it, so the stream comes to its end. -/
theorem exists_tiled {s : TokenStream} (h : s.pushed = []) : ∃ tiles last, s.Tiled tiles last := by
  generalize hn : s.rest.length = n
  induction n using Nat.strongRecOn generalizing s with
  | ind n ih =>
    obtain ⟨gap, hgap, split, here⟩ := skip_gap s.line false s.rest
    cases hr : (skip s.line false s.rest).rest with
    | nil =>
      rw [hr, List.append_nil] at split
      exact ⟨[], _, .done ((next_unpushed h).trans (read_end hr)) (split ▸ hgap)⟩
    | cons c r =>
      rw [hr] at split here
      obtain ⟨w, split', covers⟩ := itemAt_covers here
      rw [split'] at split covers
      have less : (itemAt c r).2.length < n := by
        have pos := List.length_pos_iff.mpr covers.ne_nil
        rw [← hn, split, List.length_append, List.length_append]
        omega
      have next := (next_unpushed h).trans (read_item hr)
      obtain ⟨tiles, last, rest⟩ := ih _ less (s := { s with
        rest := (itemAt c r).2
        line := lineAfter (skip s.line false s.rest).line (itemAt c r).1 }) h rfl
      exact ⟨_, last, .tile (t := ⟨gap, w, (itemAt c r).1⟩) next split hgap covers rest⟩

theorem Tiled.covers {s : TokenStream} {tiles : List Tile} {last : List Char}
    (h : s.Tiled tiles last) :
    s.rest = (tiles.flatMap fun t => t.gap ++ t.text) ++ last ∧ IsGap last ∧
      ∀ t ∈ tiles, IsGap t.gap ∧ t.text ≠ [] := by
  induction h with
  | done _ hg => exact ⟨rfl, hg, nofun⟩
  | tile _ split hg covers _ ih =>
    obtain ⟨rest, hlast, all⟩ := ih
    refine ⟨?_, hlast, List.forall_mem_cons.mpr ⟨⟨hg, covers.ne_nil⟩, all⟩⟩
    rw [split, rest, List.flatMap_cons, List.append_assoc, List.append_assoc]

end TokenStream

/-! ## Programs -/

/-- Asked for tokens until it gives none, the stream of a source text comes to an end. What it
gave covers texts one behind the other, none of them empty, with only gaps between them: each is
the longest match of a pattern at its place, and an error only where there is no match, or where
the match is an integer out of range. -/
theorem tokens_tile (source : String) :
    ∃ tiles last, (TokenStream.ofString source).Tiled tiles last ∧
      source.toList = (tiles.flatMap fun t => t.gap ++ t.text) ++ last ∧ IsGap last ∧
      ∀ t ∈ tiles, IsGap t.gap ∧ t.text ≠ [] := by
  obtain ⟨tiles, last, h⟩ := TokenStream.exists_tiled (s := .ofString source) rfl
  exact ⟨tiles, last, h, h.covers⟩

end ObjectLang
