import ObjectLang.Proofs.Token.LineEnd
import ObjectLang.Proofs.Token.Reading

/-!
# Streams within longer texts

The text of a stream may stand further down in a longer text. If it ends with the end of a
line, the stream of the longer text gives the same tokens up to that end.
-/

namespace ObjectLang

open Scan

def Lexeme.shift (k : Nat) (l : Lexeme) : Lexeme := { l with line := l.line + k }

def SyntaxError.shift (k : Nat) (e : SyntaxError) : SyntaxError := { e with line := e.line + k }

@[simp] theorem Lexeme.token_shift (k : Nat) (l : Lexeme) : (l.shift k).token = l.token := rfl

namespace TokenStream

/-! ## What reading gives -/

/-- What asking for a token gives. -/
abbrev Answer := Except SyntaxError (Option Lexeme)

def Answer.shift (k : Nat) : Answer → Answer
  | .ok l => .ok (l.map (Lexeme.shift k))
  | .error e => .error (e.shift k)

def answer (line : Nat) (spaced : Bool) : Item → Answer
  | .token t => .ok (some ⟨t, line, spaced⟩)
  | .fault f => .error ⟨f, line⟩

theorem answer_add (line k : Nat) (spaced : Bool) (i : Item) :
    answer (line + k) spaced i = (answer line spaced i).shift k := by
  cases i <;> rfl

theorem lineAfter_add (line k : Nat) (i : Item) :
    lineAfter (line + k) i = lineAfter line i + k := by
  unfold lineAfter
  split
  · exact Nat.add_right_comm line k 1
  · rfl

theorem read_item {s : TokenStream} {c : Char} {r : List Char}
    (h : (skip s.line false s.rest).rest = c :: r) :
    s.read = (answer s.line (skip s.line false s.rest).skipped (itemAt c r).1,
      { s with
        rest := (itemAt c r).2
        line := lineAfter (skip s.line false s.rest).line (itemAt c r).1 }) := by
  unfold read
  simp only [h]
  cases itemAt c r with
  | mk item after => cases item <;> rfl

/-- What a stream gives next: a token that was put back, the end, or an item of its text. -/
inductive Gives (s : TokenStream) : Answer × TokenStream → Prop where
  | returned {l : Lexeme} {ls : List Lexeme} : s.pushed = l :: ls →
      Gives s (.ok (some l), { s with pushed := ls })
  | ended {s' : TokenStream} : s.pushed = [] → s'.pushed = [] → s'.rest = [] →
      Gives s (.ok none, s')
  | token {s' : TokenStream} {t : Token} {spaced : Bool} : s.pushed = [] → s'.pushed = [] →
      Gives s (.ok (some ⟨t, s.line, spaced⟩), s')
  | fault {s' : TokenStream} {f : SyntaxFault} : s.pushed = [] → s'.pushed = [] →
      Gives s (.error ⟨f, s.line⟩, s')

theorem gives_next (s : TokenStream) : s.Gives s.next := by
  obtain ⟨rest, line, pushed⟩ := s
  cases pushed with
  | cons l ls => exact .returned rfl
  | nil =>
    change Gives _ (TokenStream.read _)
    cases hr : (skip line false rest).rest with
    | nil =>
      rw [read_end hr]
      exact .ended rfl rfl rfl
    | cons c r =>
      rw [read_item hr]
      cases (itemAt c r).1 with
      | token t => exact .token rfl rfl
      | fault f => exact .fault rfl rfl

/-- A token has the line that reading has reached in front of it. -/
theorem lineHere_next {s s' : TokenStream} {l : Lexeme} (h : s.next = (.ok (some l), s')) :
    s.lineHere = l.line := by
  have given := s.gives_next
  rw [h] at given
  obtain ⟨rest, line, pushed⟩ := s
  cases given with
  | returned same => cases same; rfl
  | token same _ => cases same; rfl

theorem next_end_rest {s s' : TokenStream} (h : s.next = (.ok none, s')) :
    s'.pushed = [] ∧ s'.rest = [] := by
  have given := s.gives_next
  rw [h] at given
  cases given with
  | ended _ pushed rest => exact ⟨pushed, rest⟩

/-! ## Streams in step -/

/-- The stream `k` lines further down and with the text `t` behind it. -/
def shift (k : Nat) (t : List Char) (s : TokenStream) : TokenStream :=
  ⟨s.rest ++ t, s.line + k, s.pushed.map (Lexeme.shift k)⟩

/-- If a text `t` follows, the last token in front of it is or was the end of a line. -/
def Closed (t : List Char) (s : TokenStream) : Prop :=
  t = [] ∨ EndsLine s.rest ∨ (s.rest = [] ∧ ∀ l ∈ s.pushed.getLast?, l.token = .fixed .newline)

/-- The tokens in front of the text `t` are used up, and those of `t` come next. -/
structure Spent (t : List Char) (s : TokenStream) : Prop where
  more : t ≠ []
  rest : s.rest = []
  pushed : s.pushed = []

/-- What a stream gives, when a stream of a longer text gives the same. -/
structure InStep (k : Nat) (t : List Char) (r r' : Answer × TokenStream) : Prop where
  same : r' = (r.1.shift k, r.2.shift k t)
  closed : Closed t r.2
  spent : Spent t r.2 → ∃ l, r.1 = .ok (some l) ∧ l.token = .fixed .newline

section
variable {t : List Char} {s : TokenStream}

theorem Spent.next (h : Spent t s) : s.next = (.ok none, s) := by
  obtain ⟨rest, line, pushed⟩ := s
  obtain ⟨_, rfl, rfl⟩ := h
  rfl

theorem not_spent_nil : ¬Spent [] s := fun h => h.more rfl

theorem not_endsLine_nil : ¬EndsLine [] := by
  intro h
  cases h.mem_rest 0 false

theorem inStep_read_nil (k : Nat) : InStep k [] s.read (s.shift k []).read := by
  have hs : skip (s.shift k []).line false (s.shift k []).rest =
      { skip s.line false s.rest with line := (skip s.line false s.rest).line + k } := by
    rw [shift, List.append_nil, skip_add]
  cases hr : (skip s.line false s.rest).rest with
  | nil =>
    rw [read_end hr, read_end (by rw [hs]; exact hr), hs]
    exact ⟨rfl, .inl rfl, fun h => absurd h not_spent_nil⟩
  | cons c r =>
    rw [read_item hr, read_item (by rw [hs]; exact hr), hs]
    refine ⟨?_, .inl rfl, fun h => absurd h not_spent_nil⟩
    simp only [shift, answer_add, lineAfter_add, List.append_nil]

theorem inStep_read_line (k : Nat) (hp : s.pushed = []) (he : EndsLine s.rest) :
    InStep k t s.read (s.shift k t).read := by
  have hn := he.mem_rest s.line false
  have hs : skip (s.shift k t).line false (s.shift k t).rest =
      ⟨(skip s.line false s.rest).rest ++ t, (skip s.line false s.rest).line + k,
        (skip s.line false s.rest).skipped⟩ := by
    rw [shift, skip_add, skip_append_line s.line false s.rest t hn]
  obtain ⟨c, r, hr, behind⟩ := he.item s.line false
  rw [hr] at hn hs
  rw [read_item hr, read_item (c := c) (r := r ++ t) (by rw [hs]; rfl), hs, itemAt_append_line hn t]
  refine ⟨?_, ?_, fun spent => ?_⟩
  · rw [shift, answer_add, lineAfter_add, shift]
  · rcases behind with h | h
    · exact .inr (.inl h)
    · rw [h, hp]
      exact .inr (.inr ⟨rfl, nofun⟩)
  · rcases behind with h | h
    · exact absurd (spent.rest ▸ h) not_endsLine_nil
    · rw [h]
      exact ⟨_, rfl, rfl⟩

theorem inStep_next (k : Nat) (hc : Closed t s) (hs : ¬Spent t s) :
    InStep k t s.next (s.shift k t).next := by
  obtain ⟨rest, line, pushed⟩ := s
  cases pushed with
  | nil =>
    rcases hc with rfl | he | ⟨hr, _⟩
    · exact inStep_read_nil k
    · exact inStep_read_line k rfl he
    -- Nothing is left of the text, so it is used up, unless no text follows.
    · by_cases ht : t = []
      · subst ht
        exact inStep_read_nil k
      · exact absurd ⟨ht, hr, rfl⟩ hs
  | cons l ls =>
    refine ⟨rfl, ?_, fun spent => ?_⟩
    · refine hc.imp_right fun hc => hc.imp_right fun ⟨hr, hl⟩ => ⟨hr, fun l' hl' => hl l' ?_⟩
      have last : ls.getLast? = some l' := hl'
      rw [List.getLast?_cons, last]
      rfl
    · obtain ⟨more, hr, hp⟩ := spent
      cases hp
      rcases hc with rfl | he | ⟨_, hl⟩
      · exact absurd rfl more
      · exact absurd (hr ▸ he) not_endsLine_nil
      · exact ⟨l, rfl, hl l rfl⟩

theorem lineHere_shift (k : Nat) (t : List Char) (s : TokenStream) :
    (s.shift k t).lineHere = s.lineHere + k := by
  obtain ⟨rest, line, pushed⟩ := s
  cases pushed <;> rfl

theorem Closed.push {l : Lexeme} (h : Closed t s) (hl : Spent t s → l.token = .fixed .newline) :
    Closed t (s.push l) := by
  obtain ⟨rest, line, pushed⟩ := s
  rcases h with h | h | ⟨hr, hp⟩
  · exact .inl h
  · exact .inr (.inl h)
  · by_cases ht : t = []
    · exact .inl ht
    · refine .inr (.inr ⟨hr, fun l' hl' => ?_⟩)
      cases pushed with
      | nil =>
        cases hl'
        exact hl ⟨ht, hr, rfl⟩
      | cons m ls => exact hp l' hl'

theorem not_spent_push (l : Lexeme) : ¬Spent t (s.push l) := fun h => List.cons_ne_nil _ _ h.pushed

end

end TokenStream

end ObjectLang
