import Mathlib
import ObjectLang.Proofs.Parse.Program

/-!
# Parsing piece by piece

A text that ends with the end of a line can be parsed by itself: its commands come first in
every longer text, and what follows is parsed as if it stood alone. An error that is not about
a missing token is there to stay.
-/

namespace ObjectLang

open Parse Grammar
open TokenStream (Closed Spent)

namespace TokenStream

variable {t : List Char} {s : TokenStream}

theorem shift_zero (a : Answer) : Answer.shift 0 a = a := by
  match a with
  | .ok none | .ok (some l) | .error e => rfl

/-- Something comes before the text `t`. -/
theorem next_ne_none (ht : t ≠ []) (hc : Closed t s) (hs : ¬Spent t s) : s.next.1 ≠ .ok none := by
  obtain ⟨rest, line, pushed⟩ := s
  cases pushed with
  | cons l ls => exact nofun
  | nil =>
    rcases hc with h | he | ⟨hr, _⟩
    · exact absurd h ht
    · obtain ⟨c, r, hr, _⟩ := he.item line false
      change (TokenStream.read _).1 ≠ _
      rw [read_item hr]
      cases (Scan.itemAt c r).1 <;> exact nofun
    · exact absurd ⟨ht, hr, rfl⟩ hs

end TokenStream

section
variable {k : Nat} {t : List Char} {p q : Parser}

/-! ## Commands -/

theorem endOfCommand_shift (hc : Closed t p.tokens) (hs : ¬Spent t p.tokens)
    (h : endOfCommand p = .ok () q) :
    Closed t q.tokens ∧ endOfCommand (p.shift k t) = .ok () (q.shift k t) := by
  obtain ⟨same, closed, spent⟩ := TokenStream.inStep_next k hc hs
  cases hn : p.tokens.next with
  | mk a s =>
    rw [hn] at same closed spent
    match a with
    | .ok none =>
      rw [endOfCommand, bind_ok (next_end hn)] at h
      cases h
      exact ⟨closed, bind_ok (next_end (p := p.shift k t) same)⟩
    | .ok (some l) =>
      rw [endOfCommand_token hn] at h
      rw [endOfCommand_token (p := p.shift k t) same, Lexeme.token_shift]
      split at h
      · next ends =>
        cases h
        refine ⟨closed.push fun hs => ?_, by rw [if_pos ends]; rfl⟩
        obtain ⟨l', e, hl⟩ := spent hs
        cases e
        exact hl
      · next stays =>
        split at h
        · next ends =>
          cases h
          exact ⟨closed, by rw [if_neg stays, if_pos ends]; rfl⟩
        · cases h
    | .error e =>
      rw [endOfCommand, bind_error (next_error hn)] at h
      cases h

theorem command_shift {r r' : Nested} {e : Expr} (hr : FollowsNested k t r r')
    (hc : Closed t p.tokens) (hs : ¬Spent t p.tokens) (h : Grammar.command r p = .ok e q) :
    Closed t q.tokens ∧ Grammar.command r' (p.shift k t) = .ok e (q.shift k t) := by
  have agree := (hr .expression).along p hc hs
  unfold Grammar.command at h ⊢
  cases hx : r .expression p with
  | error e' u => rw [bind_error hx] at h; cases h
  | unfinished =>
    change Parse.bind (r .expression) _ p = _ at h
    rw [Parse.bind, hx] at h
    cases h
  | ok e' u =>
    rw [hx] at agree
    obtain ⟨hc', hs', there⟩ := agree.resolve_right fun h => absurd h.1 (by decide)
    rw [bind_ok hx] at h
    rw [bind_ok there]
    cases he : endOfCommand u with
    | error e' v => rw [bind_error he] at h; cases h
    | unfinished =>
      change Parse.bind endOfCommand _ u = _ at h
      rw [Parse.bind, he] at h
      cases h
    | ok a v =>
      obtain ⟨hcv, there'⟩ := endOfCommand_shift (k := k) hc' hs' he
      rw [bind_ok he] at h
      cases h
      exact ⟨hcv, by rw [bind_ok there']; rfl⟩

/-! ## Programs -/

/-- The parser at the text `t`, when everything in front of it has been read. -/
def Parser.seam (t : List Char) (p : Parser) : Parser :=
  ⟨⟨t, p.tokens.line + p.tokens.rest.count '\n', []⟩, p.noDo⟩

theorem seam_eq (h : p.tokens.Onward q.tokens) (hn : q.noDo = p.noDo) : q.seam t = p.seam t := by
  obtain ⟨w, hw, line⟩ := h
  unfold Parser.seam
  rw [line, hw, List.count_append, hn, Nat.add_assoc]

/-- What is given when a text follows, where `r` is given in front of it and `r'` behind. -/
def Joined (r r' r'' : Except SyntaxError (List Expr)) : Prop :=
  match r with
  | .ok cs => r'' = r'.map (cs ++ ·)
  | .error e => e.fault.isMissing = false → r'' = .error e

theorem Joined.cons {r r' r'' : Except SyntaxError (List Expr)} (h : Joined r r' r'') (c : Expr) :
    Joined (r.map (c :: ·)) r' (r''.map (c :: ·)) := by
  cases r with
  | ok cs =>
    cases r' with
    | ok cs' => rw [show r'' = .ok (cs ++ cs') from h]; rfl
    | error e => rw [show r'' = .error e from h]; rfl
  | error e =>
    intro stays
    rw [h stays]
    rfl

/-- What the longer text gives is made up of what is given in front of `t` and behind it. -/
def Joins (t : List Char) (p : Parser) : Prop :=
  ∀ r r', p.Gives r → (p.seam t).Gives r' → ∃ r'', (p.shift 0 t).Gives r'' ∧ Joined r r' r''

variable {s : TokenStream} {l : Lexeme}

theorem joins_spent (hs : Spent t p.tokens) : Joins t p := by
  intro r r' hr hr'
  obtain rfl := (Parser.gives_end hs.next).unique hr
  obtain ⟨⟨rest, line, pushed⟩, noDo⟩ := p
  obtain ⟨_, rfl, rfl⟩ := hs
  exact ⟨r', hr', by cases r' <;> rfl⟩

theorem joins_error {e : SyntaxError} (h : p.tokens.next = (.error e, s))
    (h' : (p.shift 0 t).tokens.next = (.error e, s.shift 0 t)) : Joins t p := by
  intro r r' hr _
  obtain rfl := (Parser.gives_error h).unique hr
  exact ⟨_, Parser.gives_error h', fun _ => rfl⟩

theorem joins_separator (h : p.tokens.next = (.ok (some l), s))
    (h' : (p.shift 0 t).tokens.next = (.ok (some l), s.shift 0 t))
    (hl : separates l.token = true) (rest : Joins t { p with tokens := s }) : Joins t p := by
  intro r r' hr hr'
  have onward := p.tokens.onward_next
  rw [h] at onward
  rw [← seam_eq (q := { p with tokens := s }) onward rfl] at hr'
  obtain ⟨r₁, h₁⟩ := Parser.exists_gives { p with tokens := s }
  obtain rfl := (Parser.gives_separator h hl h₁).unique hr
  obtain ⟨r'', given, joined⟩ := rest r₁ r' h₁ hr'
  exact ⟨r'', Parser.gives_separator h' hl given, joined⟩

theorem joins_command (h : p.tokens.next = (.ok (some l), s))
    (h' : (p.shift 0 t).tokens.next = (.ok (some l), s.shift 0 t))
    (hl : separates l.token = false) (hc : Closed t (s.push l))
    (rest : ∀ q : Parser, q.tokens.size < p.tokens.size → Closed t q.tokens → Joins t q) :
    Joins t p := by
  intro r r' hr hr'
  have size := p.tokens.size_next
  have onward := p.tokens.onward_next
  rw [h] at size onward
  have hs := TokenStream.not_spent_push (t := t) (s := s) l
  have bound : (s.push l).size < s.size + 3 - 1 := by rw [TokenStream.size_push]; omega
  rcases advances_command (advances_parse (s.size + 3)) { p with tokens := s.push l } bound with
    ⟨e, q, hq, moves⟩ | ⟨e, q, hq, _⟩
  · have less := moves.size
    obtain ⟨r₁, h₁⟩ := q.exists_gives
    obtain rfl := (Parser.gives_command h hl hq h₁).unique hr
    obtain ⟨hcq, there⟩ := command_shift (follows_parse (Nat.le_refl _)) hc hs hq
    rw [← seam_eq (q := q) (onward.trans moves.onward) moves.noDo] at hr'
    have smaller : q.tokens.size < p.tokens.size := by
      rw [TokenStream.size_push] at less
      exact Nat.lt_of_lt_of_le (Nat.lt_of_succ_le less) size
    obtain ⟨r'', given, joined⟩ := rest q smaller hcq r₁ r' h₁ hr'
    exact ⟨_, Parser.gives_command h' hl there given, joined.cons e⟩
  · obtain rfl := (Parser.gives_badCommand h hl hq).unique hr
    have agree := (follows_command (k := 0) (t := t) (follows_parse
      (Nat.le_refl (s.size + 3)))).along { p with tokens := s.push l } hc hs
    rw [hq] at agree
    -- Either the error is there to stay, or it may be due to the end and nothing is claimed.
    rcases agree with there | ⟨_, missing⟩
    · exact ⟨_, Parser.gives_badCommand h' hl there, fun _ => rfl⟩
    · obtain ⟨r'', given⟩ := (p.shift 0 t).exists_gives
      exact ⟨r'', given, fun stays => absurd missing (by rw [stays]; decide)⟩

/-- By induction on the tokens that are left: the next one decides. -/
theorem joins_of_closed (ht : t ≠ []) (hc : Closed t p.tokens) : Joins t p := by
  generalize hsize : p.tokens.size = size
  induction size using Nat.strongRecOn generalizing p with
  | ind size ih =>
    subst hsize
    by_cases hs : Spent t p.tokens
    · exact joins_spent hs
    obtain ⟨same, closed, spent⟩ := TokenStream.inStep_next 0 hc hs
    have something := TokenStream.next_ne_none ht hc hs
    have less := p.tokens.size_next
    rw [TokenStream.shift_zero] at same
    cases hn : p.tokens.next with
    | mk a s =>
      rw [hn] at same closed spent something less
      match a with
      | .ok none => exact absurd rfl something
      | .error e => exact joins_error hn same
      | .ok (some l) =>
        cases hl : separates l.token with
        | true => exact joins_separator hn same hl (ih s.size less closed rfl)
        | false =>
          refine joins_command hn same hl (closed.push fun hs => ?_) fun q hq hcq => ih _ hq hcq rfl
          obtain ⟨l', e, hl'⟩ := spent hs
          cases e
          exact hl'

end

/-! ## Texts -/

/-- Further down a text gives the same, but for the lines. -/
theorem gives_shift {p : Parser} {r : Except SyntaxError (List Expr)} (h : p.Gives r) (k : Nat) :
    (p.shift k []).Gives (r.mapError (SyntaxError.shift k)) :=
  Parser.gives_of_loop p.fuel p.fuel
    ((follows_commands (Nat.le_refl p.fuel) (Nat.le_refl p.fuel)).answer h)

theorem joins_text {s : String} (h : EndsLine s.toList) (t : String)
    {r r' : Except SyntaxError (List Expr)} (hr : (Parser.ofString s).Gives r)
    (hr' : (Parser.ofString t).Gives r') : ∃ r'', (Parser.ofString (s ++ t)).Gives r'' ∧
      Joined r (r'.mapError (SyntaxError.shift (s.toList.count '\n'))) r'' := by
  have whole : (Parser.ofString s).shift 0 t.toList = Parser.ofString (s ++ t) := by
    simp only [Parser.ofString, TokenStream.ofString, String.toList_append]
    rfl
  have behind : (Parser.ofString s).seam t.toList =
      (Parser.ofString t).shift (s.toList.count '\n') [] := by
    simp only [Parser.seam, Parser.shift, TokenStream.shift, Parser.ofString, TokenStream.ofString,
      List.append_nil, List.map_nil]
  rw [← whole]
  -- With nothing behind it the longer text is the text itself.
  by_cases ht : t.toList = []
  · have none : (Parser.ofString t).Gives (.ok []) :=
      Parser.gives_end (s := ⟨[], 1, []⟩) (by rw [Parser.ofString, TokenStream.ofString, ht]; rfl)
    obtain rfl := none.unique hr'
    refine ⟨r, by rw [ht, Parser.shift_zero]; exact hr, ?_⟩
    cases r with
    | ok cs => exact congrArg Except.ok (List.append_nil cs).symm
    | error e => exact fun _ => rfl
  · refine joins_of_closed ht (.inr (.inl h)) r _ hr ?_
    rw [behind]
    exact gives_shift hr' _

theorem parse_pieces {s t : String} {p q : List Expr} {rest rest' : Parser}
    (h : EndsLine s.toList) (hs : parseProgram s = .ok p rest)
    (ht : parseProgram t = .ok q rest') :
    ∃ rest'', parseProgram (s ++ t) = .ok (p ++ q) rest'' := by
  obtain ⟨r, given, joined⟩ :=
    joins_text h t (gives_iff_ok.mpr ⟨rest, hs⟩) (gives_iff_ok.mpr ⟨rest', ht⟩)
  rw [show r = .ok (p ++ q) from joined] at given
  exact gives_iff_ok.mp given

/-- A text `s` that ends with the end of a line is parsed by itself: a text `t` behind it adds its
commands, or its error, which is then `t`'s own but for the line. Faults in `s` other than a
missing token stay, whatever `t` is. -/
theorem parse_append {s t : String} (h : EndsLine s.toList) :
    (∀ p rest, parseProgram s = .ok p rest →
      (∀ q rest', parseProgram t = .ok q rest' →
        ∃ rest'', parseProgram (s ++ t) = .ok (p ++ q) rest'') ∧
      ∀ e rest', parseProgram t = .error e rest' →
        ∃ rest'', parseProgram (s ++ t) = .error ⟨e.fault, e.line + s.toList.count '\n'⟩ rest'') ∧
    ∀ e rest, parseProgram s = .error e rest → e.fault.isMissing = false →
      ∃ rest', parseProgram (s ++ t) = .error e rest' := by
  refine ⟨fun p rest hp => ⟨fun q rest' hq => parse_pieces h hp hq, fun e rest' he => ?_⟩,
    fun e rest he stays => ?_⟩
  · obtain ⟨r, given, joined⟩ :=
      joins_text h t (gives_iff_ok.mpr ⟨rest, hp⟩) (gives_iff_error.mpr ⟨rest', he⟩)
    rw [show r = .error _ from joined] at given
    exact gives_iff_error.mp given
  · obtain ⟨r', hr'⟩ := (Parser.ofString t).exists_gives
    obtain ⟨r, given, joined⟩ := joins_text h t (gives_iff_error.mpr ⟨rest, he⟩) hr'
    rw [joined stays] at given
    exact gives_iff_error.mp given

/-- An error two lines behind a list that is spread over two lines. -/
theorem parse_append_list : EndsLine "x = [1,\n 2] # two\n".toList ∧
    (∃ rest, parseProgram "x = [1,\n 2] # two\n" =
      .ok [.assign "x" (.array [.literal (.integer 1), .literal (.integer 2)])] rest) ∧
    (∃ rest, parseProgram "x\n)" = .error ⟨.unexpected ")", 2⟩ rest) ∧
    ∃ rest, parseProgram ("x = [1,\n 2] # two\n" ++ "x\n)") = .error ⟨.unexpected ")", 4⟩ rest := by
  have ends : EndsLine "x = [1,\n 2] # two\n".toList := by decide +kernel
  have lines : "x = [1,\n 2] # two\n".toList.count '\n' = 2 := by decide +kernel
  have list : (parseProgram "x = [1,\n 2] # two\n").answer =
      some (.ok [.assign "x" (.array [.literal (.integer 1), .literal (.integer 2)])]) := by cbv
  have bracket : (parseProgram "x\n)").answer = some (.error ⟨.unexpected ")", 2⟩) := by cbv
  obtain ⟨rest, hp⟩ := gives_iff_ok.mp list
  obtain ⟨rest', he⟩ := gives_iff_error.mp bracket
  have whole := ((parse_append ends).1 _ _ hp).2 _ _ he
  rw [lines] at whole
  exact ⟨ends, ⟨rest, hp⟩, ⟨rest', he⟩, whole⟩

end ObjectLang
