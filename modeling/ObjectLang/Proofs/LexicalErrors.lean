import ObjectLang.Proofs.Parse.Correspondence

/-!
# Lexical errors

A parser that comes to the end has read everything in front of it, and so the text holds no lexical
error. One that stops at a lexical error, or before it, does so for the tokens in front of it alone.
Every command and every expression takes a token, which is why parsing ends.
-/

namespace ObjectLang

open Parse Grammar

/-! ## The first error of a stream -/

namespace TokenStream

/-- The stream gives these tokens, and then the error. -/
def Breaks : TokenStream → List Lexeme → SyntaxError → Prop
  | s, [], e => ∃ s', s.next = (.error e, s')
  | s, l :: ls, e => ∃ s', s.next = (.ok (some l), s') ∧ s'.Breaks ls e

variable {s s' : TokenStream} {ls ls' : List Lexeme} {e : SyntaxError}

theorem lists_or_breaks (s : TokenStream) :
    (∃ ls, s.Lists ls) ∨ ∃ ls e, s.Breaks ls e := by
  generalize hn : s.size = n
  induction n using Nat.strongRecOn generalizing s with
  | ind n ih =>
    have less := s.size_next
    cases h : s.next with
    | mk a s' =>
      rw [h] at less
      match a with
      | .ok none => exact .inl ⟨[], s', h⟩
      | .error e => exact .inr ⟨[], e, s', h⟩
      | .ok (some l) =>
        rcases ih s'.size (by rw [← hn]; exact less) s' rfl with ⟨ls, lists⟩ | ⟨ls, e, breaks⟩
        · exact .inl ⟨l :: ls, s', h, lists⟩
        · exact .inr ⟨l :: ls, e, s', h, breaks⟩

theorem Lists.not_breaks : ∀ {ls ls' : List Lexeme} {s : TokenStream}, s.Lists ls →
    ¬s.Breaks ls' e
  | [], [], _, ⟨_, h⟩, ⟨_, h'⟩ => by cases h.symm.trans h'
  | [], _ :: _, _, ⟨_, h⟩, ⟨_, h', _⟩ => by cases h.symm.trans h'
  | _ :: _, [], _, ⟨_, h, _⟩, ⟨_, h'⟩ => by cases h.symm.trans h'
  | _ :: _, _ :: _, _, ⟨_, h, rest⟩, ⟨_, h', rest'⟩ => by
    cases h.symm.trans h'
    exact rest.not_breaks rest'

theorem Leads.lists (ended : s'.next = (.ok none, s')) : ∀ {ls : List Lexeme} {s : TokenStream},
    s.Leads ls s' → s.Lists ls
  | [], _, h => ⟨s', Eq.trans h ended⟩
  | _ :: _, _, ⟨u, given, rest⟩ => ⟨u, given, rest.lists ended⟩

end TokenStream

open TokenStream (Breaks)

/-! ## The same tokens up to an error -/

/-- Streams with the same tokens in front of the errors `e` and `f`. -/
def Correspondence.upTo (e f : SyntaxError) : Correspondence where
  rel s s' := ∃ ls, s.Breaks ls e ∧ s'.Breaks ls f
  lexeme l l' := l = l'
  line l l' := l = l'
  halt a _ b _ := a = b ∨ (a = e ∧ b = f)
  alike same := same ▸ .refl _
  atLine same := same ▸ rfl
  meets := by
    rintro s s' ⟨ls, breaks, breaks'⟩
    cases ls with
    | nil =>
      obtain ⟨u, h⟩ := breaks
      obtain ⟨u', h'⟩ := breaks'
      rw [h, h']
      exact .error (.inr ⟨rfl, rfl⟩)
    | cons l ls =>
      obtain ⟨u, h, rest⟩ := breaks
      obtain ⟨u', h', rest'⟩ := breaks'
      rw [h, h']
      exact .token rfl ⟨ls, rest, rest'⟩
  pushes := by
    rintro s s' l _ ⟨ls, breaks, breaks'⟩ rfl
    exact ⟨l :: ls, ⟨s, rfl, breaks⟩, s', rfl, breaks'⟩
  lines := by
    rintro s s' ⟨ls, breaks, breaks'⟩
    cases ls with
    | nil =>
      obtain ⟨u, h⟩ := breaks
      obtain ⟨u', h'⟩ := breaks'
      exact .inr ⟨⟨e, u, h⟩, f, u', h'⟩
    | cons l ls =>
      obtain ⟨u, h, _⟩ := breaks
      obtain ⟨u', h', _⟩ := breaks'
      exact .inl ((TokenStream.lineHere_next h).trans (TokenStream.lineHere_next h').symm)
  fails fault _ _ _ same := .inl (by rw [same])

/-! ## The end of a program -/

theorem collect_last {α : Type} {step : Parse (Option α)} {q : Parser} : ∀ {n : Nat} {as : List α}
    {p : Parser}, collect step n p = .ok as q → ∃ u, step u = .ok none q
  | 0, _, _, h => nomatch h
  | n + 1, as, p, h => by
    obtain ⟨o, u, first, h⟩ := exists_of_bind_ok h
    cases o with
    | none => cases h; exact ⟨p, first⟩
    | some a =>
      obtain ⟨_, _, rest, h⟩ := exists_of_bind_ok h
      cases h
      exact collect_last rest

theorem nextCommand_end {fuel : Nat} {p q : Parser} (h : command? fuel p = .ok none q) :
    q.tokens.next = (.ok none, q.tokens) := by
  obtain ⟨_, u, _, h⟩ := exists_of_bind_ok h
  obtain ⟨o, v, looked, h⟩ := exists_of_bind_ok h
  cases o with
  | none =>
    cases h
    have faces : peek q = .ok none q := faces_of_peek looked
    cases hn : q.tokens.next with
    | mk a s =>
      match a with
      | .ok none =>
        have same := (peek_end hn).symm.trans faces
        rw [← congrArg Parser.tokens (Parsed.ok.inj same).2]
      | .ok (some l) => cases (peek_token hn).symm.trans faces
      | .error e => cases (peek_error hn).symm.trans faces
  | some l =>
    obtain ⟨_, _, _, h⟩ := exists_of_bind_ok h
    cases h

/-- What a program has been read from, token by token. -/
theorem program_reads {p q : Parser} {cs : List Expr} (h : p.program = .ok cs q) :
    q.tokens.next = (.ok none, q.tokens) ∧
      ∃ ls, cs.length ≤ ls.length ∧ p.tokens.Leads ls q.tokens := by
  obtain ⟨u, last⟩ := collect_last h
  refine ⟨nextCommand_end last, ?_⟩
  rcases advances_program p.fuel p (Nat.lt_succ_self _) with ⟨cs', q', ok, moves⟩ | ⟨e, q', bad, _⟩
  · cases h.symm.trans ok
    exact moves.tokens
  · cases h.symm.trans bad

/-- A call for the next command or expression ends, and has taken a token if it gives one. -/
def Progresses (p : Parser) (result : Parsed (Option Expr)) : Prop :=
  (∃ o q, result = .ok o q ∧ (o.isSome → ∃ l ls, p.tokens.Leads (l :: ls) q.tokens ∧
      q.tokens.size < p.tokens.size)) ∨
    ∃ e q, result = .error e q

theorem progresses_of_advances {n : Nat} {x : Parse (Option Expr)} {p : Parser}
    (h : Advances n (fun b => b.isSome.toNat) x) (hp : p.tokens.size < n) :
    Progresses p (x p) := by
  rcases h p hp with ⟨o, q, ok, moves⟩ | ⟨e, q, bad, _⟩
  · refine .inl ⟨o, q, ok, fun some => ?_⟩
    obtain ⟨ls, enough, leads⟩ := moves.tokens
    have size := moves.size
    simp only [some, Bool.toNat_true] at enough size
    cases ls with
    | nil => exact absurd enough (by decide)
    | cons l ls => exact ⟨l, ls, leads, size⟩
  · exact .inr ⟨e, q, bad⟩

theorem progresses_command (p : Parser) : Progresses p p.command :=
  progresses_of_advances (x := command? p.fuel) (advances_nextCommand p.fuel) (Nat.lt_succ_self _)

theorem progresses_expression (p : Parser) : Progresses p p.expression :=
  progresses_of_advances (x := expression? p.fuel) (advances_nextExpression p.fuel)
    (Nat.lt_succ_self _)

/-! ## Programs -/

theorem parse_breaks {source : String} {ls : List Lexeme} {e : SyntaxError}
    (h : (TokenStream.ofString source).Breaks ls e) :
    ∃ e' rest, parseProgram source = .error e' rest ∧ (e' = e ∨ ∀ source' f,
      (TokenStream.ofString source').Breaks ls f →
      ∃ rest', parseProgram source' = .error e' rest') := by
  have refused : ∀ {source ls e}, (TokenStream.ofString source).Breaks ls e →
      ∃ e', (Parser.ofString source).Gives (.error e') := by
    intro source ls e breaks
    rcases parseProgram_finishes source with ⟨cs, rest, ok⟩ | ⟨e', rest, bad⟩
    · obtain ⟨ended, ls', _, leads⟩ := program_reads ok
      exact absurd breaks (leads.lists ended).not_breaks
    · exact ⟨e', gives_iff_error.mpr ⟨rest, bad⟩⟩
  obtain ⟨e', gives⟩ := refused h
  obtain ⟨rest, bad⟩ := gives_iff_error.mp gives
  refine ⟨e', rest, bad, ?_⟩
  by_cases first : e' = e
  · exact .inl first
  refine .inr fun source' f breaks => ?_
  obtain ⟨f', gives'⟩ := refused breaks
  have side : (Correspondence.upTo e f).Side (.ofString source) (.ofString source') :=
    ⟨⟨ls, h, breaks⟩, rfl⟩
  have answers := Correspondence.answers_program _ side gives gives'
  have same : e' = f' := by
    cases answers with
    | error halt => exact halt.resolve_right fun lexical => first lexical.1
  rw [← same] at gives'
  exact gives_iff_error.mp gives'

/-- A program that is parsed has been read to its end without an error, each command from a token
of its own at least. Where the text has a lexical error, parsing fails: with the first such error,
or as it does for all texts with the same tokens in front of one. Parsing always ends, because the
next command, like the next expression, takes a token. -/
theorem parse_reads_all (source : String) :
    (∀ cs rest, parseProgram source = .ok cs rest → ∃ ls,
      (TokenStream.ofString source).Lists ls ∧ cs.length ≤ ls.length ∧
      (TokenStream.ofString source).Leads ls rest.tokens ∧
      rest.tokens.pushed = [] ∧ rest.tokens.rest = []) ∧
    (∀ ls e, (TokenStream.ofString source).Breaks ls e →
      ∃ e' rest, parseProgram source = .error e' rest ∧ (e' = e ∨ ∀ source' f,
        (TokenStream.ofString source').Breaks ls f →
        ∃ rest', parseProgram source' = .error e' rest')) ∧
    ((∃ ls, (TokenStream.ofString source).Lists ls) ∨
      ∃ ls e, (TokenStream.ofString source).Breaks ls e) ∧
    (∀ p : Parser, Progresses p p.command ∧ Progresses p p.expression) ∧
    ((∃ cs rest, parseProgram source = .ok cs rest) ∨
      ∃ e rest, parseProgram source = .error e rest) := by
  refine ⟨fun cs rest ok => ?_, fun ls e => parse_breaks, TokenStream.lists_or_breaks _,
    fun p => ⟨progresses_command p, progresses_expression p⟩, parseProgram_finishes source⟩
  obtain ⟨ended, ls, enough, leads⟩ := program_reads ok
  exact ⟨ls, leads.lists ended, enough, leads, TokenStream.next_end_rest ended⟩

/-- The bracket is met before the character that begins no token. -/
example : (TokenStream.ofString ") $").Breaks [⟨.fixed .rparen, 1, false⟩] ⟨.unexpected "$", 1⟩ ∧
    (parseProgram ") $").answer = some (.error ⟨.unexpected ")", 1⟩) :=
  ⟨⟨_, rfl, _, rfl⟩, by cbv⟩

end ObjectLang
