import ObjectLang.Proofs.Parse.Longer
import ObjectLang.Proofs.Parse.Finishes

/-!
# Programs command by command

What a parser gives can be told from its next token: a separator is skipped, any other token
begins a command, and the commands behind it are those of the parser that the command leaves.
-/

namespace ObjectLang

open Parse Grammar

namespace Parse

variable {α β : Type} {x : Parse α} {f : α → Parse β} {p q : Parser} {s : TokenStream} {l : Lexeme}
  {e : SyntaxError}

theorem bind_ok {a : α} (h : x p = .ok a q) : (x >>= f) p = f a q := by
  change Parse.bind x f p = _
  rw [Parse.bind, h]

theorem bind_error (h : x p = .error e q) : (x >>= f) p = .error e q := by
  change Parse.bind x f p = _
  rw [Parse.bind, h]

/-! ## Looking at the next token -/

theorem next_token (h : p.tokens.next = (.ok (some l), s)) :
    next p = .ok (some l) { p with tokens := s } := by
  unfold next onTokens
  rw [h]

theorem next_end (h : p.tokens.next = (.ok none, s)) :
    next p = .ok none { p with tokens := s } := by
  unfold next onTokens
  rw [h]

theorem next_error (h : p.tokens.next = (.error e, s)) :
    next p = .error e { p with tokens := s } := by
  unfold next onTokens
  rw [h]

theorem peek_token (h : p.tokens.next = (.ok (some l), s)) :
    peek p = .ok (some l) { p with tokens := s.push l } := by
  unfold peek onTokens TokenStream.peek
  rw [h]

theorem peek_end (h : p.tokens.next = (.ok none, s)) :
    peek p = .ok none { p with tokens := s } := by
  unfold peek onTokens TokenStream.peek
  rw [h]

theorem peek_error (h : p.tokens.next = (.error e, s)) :
    peek p = .error e { p with tokens := s } := by
  unfold peek onTokens TokenStream.peek
  rw [h]

theorem accept_token (f : Fixed) (h : p.tokens.next = (.ok (some l), s)) :
    accept f p = if l.token.isFixed f then .ok true { p with tokens := s }
      else .ok false { p with tokens := s.push l } := by
  rw [accept_eq, ← bind_pure (acceptIf _), acceptIf_bind, bind_ok (peek_token h)]
  simp only [Option.any_some]
  split <;> rfl

theorem accept_end (f : Fixed) (h : p.tokens.next = (.ok none, s)) :
    accept f p = .ok false { p with tokens := s } := by
  rw [accept_eq, ← bind_pure (acceptIf _), acceptIf_bind, bind_ok (peek_end h)]
  rfl

theorem accept_error (f : Fixed) (h : p.tokens.next = (.error e, s)) :
    accept f p = .error e { p with tokens := s } := by
  rw [accept_eq, ← bind_pure (acceptIf _), acceptIf_bind, bind_error (peek_error h)]

def separates (t : Token) : Bool := t.isFixed .newline || t.isFixed .semicolon

theorem acceptSeparator_token (h : p.tokens.next = (.ok (some l), s)) :
    acceptSeparator p = if separates l.token then .ok true { p with tokens := s }
      else .ok false { p with tokens := s.push l } := by
  have first := accept_token .newline h
  unfold separates
  cases hn : l.token.isFixed .newline with
  | true =>
    rw [hn, if_pos rfl] at first
    exact bind_ok first
  | false =>
    rw [hn, if_neg (by decide)] at first
    exact (bind_ok first).trans (accept_token (s := s) .semicolon rfl)

theorem acceptSeparator_end (h : p.tokens.next = (.ok none, s)) :
    acceptSeparator p = .ok false { p with tokens := s } :=
  (bind_ok (accept_end .newline h)).trans (accept_end .semicolon (next_again h))

theorem acceptSeparator_error (h : p.tokens.next = (.error e, s)) :
    acceptSeparator p = .error e { p with tokens := s } :=
  bind_error (accept_error .newline h)

theorem endOfCommand_token (h : p.tokens.next = (.ok (some l), s)) :
    endOfCommand p = if l.token.closesBody then .ok () { p with tokens := s.push l }
      else if separates l.token then .ok () { p with tokens := s }
      else .error ⟨.endOfCommandExpected, l.line⟩ { p with tokens := s } := by
  rw [endOfCommand, bind_ok (next_token h)]
  simp only
  split
  · rfl
  split
  · next hs => rw [separates, if_pos hs]; rfl
  · next hs => rw [separates, if_neg hs]; rfl

theorem skipSeparators_succ (fuel : Nat) :
    skipSeparators (fuel + 1) = acceptSeparator >>= fun b =>
      if b then skipSeparators fuel else pure () := by
  change (acceptSeparator >>= _) >>= _ = _
  rw [bind_assoc]
  congr 1
  funext b
  cases b <;> rfl

end Parse

namespace Grammar

/-! ## The loop over commands -/

/-- The commands when separators have been skipped. -/
def commandsFrom (fuel rounds : Nat) : Parse (List Expr) := do
  match ← peek with
  | none => pure []
  | some _ =>
    let e ← command (parse fuel)
    let rest ← collect (command? fuel) rounds
    pure (e :: rest)

variable {fuel rounds : Nat} {p : Parser} {s : TokenStream} {l : Lexeme}

theorem collect_command (fuel rounds : Nat) :
    collect (command? fuel) (rounds + 1) =
      skipSeparators fuel >>= fun _ => commandsFrom fuel rounds := by
  change command? fuel >>= _ = _
  unfold command? commandsFrom
  rw [bind_assoc]
  congr 1
  funext _
  rw [bind_assoc]
  congr 1
  funext l
  cases l with
  | none => rfl
  | some l =>
    change (command (parse fuel) >>= _) >>= _ = _
    rw [bind_assoc]
    rfl

theorem collect_separator (h : p.tokens.next = (.ok (some l), s)) (hl : separates l.token = true) :
    collect (command? (fuel + 1)) (rounds + 1) p =
      (skipSeparators fuel >>= fun _ => commandsFrom (fuel + 1) rounds) { p with tokens := s } := by
  have first := acceptSeparator_token h
  rw [hl, if_pos rfl] at first
  rw [collect_command, skipSeparators_succ, bind_assoc, bind_ok first]
  rfl

theorem collect_token (h : p.tokens.next = (.ok (some l), s)) (hl : separates l.token = false) :
    collect (command? (fuel + 1)) (rounds + 1) p =
      (command (parse (fuel + 1)) >>= fun e => collect (command? (fuel + 1)) rounds >>= fun rest =>
        pure (e :: rest)) { p with tokens := s.push l } := by
  have first := acceptSeparator_token h
  rw [hl, if_neg (by decide)] at first
  rw [collect_command, skipSeparators_succ, bind_assoc, bind_ok first, if_neg (by decide),
    Parse.pure_bind]
  unfold commandsFrom
  exact bind_ok (peek_token (p := { p with tokens := s.push l }) rfl)

theorem collect_end (h : p.tokens.next = (.ok none, s)) :
    collect (command? (fuel + 1)) (rounds + 1) p = .ok [] { p with tokens := s } := by
  rw [collect_command, skipSeparators_succ, bind_assoc, bind_ok (acceptSeparator_end h)]
  exact bind_ok (peek_end (next_again h))

theorem collect_error {e : SyntaxError} (h : p.tokens.next = (.error e, s)) :
    collect (command? (fuel + 1)) (rounds + 1) p = .error e { p with tokens := s } := by
  rw [collect_command, skipSeparators_succ, bind_assoc]
  exact bind_error (acceptSeparator_error h)

end Grammar

/-! ## What a parser gives -/

/-- The value or the error, whatever is left behind it. -/
def Parsed.answer {α : Type} : Parsed α → Option (Except SyntaxError α)
  | .ok a _ => some (.ok a)
  | .error e _ => some (.error e)
  | .unfinished => none

theorem Parser.shift_zero (p : Parser) : p.shift 0 [] = p := by
  obtain ⟨⟨rest, line, pushed⟩, noDo⟩ := p
  have same : pushed.map (Lexeme.shift 0) = pushed := List.map_id pushed
  simp only [Parser.shift, TokenStream.shift, List.append_nil, Nat.add_zero, same]

namespace Parse

variable {α : Type} {n c : Bool} {x y : Parse α} {k : Nat}

/-- Without text behind it the longer text is the same, but for the lines. -/
theorem Follows.answer (h : Follows k [] n c x y) {p : Parser} {r : Except SyntaxError α}
    (hr : (x p).answer = some r) :
    (y (p.shift k [])).answer = some (r.mapError (SyntaxError.shift k)) := by
  have agree := h.along p (.inl rfl) TokenStream.not_spent_nil
  cases hx : x p with
  | ok a q =>
    rw [hx] at agree hr
    obtain rfl := Option.some.inj hr
    rcases agree with ⟨_, _, e⟩ | ⟨_, hs⟩
    · rw [e]; rfl
    · exact absurd hs TokenStream.not_spent_nil
  | error e q =>
    rw [hx] at agree hr
    obtain rfl := Option.some.inj hr
    rcases agree with e' | ⟨ht, _⟩
    · rw [e']; rfl
    · exact absurd rfl ht
  | unfinished => rw [hx] at hr; cases hr

/-- A step with larger bounds. -/
theorem Follows.ok_same (h : Follows 0 [] n c x y) {p q : Parser} {a : α} (hr : x p = .ok a q) :
    y p = .ok a q := by
  have agree := h.along p (.inl rfl) TokenStream.not_spent_nil
  rw [hr, p.shift_zero] at agree
  rcases agree with ⟨_, _, e⟩ | ⟨_, hs⟩
  · rw [e, q.shift_zero]
  · exact absurd hs TokenStream.not_spent_nil

theorem Follows.error_same (h : Follows 0 [] n c x y) {p q : Parser} {e : SyntaxError}
    (hr : x p = .error e q) : y p = .error e q := by
  have agree := h.along p (.inl rfl) TokenStream.not_spent_nil
  rw [hr, p.shift_zero] at agree
  rcases agree with error | ⟨no, _⟩
  · rw [error, q.shift_zero]
    rfl
  · exact absurd rfl no

theorem Follows.same (h : Follows 0 [] n c x y) {p : Parser} (finished : x p ≠ .unfinished) :
    y p = x p := by
  cases hr : x p with
  | ok a q => exact h.ok_same hr
  | error e q => exact h.error_same hr
  | unfinished => exact absurd hr finished

theorem Follows.answer_same (h : Follows 0 [] n c x y) {p : Parser} {r : Except SyntaxError α}
    (hr : (x p).answer = some r) : (y p).answer = some r := by
  rw [h.same fun unfinished => ?_, hr]
  rw [unfinished] at hr
  cases hr

end Parse

namespace Parser

/-- The commands in front of the parser, or the first error. -/
def Gives (p : Parser) (r : Except SyntaxError (List Expr)) : Prop :=
  p.program.answer = some r

theorem exists_gives (p : Parser) : ∃ r, p.Gives r := by
  rcases advances_program p.fuel p (Nat.lt_succ_self _) with ⟨cs, q, e, _⟩ | ⟨e, q, h, _⟩
  · exact ⟨.ok cs, congrArg Parsed.answer e⟩
  · exact ⟨.error e, congrArg Parsed.answer h⟩

theorem Gives.unique {p : Parser} {r r' : Except SyntaxError (List Expr)} (h : p.Gives r)
    (h' : p.Gives r') : r = r' :=
  Option.some.inj (h.symm.trans h')

end Parser

theorem gives_iff_ok {p : Parser} {cs : List Expr} :
    p.Gives (.ok cs) ↔ ∃ rest, p.program = .ok cs rest := by
  unfold Parser.Gives
  cases p.program with
  | ok cs' rest => simp [Parsed.answer]
  | error e rest => simp [Parsed.answer]
  | unfinished => simp [Parsed.answer]

theorem gives_iff_error {p : Parser} {e : SyntaxError} :
    p.Gives (.error e) ↔ ∃ rest, p.program = .error e rest := by
  unfold Parser.Gives
  cases p.program with
  | ok cs rest => simp [Parsed.answer]
  | error e rest => simp [Parsed.answer]
  | unfinished => simp [Parsed.answer]

namespace Grammar

section
variable {k : Nat} {t : List Char} {fuel fuel' rounds rounds' : Nat}

theorem follows_nextCommand (hle : fuel ≤ fuel') :
    Follows k t false false (command? fuel) (command? fuel') := by
  refine (follows_skipSeparators hle).bind_loose fun _ => ?_
  refine follows_peek (follows_pure none) fun l => Along.at ?_ l
  exact ((follows_command (follows_parse hle)).then_pure _).along

theorem follows_nextExpression (hle : fuel ≤ fuel') :
    Follows k t false true (expression? fuel) (expression? fuel') :=
  follows_peek (follows_pure none) fun l =>
    Along.at ((follows_parse hle .expression).then_pure _).along l

theorem follows_commandsFrom (hle : fuel ≤ fuel') (hr : rounds ≤ rounds') :
    Follows k t false false (commandsFrom fuel rounds) (commandsFrom fuel' rounds') := by
  refine follows_peek (follows_pure []) fun l => Along.at ?_ l
  refine ((follows_command (follows_parse hle)).bind_headed (n := false) fun e => ?_).along
  exact (follows_collect (follows_nextCommand hle) hr).then_pure _

theorem follows_commands (hle : fuel ≤ fuel') (hr : rounds ≤ rounds') :
    Follows k t false false (collect (command? fuel) rounds) (collect (command? fuel') rounds') :=
  follows_collect (follows_nextCommand hle) hr

end

end Grammar

namespace Parser

variable {p q : Parser} {s : TokenStream} {l : Lexeme} {r : Except SyntaxError (List Expr)}

/-- The bounds do not matter if they are not reached. -/
theorem gives_of_loop (fuel rounds : Nat)
    (h : (collect (command? fuel) rounds p).answer = some r) : p.Gives r := by
  obtain ⟨r', h'⟩ := p.exists_gives
  -- Both loops do the same as the one under the sum of all bounds.
  have larger : ∀ {a b : Nat} {r : Except SyntaxError (List Expr)},
      (collect (command? a) b p).answer = some r → a ≤ fuel + rounds + p.fuel →
      b ≤ fuel + rounds + p.fuel →
      (collect (command? (fuel + rounds + p.fuel)) (fuel + rounds + p.fuel) p).answer = some r :=
    fun h ha hb => (follows_commands ha hb).answer_same h
  have same := (larger h (by omega) (by omega)).symm.trans (larger h' (by omega) (by omega))
  rw [Option.some.inj same]
  exact h'

theorem gives_end (h : p.tokens.next = (.ok none, s)) : p.Gives (.ok []) :=
  gives_of_loop 1 1 (congrArg Parsed.answer (collect_end h))

theorem gives_error {e : SyntaxError} (h : p.tokens.next = (.error e, s)) : p.Gives (.error e) :=
  gives_of_loop 1 1 (congrArg Parsed.answer (collect_error h))

theorem gives_separator (h : p.tokens.next = (.ok (some l), s)) (hl : separates l.token = true)
    (hr : Gives { p with tokens := s } r) : p.Gives r := by
  refine gives_of_loop (s.size + 3) (s.size + 2) ?_
  rw [collect_separator h hl]
  have hr :
      (collect (command? (s.size + 2)) (s.size + 2) { p with tokens := s }).answer = some r := hr
  rw [collect_command] at hr
  -- Behind the separator both loops go on alike, under different bounds.
  refine Follows.answer_same (n := false) (c := false) ?_ hr
  exact (follows_skipSeparators (Nat.le_refl _)).bind_loose fun _ =>
    follows_commandsFrom (Nat.le_succ _) (Nat.le_refl _)

section
variable {fuel : Nat}

theorem gives_command {e : Expr} (h : p.tokens.next = (.ok (some l), s))
    (hl : separates l.token = false)
    (hc : Grammar.command (parse fuel) { p with tokens := s.push l } = .ok e q) (hr : q.Gives r) :
    p.Gives (r.map (e :: ·)) := by
  refine gives_of_loop (fuel + q.fuel + 1) (q.fuel + 1) ?_
  have first := (follows_command (k := 0) (t := []) (follows_parse
    (show fuel ≤ fuel + q.fuel + 1 by omega))).ok_same hc
  rw [collect_token h hl, bind_ok first]
  have rest := (follows_commands (k := 0) (t := []) (show q.fuel ≤ fuel + q.fuel + 1 by omega)
    (Nat.le_refl q.fuel)).then_pure (e :: ·)
  refine rest.answer_same ?_
  have hr : (collect (command? q.fuel) q.fuel q).answer = some r := hr
  cases hq : collect (command? q.fuel) q.fuel q with
  | ok cs u =>
    rw [hq] at hr
    obtain rfl := Option.some.inj hr
    rw [bind_ok hq]
    rfl
  | error e' u =>
    rw [hq] at hr
    obtain rfl := Option.some.inj hr
    rw [bind_error hq]
    rfl
  | unfinished => rw [hq] at hr; cases hr

theorem gives_badCommand {e : SyntaxError} (h : p.tokens.next = (.ok (some l), s))
    (hl : separates l.token = false)
    (hc : Grammar.command (parse fuel) { p with tokens := s.push l } = .error e q) :
    p.Gives (.error e) := by
  refine gives_of_loop (fuel + 1) 1 ?_
  rw [collect_token h hl]
  have first := (follows_command (k := 0) (t := []) (follows_parse (Nat.le_succ fuel))).bind_headed
    (n := false) (c := false) fun e => (follows_commands (Nat.le_refl (fuel + 1))
      (Nat.zero_le 0)).then_pure (e :: ·)
  refine first.answer_same ?_
  rw [bind_error hc]
  rfl

end

end Parser

end ObjectLang
