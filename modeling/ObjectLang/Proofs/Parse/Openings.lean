import ObjectLang.Proofs.Parse.Program

/-!
# From the first token on

An expression begins with a term unless a prefix operator is in front of it, and where no term can
begin there is none. The gap before its first token does not matter. Behind the term it goes on
only at a token that a suffix, an operator, an argument, a block or an assignment begins with.
-/

namespace ObjectLang

open Parse Grammar

namespace Parse

variable {α β : Type} {x y : Parse α} {f : α → Parse β} {p q : Parser} {l : Lexeme} {g : Fixed}
  {F : Bool → Parse β}

theorem bind_congr_left (h : x p = y q) : (x >>= f) p = (y >>= f) q := by
  change Parse.bind x f p = Parse.bind y f q
  rw [Parse.bind, h]
  rfl

theorem exists_of_bind_ok {b : β} (h : (x >>= f) p = .ok b q) :
    ∃ a u, x p = .ok a u ∧ f a u = .ok b q := by
  change Parse.bind x f p = _ at h
  rw [Parse.bind] at h
  cases e : x p with
  | ok a u =>
    rw [e] at h
    exact ⟨a, u, rfl, h⟩
  | error e' u => rw [e] at h; cases h
  | unfinished => rw [e] at h; cases h

theorem bind_unfinished (h : x p = .unfinished) : (x >>= f) p = .unfinished := by
  change Parse.bind x f p = _
  rw [Parse.bind, h]

/-- Every value that the step gives has the property. -/
def Yields (P : α → Prop) (x : Parse α) : Prop :=
  ∀ p a q, x p = .ok a q → P a

theorem yields_pure {P : α → Prop} {a : α} (h : P a) : Yields P (pure a) := by
  rintro p _ q ⟨⟩
  exact h

theorem yields_bind {P : β → Prop} (h : ∀ a, Yields P (f a)) : Yields P (x >>= f) := by
  intro p b q hb
  obtain ⟨a, u, _, hb⟩ := exists_of_bind_ok hb
  exact h a u b q hb

/-! ## The restriction -/

section
variable {noDo : Bool} {a : α}

theorem restricted_ok (h : x { p with noDo := noDo } = .ok a q) :
    restricted noDo x p = .ok a { q with noDo := p.noDo } := by
  unfold restricted
  rw [h]

theorem restricted_error {e : SyntaxError} (h : x { p with noDo := noDo } = .error e q) :
    restricted noDo x p = .error e { q with noDo := p.noDo } := by
  unfold restricted
  rw [h]

theorem restricted_unfinished (h : x { p with noDo := noDo } = .unfinished) :
    restricted noDo x p = .unfinished := by
  unfold restricted
  rw [h]

theorem exists_of_restricted_ok (h : restricted noDo x p = .ok a q) :
    ∃ u, x { p with noDo := noDo } = .ok a u ∧ q = { u with noDo := p.noDo } := by
  cases e : x { p with noDo := noDo } with
  | ok b u =>
    rw [restricted_ok e] at h
    cases h
    exact ⟨u, rfl, rfl⟩
  | error e' u => rw [restricted_error e] at h; cases h
  | unfinished => rw [restricted_unfinished e] at h; cases h

theorem yields_restricted {P : α → Prop} (h : Yields P x) : Yields P (restricted noDo x) := by
  intro p a q ha
  obtain ⟨u, ha, _⟩ := exists_of_restricted_ok ha
  exact h _ a u ha

end

/-! ## Known tokens -/

/-- The parser has the token, or the end, in front of it and has looked at it. -/
def Faces (p : Parser) (l : Option Lexeme) : Prop :=
  peek p = .ok l p

theorem faces_push (s : TokenStream) (l : Lexeme) (noDo : Bool) : Faces ⟨s.push l, noDo⟩ (some l) :=
  rfl

theorem faces_of_peek {l : Option Lexeme} (h : peek p = .ok l q) : Faces q l := by
  unfold peek onTokens TokenStream.peek at h
  cases e : p.tokens.next with
  | mk a s =>
    rw [e] at h
    match a with
    | .ok none =>
      cases h
      exact peek_end (p := { p with tokens := s }) (next_again e)
    | .ok (some l) => cases h; rfl
    | .error e => cases h

theorem Faces.exists_push (h : Faces p (some l)) : ∃ s : TokenStream, p = ⟨s.push l, p.noDo⟩ := by
  unfold Faces peek onTokens TokenStream.peek at h
  cases e : p.tokens.next with
  | mk a s =>
    rw [e] at h
    match a with
    | .ok none => cases h
    | .ok (some l') =>
      obtain ⟨same, rest⟩ := Parsed.ok.inj h
      cases same
      exact ⟨s, rest.symm⟩
    | .error e => cases h

theorem accept_next (g : Fixed) (F : Bool → Parse β) : accept g >>= F =
    peek >>= fun l => if l.any (·.token.isFixed g) then next >>= fun _ => F true else F false := by
  rw [accept_eq, acceptIf_bind]

theorem accept_passes {l : Option Lexeme} (hp : peek p = .ok l q)
    (h : l.any (·.token.isFixed g) = false) : (accept g >>= F) p = F false q := by
  rw [accept_next, bind_ok hp, h]
  rfl

theorem accept_takes (h : l.token.isFixed g = true) (s : TokenStream) (noDo : Bool) :
    (accept g >>= F) ⟨s.push l, noDo⟩ = F true ⟨s, noDo⟩ := by
  rw [accept_next, bind_ok (faces_push s l noDo), Option.any_some, h]
  rfl

/-! ## Loops -/

theorem iterate_stop {step : α → Parse (Option α)} {a : α} (h : step a p = .ok none q) (n : Nat) :
    iterate step (n + 1) a p = .ok a q :=
  bind_ok h

theorem iterate_last {step : α → Parse (Option α)} : ∀ {n : Nat} {a b : α} {p : Parser},
    iterate step n a p = .ok b q → ∃ c u, step c u = .ok none q
  | 0, _, _, _, h => nomatch h
  | n + 1, a, b, p, h => by
    obtain ⟨c, u, hc, h⟩ := exists_of_bind_ok h
    cases c with
    | none => cases h; exact ⟨a, p, hc⟩
    | some c => exact iterate_last h

/-- What every step of a loop has, its value has unless it is the one the loop begins with. -/
theorem iterate_outcome {step : α → Parse (Option α)} {P : α → Prop}
    (h : ∀ a p b q, P a → step a p = .ok (some b) q → P b) :
    ∀ {n : Nat} {a b : α} {p q : Parser}, iterate step n a p = .ok b q →
      (∀ p c q, step a p = .ok (some c) q → P c) → (b = a ∧ step a p = .ok none q) ∨ P b
  | 0, _, _, _, _, e, _ => nomatch e
  | n + 1, a, b, p, q, e, ha => by
    obtain ⟨c, u, hc, e⟩ := exists_of_bind_ok e
    cases c with
    | none => cases e; exact .inl ⟨rfl, hc⟩
    | some c =>
      have hP := ha p c u hc
      refine .inr ?_
      rcases iterate_outcome h e (fun p d q => h c p d q hP) with ⟨rfl, _⟩ | hb
      · exact hP
      · exact hb

end Parse

/-! ## The first command of a program -/

namespace Parser

variable {p : Parser} {s : TokenStream} {l : Lexeme}

theorem program_token (h : p.tokens.next = (.ok (some l), s)) (hl : separates l.token = false) :
    p.program =
      (Grammar.command (parse p.fuel) >>= fun e =>
        collect (command? p.fuel) (p.tokens.size + 1) >>= fun rest => pure (e :: rest))
      { p with tokens := s.push l } :=
  collect_token h hl

theorem Gives.exists_command {e : Expr} {es : List Expr} (hg : p.Gives (.ok (e :: es)))
    (h : p.tokens.next = (.ok (some l), s)) (hl : separates l.token = false) :
    ∃ q : Parser, (∀ fuel, p.fuel ≤ fuel →
      Grammar.command (parse fuel) { p with tokens := s.push l } = .ok e q) ∧ q.Gives (.ok es) := by
  obtain ⟨rest, hp⟩ := gives_iff_ok.mp hg
  obtain ⟨e', q, hq, hp⟩ := exists_of_bind_ok ((program_token h hl).symm.trans hp)
  obtain ⟨es', u, hu, hp⟩ := exists_of_bind_ok hp
  cases hp
  refine ⟨q, fun fuel hle => ?_, gives_of_loop _ _ (congrArg Parsed.answer hu)⟩
  exact (follows_command (k := 0) (t := []) (follows_parse hle)).ok_same hq

theorem Gives.separator_next (hg : p.Gives (.ok [])) (h : p.tokens.next = (.ok (some l), s)) :
    separates l.token = true := by
  cases hl : separates l.token with
  | true => rfl
  | false =>
    obtain ⟨rest, hp⟩ := gives_iff_ok.mp hg
    obtain ⟨e', q, hq, hp⟩ := exists_of_bind_ok ((program_token h hl).symm.trans hp)
    obtain ⟨es', u, hu, hp⟩ := exists_of_bind_ok hp
    cases hp

theorem command_ne_unfinished (h : p.tokens.next = (.ok (some l), s))
    (hl : separates l.token = false) :
    Grammar.command (parse p.fuel) { p with tokens := s.push l } ≠ .unfinished := by
  intro hc
  obtain ⟨r, hr⟩ := p.exists_gives
  have none : p.program = .unfinished := (program_token h hl).trans (bind_unfinished hc)
  rw [Parser.Gives, none] at hr
  cases hr

end Parser

namespace Grammar

variable {r : Nested} {fuel : Nat} {s : TokenStream} {l : Lexeme} {noDo : Bool} {p q : Parser}
  {e k : Expr}

/-! ## Gaps -/

/-- The step does the same whether or not there is a gap before the first token. -/
def GapFree {α : Type} (x : Parse α) : Prop :=
  ∀ (s : TokenStream) (l : Lexeme) (spaced noDo : Bool),
    x ⟨s.push l, noDo⟩ = x ⟨s.push { l with spaced := spaced }, noDo⟩

section
variable {α β : Type} {x : Parse α}

theorem GapFree.bind (h : GapFree x) (f : α → Parse β) : GapFree (x >>= f) :=
  fun s l spaced noDo => bind_congr_left (h s l spaced noDo)

theorem GapFree.accept {g : Fixed} {F : Bool → Parse α} (h : GapFree (F false)) :
    GapFree (accept g >>= F) := by
  intro s l spaced noDo
  cases e : l.token.isFixed g with
  | true => rw [accept_takes e, accept_takes (l := { l with spaced := spaced }) e]
  | false =>
    rw [accept_passes (faces_push s l noDo) e,
      accept_passes (faces_push s { l with spaced := spaced } noDo) e, h s l spaced noDo]

theorem GapFree.lineHere {f : Nat → Parse α} (h : ∀ line, GapFree (f line)) :
    GapFree (lineHere >>= f) :=
  fun s l spaced noDo => h l.line s l spaced noDo

end

theorem gapFree_suffixed : GapFree (suffixed r fuel) :=
  GapFree.bind (fun _ _ _ _ => rfl : GapFree (term r fuel)) _

theorem gapFree_unary : ∀ depth : Nat, GapFree (unary r fuel depth)
  | 0 => fun _ _ _ _ => rfl
  | _ + 1 => GapFree.accept (GapFree.accept (GapFree.accept gapFree_suffixed))

theorem gapFree_expression : GapFree (expression r fuel) :=
  .lineHere fun _ => (((((gapFree_unary fuel).bind _).bind _).bind _).bind _).bind _

theorem gapFree_parse : ∀ fuel : Nat, GapFree (parse fuel .expression)
  | 0 => fun _ _ _ _ => rfl
  | _ + 1 => gapFree_expression

/-! ## Tokens that begin no expression -/

/-- Where the token is next the step gives no value. -/
def Refuses {α : Type} (g : Fixed) (x : Parse α) : Prop :=
  ∀ (s : TokenStream) (l : Lexeme) (noDo : Bool), l.token = .fixed g →
    ∀ a q, x ⟨s.push l, noDo⟩ ≠ .ok a q

section
variable {α β : Type} {x : Parse α} {g : Fixed}

theorem Refuses.bind (h : Refuses g x) (f : α → Parse β) : Refuses g (x >>= f) := by
  intro s l noDo hl b q e
  obtain ⟨a, u, e, _⟩ := exists_of_bind_ok e
  exact h s l noDo hl a u e

theorem Refuses.accept {g' : Fixed} {F : Bool → Parse α} (h : Refuses g (F false)) (hg : g ≠ g') :
    Refuses g (accept g' >>= F) := by
  intro s l noDo hl
  have other : l.token.isFixed g' = false := by
    rw [hl]
    exact decide_eq_false hg
  rw [accept_passes (faces_push s l noDo) other]
  exact h s l noDo hl

end

/-- The end of a line or a closing parenthesis. -/
def Halts (g : Fixed) : Prop :=
  g = .newline ∨ g = .rparen

instance (g : Fixed) : Decidable (Halts g) :=
  inferInstanceAs (Decidable (g = .newline ∨ g = .rparen))

theorem refuses_term {g : Fixed} (h : Halts g) : Refuses g (term r fuel) := by
  rintro s ⟨_, line, spaced⟩ noDo rfl a q
  rcases h with rfl | rfl <;> exact nofun

theorem refuses_unary {g : Fixed} (h : Halts g) : ∀ depth : Nat, Refuses g (unary r fuel depth)
  | 0 => fun _ _ _ _ _ _ => nofun
  | _ + 1 => by
    have suffixed : Refuses g (suffixed r fuel) := (refuses_term h).bind _
    rcases h with rfl | rfl <;>
      exact Refuses.accept (Refuses.accept (Refuses.accept suffixed (by decide)) (by decide))
        (by decide)

theorem refuses_parse {g : Fixed} (h : Halts g) : ∀ fuel : Nat, Refuses g (parse fuel .expression)
  | 0 => fun _ _ _ _ _ _ => nofun
  | fuel + 1 => fun s l noDo =>
    ((((((refuses_unary h fuel).bind _).bind _).bind _).bind _).bind _ :
      Refuses g (range (parse fuel) fuel >>= _)) s l noDo

/-! ## Blocks -/

/-- A block in braces, or nothing. -/
def braceBlock (r : Nested) (fuel : Nat) : Parse (Option Expr) := do
  if ← accept .lbrace then
    let b ← blockBody r .rbrace fuel
    pure (some b)
  else pure none

theorem braceBlock_peek {l : Option Lexeme} (h : peek p = .ok l q) :
    braceBlock r fuel p = braceBlock r fuel q := by
  unfold braceBlock
  rw [accept_next]
  exact bind_congr_left (h.trans (faces_of_peek h).symm)

/-- A block after `do`, or else one in braces. -/
def doBlock (r : Nested) (fuel : Nat) (doFollows : Bool) : Parse (Option Expr) :=
  if doFollows then do
    let b ← blockBody r .endWord fuel
    pure (some b)
  else braceBlock r fuel

theorem blockTrailer_eq : blockTrailer r fuel = doAllowed >>= fun allowed =>
    if allowed then accept .doWord >>= doBlock r fuel else braceBlock r fuel := rfl

/-! ## Behind the term -/

/-- The operators behind an operand, from the tightest to the loosest. -/
def operators (r : Nested) (fuel : Nat) (e : Expr) : Parse Expr := do
  let e ← iterate (operation multiplicativeOp? (unary r fuel fuel)) fuel e
  let e ← iterate (operation additiveOp? (multiplicative r fuel)) fuel e
  let e ← iterate (operation compareOp? (additive r fuel)) fuel e
  if ← accept .dotDot then
    let upper ← comparison r fuel
    pure (.range e upper)
  else pure e

/-- The arguments, the block or the assigned value behind the operators. -/
def ending (r : Nested) (fuel line : Nat) (e : Expr) : Parse Expr := do
  let e ← commandCall r fuel e
  if ← accept .equals then assignment r fuel e line else pure e

/-- What can follow the term that has been read. -/
def remainder (r : Nested) (fuel rounds line : Nat) (e : Expr) : Parse Expr := do
  let e ← iterate (suffix r fuel) rounds e
  let e ← operators r fuel e
  ending r fuel line e

/-- No prefix operator. -/
def Unprefixed (l : Lexeme) : Prop :=
  l.token.isFixed .minus = false ∧ l.token.isFixed .plus = false ∧ l.token.isFixed .bang = false

theorem unary_unprefixed (h : Unprefixed l) (depth : Nat) (s : TokenStream) (noDo : Bool) :
    unary r fuel (depth + 1) ⟨s.push l, noDo⟩ = suffixed r fuel ⟨s.push l, noDo⟩ := by
  have faces := faces_push s l noDo
  exact (accept_passes faces h.1).trans
    ((accept_passes faces h.2.1).trans (accept_passes faces h.2.2))

theorem expression_unprefixed (h : Unprefixed l) (s : TokenStream) (noDo : Bool) :
    expression r (fuel + 1) ⟨s.push l, noDo⟩ =
      (term r (fuel + 1) >>= remainder r (fuel + 1) (fuel + 1) l.line) ⟨s.push l, noDo⟩ := by
  have tiers : expression r (fuel + 1) = lineHere >>= fun line =>
      unary r (fuel + 1) (fuel + 1) >>= fun e => operators r (fuel + 1) e >>=
        ending r (fuel + 1) line := by
    simp only [expression, range, comparison, additive, multiplicative, tier, operators, bind_assoc]
    rfl
  have level : suffixed r (fuel + 1) >>= (fun e => operators r (fuel + 1) e >>=
      ending r (fuel + 1) l.line) =
        term r (fuel + 1) >>= remainder r (fuel + 1) (fuel + 1) l.line := by
    simp only [suffixed, bind_assoc]
    rfl
  rw [tiers, ← level]
  exact bind_congr_left (unary_unprefixed h fuel s noDo)

/-- No suffix of `e` begins with the token, and no operator. -/
structure Ends (e : Expr) (l : Option Lexeme) : Prop where
  dot : l.any (·.token.isFixed .dot) = false
  doubleColon : l.any (·.token.isFixed .doubleColon) = false
  bracket : l.any (fun x => x.token.isFixed .lbracket && !(x.spaced && e.isName)) = false
  multiplicative : l.bind (multiplicativeOp? ·.token) = none
  additive : l.bind (additiveOp? ·.token) = none
  compare : l.bind (compareOp? ·.token) = none
  dotDot : l.any (·.token.isFixed .dotDot) = false

theorem suffix_ends {l : Option Lexeme} (hp : peek p = .ok l q) (h : Ends e l) :
    suffix r fuel e p = .ok none q := by
  refine (bind_ok hp).trans ?_
  cases l with
  | none => rfl
  | some l =>
    have dot := h.dot
    have doubleColon := h.doubleColon
    have bracket := h.bracket
    rw [Option.any_some] at dot doubleColon bracket
    simp only [dot, doubleColon, bracket]
    rfl

theorem operation_ends {l : Option Lexeme} {operator? : Token → Option (Expr → Expr → Expr)}
    {operand : Parse Expr} (hp : peek p = .ok l q) (h : l.bind (operator? ·.token) = none) :
    operation operator? operand e p = .ok none q := by
  refine (bind_ok hp).trans ?_
  simp only [h]
  rfl

theorem remainder_ends {l : Option Lexeme} (hp : peek p = .ok l q) (h : Ends e l)
    (rounds line : Nat) :
    remainder r (fuel + 1) (rounds + 1) line e p = ending r (fuel + 1) line e q := by
  have faces := faces_of_peek hp
  refine (bind_ok (iterate_stop (suffix_ends hp h) rounds)).trans (bind_ok ?_)
  refine (bind_ok (iterate_stop (operation_ends faces h.multiplicative) fuel)).trans ?_
  refine (bind_ok (iterate_stop (operation_ends faces h.additive) fuel)).trans ?_
  refine (bind_ok (iterate_stop (operation_ends faces h.compare) fuel)).trans ?_
  exact accept_passes faces h.dotDot

/-! ## What can become of a term -/

end Grammar

namespace Expr

/-- A name or `self`. -/
def isWord : Expr → Bool
  | name _ | selfRef => true
  | _ => false

/-- A tree that parsing can only put together from an operand that is not a word. -/
def isJoined : Expr → Bool
  | dot target _ _ | doubleColon target _ | indexed target _ => !target.isWord
  | arith _ _ _ | compare _ _ _ | range _ _ => true
  | assign _ _ | assignInstanceVar _ _ | assignClassVar _ _ | assignIndexed _ _ _
  | assignDot _ _ => true
  | _ => false

theorem isWord_of_joined {e : Expr} (h : e.isJoined = true) : e.isWord = false := by
  cases e <;> first | rfl | cases h

theorem isName_of_not_word {e : Expr} (h : e.isWord = false) : e.isName = false := by
  cases e <;> first | rfl | cases h

end Expr

namespace Grammar

/-- Only the next token has been looked at. -/
def Looks (p q : Parser) : Prop :=
  ∃ l, peek p = .ok l q

theorem Looks.trans {p q u : Parser} (h : Looks p q) (h' : Looks q u) : Looks p u := by
  obtain ⟨l, h⟩ := h
  obtain ⟨l', h'⟩ := h'
  cases (faces_of_peek h).symm.trans h'
  exact ⟨l, h⟩

theorem accept_outcome {g : Fixed} (h : accept g p = .ok false q) : Looks p q := by
  rw [← bind_pure (accept g), accept_next] at h
  obtain ⟨l, u, hl, h⟩ := exists_of_bind_ok h
  split at h
  · obtain ⟨_, _, _, h⟩ := exists_of_bind_ok h
    cases h
  · cases h
    exact ⟨l, hl⟩

/-- From `e` the step has come to `k`: it has joined something to it, or done nothing. -/
def Grows (e k : Expr) (p q : Parser) : Prop :=
  k.isJoined = true ∨ (k = e ∧ Looks p q)

theorem Grows.trans {k' : Expr} {p q u : Parser} (h : Grows e k p q)
    (h' : k.isWord = false → Grows k k' q u) (he : e.isWord = false) : Grows e k' p u := by
  rcases h with joined | ⟨rfl, looks⟩
  · rcases h' (Expr.isWord_of_joined joined) with h | ⟨rfl, _⟩
    · exact .inl h
    · exact .inl joined
  · exact (h' he).imp_right fun ⟨same, looks'⟩ => ⟨same, looks.trans looks'⟩

/-- A step that looks at the next token, and stops or joins something to what it is given. -/
def Joins (step : Expr → Parse (Option Expr)) : Prop :=
  ∀ {e : Expr} {k : Option Expr} {p q : Parser}, step e p = .ok k q →
    (k = none ∧ Looks p q) ∨ ∃ k', k = some k' ∧ (e.isWord = false → k'.isJoined = true)

theorem iterate_grows {step : Expr → Parse (Option Expr)} {n : Nat} (hs : Joins step)
    (he : e.isWord = false) (h : iterate step n e p = .ok k q) : Grows e k p q := by
  have more : ∀ (a : Expr) (p : Parser) (b : Expr) (q : Parser), a.isWord = false →
      step a p = .ok (some b) q → b.isJoined = true := by
    intro a p b q ha h
    rcases hs h with ⟨none, _⟩ | ⟨_, same, joined⟩
    · cases none
    · cases same
      exact joined ha
  rcases iterate_outcome (P := fun k => k.isJoined = true)
    (fun a p b q ha => more a p b q (Expr.isWord_of_joined ha)) h
    (fun p c q => more e p c q he) with ⟨rfl, h⟩ | h
  · rcases hs h with ⟨_, looks⟩ | ⟨_, same, _⟩
    · exact .inr ⟨rfl, looks⟩
    · cases same
  · exact .inl h

theorem suffix_joins : Joins (suffix r fuel) := by
  intro e k p q h
  have target : e.isWord = false → (!e.isWord) = true := fun he => by rw [he]; rfl
  obtain ⟨l, u, hl, h⟩ := exists_of_bind_ok h
  cases l with
  | none => cases h; exact .inl ⟨rfl, _, hl⟩
  | some l =>
    dsimp only at h
    split at h
    · obtain ⟨_, _, _, h⟩ := exists_of_bind_ok h
      obtain ⟨_, _, _, h⟩ := exists_of_bind_ok h
      obtain ⟨_, _, _, h⟩ := exists_of_bind_ok h
      cases h
      exact .inr ⟨_, rfl, target⟩
    split at h
    · obtain ⟨_, _, _, h⟩ := exists_of_bind_ok h
      obtain ⟨_, _, _, h⟩ := exists_of_bind_ok h
      cases h
      exact .inr ⟨_, rfl, target⟩
    split at h
    · obtain ⟨_, _, _, h⟩ := exists_of_bind_ok h
      obtain ⟨_, _, _, h⟩ := exists_of_bind_ok h
      cases h
      exact .inr ⟨_, rfl, target⟩
    · cases h
      exact .inl ⟨rfl, _, hl⟩

theorem operation_joins {operator? : Token → Option (Expr → Expr → Expr)} {operand : Parse Expr}
    (ho : ∀ {t f}, operator? t = some f → ∀ a b : Expr, (f a b).isJoined = true) :
    Joins (operation operator? operand) := by
  intro e k p q h
  obtain ⟨l, u, hl, h⟩ := exists_of_bind_ok h
  cases found : l.bind (operator? ·.token) with
  | none =>
    simp only [found] at h
    cases h
    exact .inl ⟨rfl, _, hl⟩
  | some combine =>
    simp only [found] at h
    obtain ⟨_, _, _, h⟩ := exists_of_bind_ok h
    obtain ⟨_, _, _, h⟩ := exists_of_bind_ok h
    cases h
    obtain ⟨l, rfl, hf⟩ := Option.bind_eq_some_iff.mp found
    exact .inr ⟨_, rfl, fun _ => ho hf _ _⟩

theorem multiplicative_joins {t : Token} {f : Expr → Expr → Expr}
    (h : multiplicativeOp? t = some f) (a b : Expr) : (f a b).isJoined = true := by
  unfold multiplicativeOp? at h
  split at h <;> cases h <;> rfl

theorem additive_joins {t : Token} {f : Expr → Expr → Expr}
    (h : additiveOp? t = some f) (a b : Expr) : (f a b).isJoined = true := by
  unfold additiveOp? at h
  split at h <;> cases h <;> rfl

theorem compare_joins {t : Token} {f : Expr → Expr → Expr}
    (h : compareOp? t = some f) (a b : Expr) : (f a b).isJoined = true := by
  unfold compareOp? at h
  split at h <;> cases h <;> rfl

theorem operators_grow (he : e.isWord = false) (h : operators r fuel e p = .ok k q) :
    Grows e k p q := by
  obtain ⟨a, pa, ha, h⟩ := exists_of_bind_ok h
  obtain ⟨b, pb, hb, h⟩ := exists_of_bind_ok h
  obtain ⟨c, pc, hc, h⟩ := exists_of_bind_ok h
  obtain ⟨dots, pd, hd, h⟩ := exists_of_bind_ok h
  refine (iterate_grows (operation_joins multiplicative_joins) he ha).trans (fun ha => ?_) he
  refine (iterate_grows (operation_joins additive_joins) ha hb).trans (fun hb => ?_) ha
  refine (iterate_grows (operation_joins compare_joins) hb hc).trans (fun hc => ?_) hb
  cases dots with
  | true =>
    obtain ⟨_, _, _, h⟩ := exists_of_bind_ok h
    cases h
    exact .inl rfl
  | false =>
    cases h
    exact .inr ⟨rfl, accept_outcome hd⟩

theorem assignment_joins {line : Nat} (h : assignment r fuel e line p = .ok k q) :
    k.isJoined = true := by
  obtain ⟨_, _, _, h⟩ := exists_of_bind_ok h
  obtain ⟨value, u, _, h⟩ := exists_of_bind_ok h
  unfold assignmentTo? at h
  cases e with
  | name n | instanceVar n | classVar n | indexed t i => cases h; rfl
  | dot t n args =>
    cases args with
    | nil => cases h; rfl
    | cons a args => cases h
  | _ => cases h

theorem ending_grows {line : Nat} (he : e.isWord = false) (h : ending r fuel line e p = .ok k q) :
    Grows e k p q := by
  obtain ⟨c, pc, hc, h⟩ := exists_of_bind_ok h
  have whole : commandCall r fuel e = pure e := by
    cases e <;> first | rfl | cases he
  rw [whole] at hc
  cases hc
  obtain ⟨equals, pe, hequals, h⟩ := exists_of_bind_ok h
  cases equals with
  | true => exact .inl (assignment_joins h)
  | false =>
    cases h
    exact .inr ⟨rfl, accept_outcome hequals⟩

/-- What stands behind a term that is no word is joined to it, or left in place. -/
theorem remainder_grows {rounds line : Nat} (he : e.isWord = false)
    (h : remainder r fuel rounds line e p = .ok k q) : Grows e k p q := by
  obtain ⟨a, pa, ha, h⟩ := exists_of_bind_ok h
  obtain ⟨b, pb, hb, h⟩ := exists_of_bind_ok h
  refine (iterate_grows suffix_joins he ha).trans (fun ha => ?_) he
  exact (operators_grow ha hb).trans (fun hb => ending_grows hb h) ha

end Grammar

end ObjectLang
