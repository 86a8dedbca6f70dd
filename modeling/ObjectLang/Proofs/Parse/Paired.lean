import Mathlib.Data.List.Forall2
import ObjectLang.Proofs.Parse.Related
import ObjectLang.Proofs.Parse.Takes

/-!
# The same tokens in two places

A step that stays within the tokens that two parsers have in common gives the same value in both,
whatever the lines. Behind those tokens the one may come to the end of a line where the other comes
to a closing parenthesis.
-/

namespace ObjectLang

open Parse Grammar

/-! ## The tokens of a stream -/

namespace TokenStream

/-- The stream gives these tokens and ends. -/
def Lists : TokenStream → List Lexeme → Prop
  | s, [] => ∃ s', s.next = (.ok none, s')
  | s, l :: ls => ∃ s', s.next = (.ok (some l), s') ∧ s'.Lists ls

variable {s s' : TokenStream} {l : Lexeme} {ls : List Lexeme}

theorem lists_pushed (line : Nat) : ∀ ls : List Lexeme, Lists ⟨[], line, ls⟩ ls
  | [] => ⟨_, rfl⟩
  | _ :: ls => ⟨_, rfl, lists_pushed line ls⟩

theorem Lists.push (h : s.Lists ls) (l : Lexeme) : (s.push l).Lists (l :: ls) :=
  ⟨s, rfl, h⟩

theorem Lists.unique : ∀ {ls ls' : List Lexeme} {s : TokenStream}, s.Lists ls → s.Lists ls' →
    ls = ls'
  | [], [], _, _, _ => rfl
  | [], _ :: _, _, ⟨_, h⟩, ⟨_, h', _⟩ => by cases h.symm.trans h'
  | _ :: _, [], _, ⟨_, h, _⟩, ⟨_, h'⟩ => by cases h.symm.trans h'
  | _ :: _, _ :: _, _, ⟨_, h, hs⟩, ⟨_, h', hs'⟩ => by
    cases h.symm.trans h'
    rw [hs.unique hs']

theorem lists_end (h : s.next = (.ok none, s')) : s'.Lists [] :=
  ⟨s', next_again h⟩

end TokenStream

namespace Parse

variable {α β : Type} {T t t' : List Lexeme} {p q : Parser}

/-! ## Parsers in front of the same tokens -/

/-- What stands behind the tokens `T` in two places: nothing, or the end of a line and a closing
parenthesis. -/
inductive Behind (T : List Lexeme) : List Lexeme → List Lexeme → Prop where
  | ended : Behind T [] []
  | closed {n m : Lexeme} {ms : List Lexeme} (hn : n.token = .fixed .newline)
      (hm : m.token = .fixed .rparen) (noDo : ∀ l ∈ T, l.token ≠ .fixed .doWord) :
      Behind T [n] (m :: ms)

/-- The same tokens are left of `T` in both places. -/
structure Paired (T t t' : List Lexeme) (p q : Parser) : Prop where
  tokens : ∃ ls ls', ls <:+ T ∧ List.Forall₂ SameLexeme ls ls' ∧ p.tokens.Lists (ls ++ t) ∧
    q.tokens.Lists (ls' ++ t')
  setting : t = [] → p.noDo = q.noDo

theorem lists_of_peek {o : Option Lexeme} {ls : List Lexeme} (h : p.tokens.Lists ls)
    (hq : peek p = .ok o q) : q.tokens.Lists ls := by
  cases ls with
  | nil =>
    obtain ⟨s, hs⟩ := h
    cases (peek_end hs).symm.trans hq
    exact TokenStream.lists_end hs
  | cons l ls =>
    obtain ⟨s, hs, rest⟩ := h
    cases (peek_token hs).symm.trans hq
    exact rest.push l

/-- The end of the line behind the tokens has been taken as well. -/
structure Overrun (t : List Lexeme) (p : Parser) : Prop where
  more : t ≠ []
  ended : p.tokens.Lists []

/-- What paired parsers find next. -/
inductive Meets (T t t' : List Lexeme) (p q : Parser) : Prop where
  | ended {s s' : TokenStream} (hp : p.tokens.next = (.ok none, s))
      (hq : q.tokens.next = (.ok none, s'))
      (rest : Paired T t t' { p with tokens := s } { q with tokens := s' })
  | token {l l' : Lexeme} {s s' : TokenStream} (hp : p.tokens.next = (.ok (some l), s))
      (hq : q.tokens.next = (.ok (some l'), s')) (alike : SameLexeme l l')
      (noDo : t ≠ [] → l.token ≠ .fixed .doWord)
      (rest : Paired T t t' { p with tokens := s } { q with tokens := s' })
      (back : Paired T t t' { p with tokens := s.push l } { q with tokens := s'.push l' })
  | closed {n m : Lexeme} {s s' : TokenStream} (hp : p.tokens.next = (.ok (some n), s))
      (hq : q.tokens.next = (.ok (some m), s')) (hn : n.token = .fixed .newline)
      (hm : m.token = .fixed .rparen) (rest : Overrun t { p with tokens := s })
      (back : Paired T t t' { p with tokens := s.push n } { q with tokens := s'.push m })

theorem Paired.meets (h : Paired T t t' p q) (hb : Behind T t t') : Meets T t t' p q := by
  obtain ⟨⟨ls, ls', suffix, alike, hp, hq⟩, setting⟩ := h
  cases alike with
  | @cons l l' ms ms' here later =>
    obtain ⟨s, hp, hs⟩ := hp
    obtain ⟨s', hq, hs'⟩ := hq
    refine .token hp hq here (fun more => ?_) ⟨⟨ms, ms', ?_, later, hs, hs'⟩, setting⟩
      ⟨⟨l :: ms, l' :: ms', suffix, .cons here later, hs.push l, hs'.push l'⟩, setting⟩
    · cases hb with
      | ended => exact absurd rfl more
      | closed _ _ noDo => exact noDo l (suffix.subset List.mem_cons_self)
    · exact (List.suffix_cons l ms).trans suffix
  | nil =>
    cases hb with
    | ended =>
      obtain ⟨s, hp⟩ := hp
      obtain ⟨s', hq⟩ := hq
      exact .ended hp hq ⟨⟨[], [], suffix, .nil, TokenStream.lists_end hp,
        TokenStream.lists_end hq⟩, setting⟩
    | @closed n m ms hn hm noDo =>
      obtain ⟨s, hp, hs⟩ := hp
      obtain ⟨s', hq, hs'⟩ := hq
      exact .closed hp hq hn hm ⟨List.cons_ne_nil n [], hs⟩
        ⟨⟨[], [], suffix, .nil, hs.push n, hs'.push m⟩, setting⟩

/-! ## Steps in both places -/

/-- A value that `x` gives is given by `y` in the other place, unless `x` overruns. -/
structure Keeps (T t t' : List Lexeme) (x y : Parse α) : Prop where
  paired : ∀ {p q a u}, Paired T t t' p q → x p = .ok a u →
    Overrun t u ∨ ∃ v, y q = .ok a v ∧ Paired T t t' u v
  overrun : ∀ {p a u}, Overrun t p → x p = .ok a u → Overrun t u

section
variable {x y : Parse α} {f f' : α → Parse β} {r : Nested} {fuel : Nat}

theorem keeps_void (h : Void x) : Keeps T t t' x y :=
  ⟨fun _ e => absurd e (h _ _ _), fun _ e => absurd e (h _ _ _)⟩

theorem keeps_pure (a : α) : Keeps T t t' (pure a) (pure a) :=
  ⟨fun h e => by cases e; exact .inr ⟨_, rfl, h⟩, fun h e => by cases e; exact h⟩

theorem keeps_bind (hx : Keeps T t t' x y) (hf : ∀ a, Keeps T t t' (f a) (f' a)) :
    Keeps T t t' (x >>= f) (y >>= f') := by
  refine ⟨fun h e => ?_, fun h e => ?_⟩ <;> obtain ⟨a, u, hu, e⟩ := exists_of_bind_ok e
  · rcases hx.paired h hu with beyond | ⟨v, hv, h⟩
    · exact .inl ((hf a).overrun beyond e)
    · rw [bind_ok hv]
      exact (hf a).paired h e
  · exact (hf a).overrun (hx.overrun h hu) e

theorem keeps_lineHere {f f' : Nat → Parse β}
    (hf : ∀ line line', Keeps T t t' (f line) (f' line')) :
    Keeps T t t' (lineHere >>= f) (lineHere >>= f') :=
  ⟨fun h e => (hf _ _).paired h e, fun h e => (hf _ 0).overrun h e⟩

theorem keeps_restricted (noDo : Bool) (h : Keeps T t t' x y) :
    Keeps T t t' (restricted noDo x) (restricted noDo y) := by
  refine ⟨fun {p q a u} hpq e => ?_, fun {p a u} hp e => ?_⟩ <;>
    obtain ⟨u, hu, rfl⟩ := exists_of_restricted_ok e
  · have inside : Paired T t t' { p with noDo := noDo } { q with noDo := noDo } :=
      ⟨hpq.tokens, fun _ => rfl⟩
    rcases h.paired inside hu with beyond | ⟨v, hv, huv⟩
    · exact .inl ⟨beyond.more, beyond.ended⟩
    · exact .inr ⟨_, restricted_ok hv, huv.tokens, hpq.setting⟩
  · have inside : Overrun t { p with noDo := noDo } := ⟨hp.more, hp.ended⟩
    have beyond := h.overrun inside hu
    exact ⟨beyond.more, beyond.ended⟩

section
variable {f f' : Option Lexeme → Parse β} (hb : Behind T t t')
include hb

theorem keeps_next (hnone : Keeps T t t' (f none) (f' none))
    (hsome : ∀ l l', SameLexeme l l' → Keeps T t t' (f (some l)) (f' (some l'))) :
    Keeps T t t' (next >>= f) (next >>= f') := by
  refine ⟨fun h e => ?_, fun h e => ?_⟩
  · cases h.meets hb with
    | ended hp hq rest =>
      rw [bind_ok (next_end hp)] at e
      rw [bind_ok (next_end hq)]
      exact hnone.paired rest e
    | token hp hq alike _ rest _ =>
      rw [bind_ok (next_token hp)] at e
      rw [bind_ok (next_token hq)]
      exact (hsome _ _ alike).paired rest e
    | closed hp _ _ _ rest _ =>
      rw [bind_ok (next_token hp)] at e
      exact .inl ((hsome _ _ (.refl _)).overrun rest e)
  · obtain ⟨s, hs⟩ := h.ended
    rw [bind_ok (next_end hs)] at e
    exact hnone.overrun ⟨h.more, TokenStream.lists_end hs⟩ e

theorem keeps_peek (hnone : Keeps T t t' (f none) (f' none))
    (hsome : ∀ l l', SameLexeme l l' → Keeps T t t' (f (some l)) (f' (some l')))
    (hclosed : ∀ l l', l.token = .fixed .newline → l'.token = .fixed .rparen →
      Keeps T t t' (f (some l)) (f' (some l')) ∨ Refuses .newline (f (some l))) :
    Keeps T t t' (peek >>= f) (peek >>= f') := by
  refine ⟨fun h e => ?_, fun h e => ?_⟩
  · cases h.meets hb with
    | ended hp hq rest =>
      rw [bind_ok (peek_end hp)] at e
      rw [bind_ok (peek_end hq)]
      exact hnone.paired rest e
    | token hp hq alike _ _ back =>
      rw [bind_ok (peek_token hp)] at e
      rw [bind_ok (peek_token hq)]
      exact (hsome _ _ alike).paired back e
    | closed hp hq hn hm _ back =>
      rw [bind_ok (peek_token hp)] at e
      rw [bind_ok (peek_token hq)]
      rcases hclosed _ _ hn hm with keeps | refuses
      · exact keeps.paired back e
      · exact absurd e (refuses _ _ _ hn _ _)
  · obtain ⟨s, hs⟩ := h.ended
    rw [bind_ok (peek_end hs)] at e
    exact hnone.overrun ⟨h.more, TokenStream.lists_end hs⟩ e

theorem keeps_accept {g : Fixed} (hg : ¬Halts g) {F : Bool → Parse β}
    (h : ∀ b, Keeps T t t' (F b) (F b)) : Keeps T t t' (accept g >>= F) (accept g >>= F) := by
  rw [accept_next]
  refine keeps_peek hb (h false) (fun l l' alike => ?_) fun l l' hl hl' => .inl ?_
  · rw [Option.any_some, Option.any_some, alike.token]
    split
    · exact keeps_next hb (h true) fun _ _ _ => h true
    · exact h false
  · rw [Option.any_some, Option.any_some, isFixed_of_halts (.inl rfl) hg hl,
      isFixed_of_halts (.inr rfl) hg hl']
    exact h false

theorem keeps_acceptNewline : Keeps T t t' (accept .newline) (accept .newline) := by
  refine ⟨fun h e => ?_, fun h e => ?_⟩
  · cases h.meets hb with
    | ended hp hq rest =>
      rw [accept_end _ hp] at e
      cases e
      exact .inr ⟨_, accept_end _ hq, rest⟩
    | token hp hq alike _ rest back =>
      rw [accept_token _ hp] at e
      rw [accept_token _ hq, ← alike.token]
      split at e <;> cases e
      · exact .inr ⟨_, if_pos ‹_›, rest⟩
      · exact .inr ⟨_, if_neg ‹_›, back⟩
    | closed hp _ hn _ rest _ =>
      rw [accept_token _ hp, if_pos (by rw [hn]; rfl)] at e
      cases e
      exact .inl rest
  · obtain ⟨s, hs⟩ := h.ended
    rw [accept_end _ hs] at e
    cases e
    exact ⟨h.more, TokenStream.lists_end hs⟩

theorem keeps_endOfCommand : Keeps T t t' endOfCommand endOfCommand := by
  refine ⟨fun h e => ?_, fun h e => ?_⟩
  · cases h.meets hb with
    | ended hp hq rest =>
      rw [endOfCommand, bind_ok (next_end hp)] at e
      cases e
      exact .inr ⟨_, bind_ok (next_end hq), rest⟩
    | token hp hq alike _ rest back =>
      rw [endOfCommand_token hp] at e
      rw [endOfCommand_token hq, ← alike.token]
      split at e
      · cases e
        exact .inr ⟨_, if_pos ‹_›, back⟩
      split at e <;> cases e
      exact .inr ⟨_, (if_neg ‹_›).trans (if_pos ‹_›), rest⟩
    | closed hp _ hn _ rest _ =>
      rw [endOfCommand_token hp, hn] at e
      cases e
      exact .inl rest
  · obtain ⟨s, hs⟩ := h.ended
    rw [endOfCommand, bind_ok (next_end hs)] at e
    cases e
    exact ⟨h.more, TokenStream.lists_end hs⟩

end

/-! ## Blocks -/

/-- Where no `do` is next the restriction does not matter. -/
theorem blockTrailer_of_ne_do
    (h : ∀ l s, p.tokens.next = (.ok (some l), s) → l.token ≠ .fixed .doWord) :
    blockTrailer r fuel p = braceBlock r fuel p := by
  obtain ⟨s, noDo⟩ := p
  cases noDo with
  | true => rfl
  | false =>
    change (accept .doWord >>= doBlock r fuel) ⟨s, false⟩ = _
    cases hs : s.next with
    | mk a s' =>
      have passes : ∀ {o u}, peek ⟨s, false⟩ = .ok o u → o.any (·.token.isFixed .doWord) = false →
          (accept .doWord >>= doBlock r fuel) ⟨s, false⟩ = braceBlock r fuel ⟨s, false⟩ :=
        fun hp other => (accept_passes hp other).trans (braceBlock_peek hp).symm
      match a with
      | .ok none => exact passes (peek_end (p := ⟨s, false⟩) hs) rfl
      | .ok (some l) =>
        refine passes (peek_token (p := ⟨s, false⟩) hs) ?_
        cases hl : l.token.isFixed .doWord with
        | false => exact hl
        | true => exact absurd (eq_of_isFixed hl) (h l s' hs)
      | .error e =>
        have failed := accept_error (p := ⟨s, false⟩) .doWord hs
        have failed' := accept_error (p := ⟨s, false⟩) .lbrace hs
        exact (bind_error failed).trans (bind_error failed').symm

theorem keeps_blockTrailer (hb : Behind T t t')
    (hend : Keeps T t t' (blockBody r .endWord fuel) (blockBody r .endWord fuel))
    (hbrace : Keeps T t t' (braceBlock r fuel) (braceBlock r fuel)) :
    Keeps T t t' (blockTrailer r fuel) (blockTrailer r fuel) := by
  have trailing : ∀ b, Keeps T t t' (doBlock r fuel b) (doBlock r fuel b) := by
    rintro (_ | _)
    · exact hbrace
    · exact keeps_bind hend fun b => keeps_pure (some b)
  have unbarred : Keeps T t t' (accept .doWord >>= doBlock r fuel)
      (accept .doWord >>= doBlock r fuel) :=
    keeps_accept hb (by decide) trailing
  refine ⟨fun {p q a u} h e => ?_, fun {p a u} h e => ?_⟩
  · by_cases ht : t = []
    · -- Nothing is behind the tokens, and the restriction is the same.
      have same := h.setting ht
      obtain ⟨s, noDo⟩ := p
      obtain ⟨s', noDo'⟩ := q
      cases (same : noDo = noDo')
      cases noDo with
      | true => exact hbrace.paired h e
      | false => exact unbarred.paired h e
    · rw [blockTrailer_of_ne_do fun l s hl => ?_] at e
      · rw [blockTrailer_of_ne_do fun l s hl => ?_]
        · exact hbrace.paired h e
        · cases h.meets hb with
          | ended _ hq _ => cases hl.symm.trans hq
          | token _ hq alike noDo _ _ =>
            cases hl.symm.trans hq
            rw [← alike.token]
            exact noDo ht
          | closed _ hq _ hm _ _ =>
            cases hl.symm.trans hq
            rw [hm]
            nofun
      · cases h.meets hb with
        | ended hp _ _ => cases hl.symm.trans hp
        | token hp _ _ noDo _ _ =>
          cases hl.symm.trans hp
          exact noDo ht
        | closed hp _ hn _ _ _ =>
          cases hl.symm.trans hp
          rw [hn]
          nofun
  · obtain ⟨s, hs⟩ := h.ended
    rw [blockTrailer_of_ne_do fun l s' hl => by cases hl.symm.trans hs] at e
    exact hbrace.overrun h e

/-- Every rule of the grammar gives the same in front of the same tokens. -/
theorem keeps_congruence (hb : Behind T t t') :
    Congruence (fun _ _ => True) fun _ {_} x y => Keeps T t t' x y where
  soften h := h
  free h := h
  unfinished := keeps_void void_unfinished
  fail fault line _ _ := keeps_void (void_fail fault line)
  fail_after fault line _ _ _ := keeps_void (Void.after fun _ => void_fail fault line)
  pure a := keeps_pure a
  bind hx hf := keeps_bind hx hf
  bind_free hx hf := keeps_bind hx hf
  bind_rests hx hf _ := keeps_bind hx hf
  bind_breaks hx hf _ := keeps_bind hx hf
  lineHere _ _ h := keeps_lineHere fun line line' => h line line' trivial
  restricted noDo h := keeps_restricted noDo h
  next hnone hsome := keeps_next hb hnone fun l l' alike => hsome l l' alike trivial
  look e e' hnone hsome hclosed := by
    have ended : Keeps T t t' _ _ := keeps_lineHere fun line line' => hnone line line' trivial
    rw [← e, ← e'] at ended
    exact keeps_peek hb ended (fun l l' alike => hsome l l' alike trivial)
      fun l l' hl hl' => hclosed l l' hl hl' trivial
  acceptNewline := keeps_acceptNewline hb
  endOfCommand := keeps_endOfCommand hb
  blockTrailer hend hbrace := keeps_blockTrailer hb hend hbrace

end

end Parse

end ObjectLang
