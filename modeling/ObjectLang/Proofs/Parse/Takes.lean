import ObjectLang.Proofs.Token.Reading
import ObjectLang.Parse

/-!
# What a parsing step takes

A step run on a stream of pieces takes some of them from the front, gives a value
and leaves the others. Here are the steps that everything else is put together
from, and the loops, whose bound has to exceed the number of rounds.
-/

namespace ObjectLang.Parse

variable {α β : Type} {nd : Bool} {A B C : List Piece}

/-- From a stream of `A` the step gives `a` and leaves `B`. -/
def Takes (nd : Bool) (x : Parse α) (A : List Piece) (a : α) (B : List Piece) : Prop :=
  ∀ p : Parser, p.noDo = nd → p.tokens.Yields A →
    ∃ q : Parser, x p = .ok a q ∧ q.noDo = nd ∧ q.tokens.Yields B

/-! ## Steps in sequence -/

theorem takes_pure (a : α) : Takes nd (pure a) A a A :=
  fun p hn hp => ⟨p, rfl, hn, hp⟩

theorem Takes.bind {x : Parse α} {f : α → Parse β} {a : α} {b : β} (hx : Takes nd x A a B)
    (hf : Takes nd (f a) B b C) : Takes nd (x >>= f) A b C := by
  intro p hn hp
  obtain ⟨q, hq, hn', hp'⟩ := hx p hn hp
  obtain ⟨r, hr, h⟩ := hf q hn' hp'
  refine ⟨r, ?_, h⟩
  change Parse.bind x f p = _
  rw [Parse.bind, hq]
  exact hr

theorem takes_next {f : Option Lexeme → Parse β} {b : β} {p : Piece}
    (hf : ∀ l : Lexeme, l.token = p.token → (p.glued = true → l.spaced = false) →
      Takes nd (f (some l)) A b C) : Takes nd (next >>= f) (p :: A) b C := by
  intro q hn hq
  obtain ⟨l, s, e, ht, hs, hy⟩ := hq
  obtain ⟨r, hr, h⟩ := hf l ht hs { q with tokens := s } hn hy
  refine ⟨r, ?_, h⟩
  change Parse.bind next f q = _
  rw [Parse.bind, next, onTokens, e]
  exact hr

theorem takes_peek {f : Option Lexeme → Parse β} {b : β} {p : Piece}
    (hf : ∀ l : Lexeme, l.token = p.token → (p.glued = true → l.spaced = false) →
      Takes nd (f (some l)) (p :: A) b C) : Takes nd (peek >>= f) (p :: A) b C := by
  intro q hn hq
  obtain ⟨l, s, e, ht, hs, hy⟩ := hq
  obtain ⟨r, hr, h⟩ := hf l ht hs { q with tokens := s.push l } hn ⟨l, s, rfl, ht, hs, hy⟩
  refine ⟨r, ?_, h⟩
  change Parse.bind peek f q = _
  rw [Parse.bind, peek, onTokens, TokenStream.peek, e]
  exact hr

theorem takes_peek_end {f : Option Lexeme → Parse β} {b : β} (hf : Takes nd (f none) [] b C) :
    Takes nd (peek >>= f) [] b C := by
  intro q hn hq
  obtain ⟨s, e, e'⟩ := hq
  obtain ⟨r, hr, h⟩ := hf { q with tokens := s } hn ⟨s, e', e'⟩
  refine ⟨r, ?_, h⟩
  change Parse.bind peek f q = _
  rw [Parse.bind, peek, onTokens, TokenStream.peek, e]
  exact hr

theorem takes_next_end {f : Option Lexeme → Parse β} {b : β} (hf : Takes nd (f none) [] b C) :
    Takes nd (next >>= f) [] b C := by
  intro q hn hq
  obtain ⟨s, e, e'⟩ := hq
  obtain ⟨r, hr, h⟩ := hf { q with tokens := s } hn ⟨s, e', e'⟩
  refine ⟨r, ?_, h⟩
  change Parse.bind next f q = _
  rw [Parse.bind, next, onTokens, e]
  exact hr

theorem takes_push {l : Lexeme} {p : Piece} (ht : l.token = p.token)
    (hs : p.glued = true → l.spaced = false) : Takes nd (push l) A () (p :: A) :=
  fun q hn hq => ⟨_, rfl, hn, l, q.tokens, rfl, ht, hs, hq⟩

theorem takes_lineHere {f : Nat → Parse β} {b : β} (hf : ∀ line, Takes nd (f line) A b C) :
    Takes nd (lineHere >>= f) A b C :=
  fun q hn hq => hf q.tokens.lineHere q hn hq

theorem takes_doAllowed : Takes nd doAllowed A (!nd) A :=
  fun q hn hq => ⟨q, by rw [doAllowed, hn], hn, hq⟩

theorem takes_restricted {noDo : Bool} {x : Parse α} {a : α} (hx : Takes noDo x A a B) :
    Takes nd (restricted noDo x) A a B := by
  intro q hn hq
  obtain ⟨r, hr, _, h⟩ := hx { q with noDo := noDo } rfl hq
  exact ⟨{ r with noDo := q.noDo }, by rw [restricted, hr], hn, h⟩

/-! ## Fixed tokens -/

def headIs (A : List Piece) (f : Fixed) : Bool :=
  A.head?.any (·.token.isFixed f)

theorem eq_of_isFixed {t : Token} {f : Fixed} (h : t.isFixed f = true) : t = .fixed f := by
  cases t with
  | fixed g =>
    rw [Token.isFixed, decide_eq_true_eq] at h
    rw [h]
  | _ => cases h

theorem headIs_eq_false {f : Fixed} (h : ∀ p ∈ A.head?, p.token ≠ .fixed f) :
    headIs A f = false := by
  cases A with
  | nil => rfl
  | cons p A =>
    by_cases e : p.token.isFixed f = true
    · exact absurd (eq_of_isFixed e) (h p rfl)
    · exact Bool.eq_false_iff.mpr e

theorem takes_nextIs (f : Fixed) : Takes nd (nextIs f) A (headIs A f) A := by
  cases A with
  | nil => exact takes_peek_end (takes_pure _)
  | cons p A =>
    refine takes_peek fun l hl _ => ?_
    have e : headIs (p :: A) f = (some l).any (·.token.isFixed f) := by
      rw [Option.any_some, hl]; rfl
    rw [e]
    exact takes_pure _

theorem takes_accept (f : Fixed) {g : Bool} :
    Takes nd (accept f) (⟨.fixed f, g⟩ :: A) true A := by
  refine (takes_nextIs f).bind ?_
  rw [headIs, List.head?_cons, Option.any_some, Token.isFixed, decide_eq_true rfl, if_pos rfl]
  exact takes_next fun _ _ _ => takes_pure _

theorem takes_not_accept {f : Fixed} (h : headIs A f = false) : Takes nd (accept f) A false A := by
  refine (takes_nextIs f).bind ?_
  rw [h, if_neg (by decide)]
  exact takes_pure _

theorem takes_acceptTouching (f : Fixed) :
    Takes nd (acceptTouching f) (⟨.fixed f, true⟩ :: A) true A := by
  have touches : Takes nd (nextTouches f) (⟨.fixed f, true⟩ :: A) true (⟨.fixed f, true⟩ :: A) := by
    refine takes_peek fun l hl hs => ?_
    have e : ((some l).any fun l => l.token.isFixed f && !l.spaced) = true := by
      rw [Option.any_some, hl, hs rfl, Token.isFixed, decide_eq_true rfl]; rfl
    rw [e]
    exact takes_pure _
  refine touches.bind ?_
  rw [if_pos rfl]
  exact takes_next fun _ _ _ => takes_pure _

theorem takes_not_acceptTouching {f : Fixed} (h : headIs A f = false) :
    Takes nd (acceptTouching f) A false A := by
  have touches : Takes nd (nextTouches f) A false A := by
    cases A with
    | nil => exact takes_peek_end (takes_pure _)
    | cons p A =>
      refine takes_peek fun l hl _ => ?_
      have e : ((some l).any fun l => l.token.isFixed f && !l.spaced) = false := by
        rw [headIs, List.head?_cons, Option.any_some] at h
        rw [Option.any_some, hl, h]; rfl
      rw [e]
      exact takes_pure _
  refine touches.bind ?_
  rw [if_neg (by decide)]
  exact takes_pure _

theorem takes_expect (f : Fixed) {g : Bool} : Takes nd (expect f) (⟨.fixed f, g⟩ :: A) () A := by
  refine (takes_accept f).bind ?_
  rw [if_pos rfl]
  exact takes_pure _

/-! ## Repetition -/

theorem takes_iterate_stop {step : α → Parse (Option α)} {a : α} {k : Nat} (hk : 0 < k)
    (h : Takes nd (step a) A none B) : Takes nd (iterate step k a) A a B := by
  cases k with
  | zero => exact absurd hk (Nat.lt_irrefl 0)
  | succ k => exact h.bind (takes_pure a)

theorem takes_iterate_step {step : α → Parse (Option α)} {a b c : α} {k : Nat}
    (h : Takes nd (step a) A (some b) B) (hr : Takes nd (iterate step k b) B c C) :
    Takes nd (iterate step (k + 1) a) A c C :=
  h.bind hr

theorem takes_collect_stop {step : Parse (Option α)} {k : Nat} (hk : 0 < k)
    (h : Takes nd step A none B) : Takes nd (collect step k) A [] B := by
  cases k with
  | zero => exact absurd hk (Nat.lt_irrefl 0)
  | succ k => exact h.bind (takes_pure [])

theorem takes_collect_step {step : Parse (Option α)} {a : α} {l : List α} {k : Nat}
    (h : Takes nd step A (some a) B) (hr : Takes nd (collect step k) B l C) :
    Takes nd (collect step (k + 1)) A (a :: l) C :=
  h.bind (hr.bind (takes_pure _))

def Newlines (run : List Piece) : Prop :=
  ∀ p ∈ run, p.token = .fixed .newline

def Separators (run : List Piece) : Prop :=
  ∀ p ∈ run, p.token = .fixed .newline ∨ p.token = .fixed .semicolon

theorem takes_skipNewlines {run : List Piece} (h : Newlines run) (hB : headIs B .newline = false) :
    ∀ {k : Nat}, run.length < k → Takes nd (skipNewlines k) (run ++ B) () B := by
  induction run with
  | nil =>
    intro k hk
    refine takes_iterate_stop hk ((takes_not_accept hB).bind ?_)
    rw [if_neg (by decide)]
    exact takes_pure _
  | cons p run ih =>
    intro k hk
    obtain ⟨t, g⟩ := p
    obtain rfl : t = .fixed .newline := h _ List.mem_cons_self
    cases k with
    | zero => exact absurd hk (Nat.not_lt_zero _)
    | succ k =>
      refine takes_iterate_step ((takes_accept .newline).bind ?_)
        (ih (fun q hq => h q (List.mem_cons_of_mem _ hq)) (Nat.lt_of_succ_lt_succ hk))
      rw [if_pos rfl]
      exact takes_pure _

theorem takes_acceptSeparator {p : Piece}
    (h : p.token = .fixed .newline ∨ p.token = .fixed .semicolon) :
    Takes nd acceptSeparator (p :: A) true A := by
  obtain ⟨t, g⟩ := p
  rcases h with h | h
  · subst h
    refine (takes_accept .newline).bind ?_
    rw [if_pos rfl]
    exact takes_pure _
  · subst h
    refine (takes_not_accept (by rfl)).bind ?_
    rw [if_neg (by decide)]
    exact takes_accept .semicolon

theorem takes_not_acceptSeparator (hn : headIs A .newline = false)
    (hs : headIs A .semicolon = false) : Takes nd acceptSeparator A false A := by
  refine (takes_not_accept hn).bind ?_
  rw [if_neg (by decide)]
  exact takes_not_accept hs

theorem takes_skipSeparators {run : List Piece} (h : Separators run)
    (hn : headIs B .newline = false) (hs : headIs B .semicolon = false) :
    ∀ {k : Nat}, run.length < k → Takes nd (skipSeparators k) (run ++ B) () B := by
  induction run with
  | nil =>
    intro k hk
    refine takes_iterate_stop hk ((takes_not_acceptSeparator hn hs).bind ?_)
    rw [if_neg (by decide)]
    exact takes_pure _
  | cons p run ih =>
    intro k hk
    cases k with
    | zero => exact absurd hk (Nat.not_lt_zero _)
    | succ k =>
      refine takes_iterate_step ((takes_acceptSeparator (h p List.mem_cons_self)).bind ?_)
        (ih (fun q hq => h q (List.mem_cons_of_mem _ hq)) (Nat.lt_of_succ_lt_succ hk))
      rw [if_pos rfl]
      exact takes_pure _

/-! ## Names -/

theorem takes_nameBy {name? : Token → Option String} {p : Piece} {n : String}
    (h : name? p.token = some n) : Takes nd (nameBy name?) (p :: A) n A := by
  refine takes_lineHere fun line => takes_next fun l hl _ => ?_
  simp only [hl, h]
  exact takes_pure n

/-! ## Lists -/

inductive NameList : List String → List Piece → Prop where
  | one {n : String} {g : Bool} : NameList [n] [⟨.name n, g⟩]
  | more {n : String} {ns : List String} {g c : Bool} {ps : List Piece} : NameList ns ps →
      NameList (n :: ns) (⟨.name n, g⟩ :: ⟨.fixed .comma, c⟩ :: ps)

theorem takes_commaThen {item : Parse α} {a : α} {g : Bool} (h : Takes nd item A a B) :
    Takes nd (commaThen item) (⟨.fixed .comma, g⟩ :: A) (some a) B := by
  refine (takes_accept .comma).bind ?_
  rw [if_pos rfl]
  exact h.bind (takes_pure _)

theorem takes_not_commaThen {item : Parse α} (h : headIs A .comma = false) :
    Takes nd (commaThen item) A none A := by
  refine (takes_not_accept h).bind ?_
  rw [if_neg (by decide)]
  exact takes_pure _

theorem takes_nameList {ns : List String} {ps : List Piece} (h : NameList ns ps)
    (hB : headIs B .comma = false) : ∀ {k : Nat}, ps.length ≤ k →
    Takes nd (separated identifier k) (ps ++ B) ns B := by
  have rest : ∀ {ns : List String} {ps : List Piece}, NameList ns ps → ∀ {k : Nat} {c : Bool},
      ps.length < k →
      Takes nd (collect (commaThen identifier) k) (⟨.fixed .comma, c⟩ :: ps ++ B) ns B := by
    intro ns ps h
    induction h with
    | one =>
      intro k c hk
      cases k with
      | zero => exact absurd hk (Nat.not_lt_zero _)
      | succ k =>
        exact takes_collect_step (takes_commaThen (takes_nameBy rfl))
          (takes_collect_stop (by simp at hk; omega) (takes_not_commaThen hB))
    | @more n ns g d ps _ ih =>
      intro k c hk
      cases k with
      | zero => exact absurd hk (Nat.not_lt_zero _)
      | succ k =>
        have name : Takes nd identifier (⟨.name n, g⟩ :: (⟨.fixed .comma, d⟩ :: ps ++ B)) n
            (⟨.fixed .comma, d⟩ :: ps ++ B) := takes_nameBy rfl
        exact takes_collect_step (takes_commaThen name) (ih (by simp at hk; omega))
  intro k hk
  cases h with
  | one =>
    exact (takes_nameBy rfl).bind ((takes_collect_stop (by simp at hk; omega)
      (takes_not_commaThen hB)).bind (takes_pure _))
  | @more n ns g d ps h =>
    have name : Takes nd identifier (⟨.name n, g⟩ :: (⟨.fixed .comma, d⟩ :: ps ++ B)) n
        (⟨.fixed .comma, d⟩ :: ps ++ B) := takes_nameBy rfl
    exact name.bind ((rest h (by simp at hk; omega)).bind (takes_pure _))

end ObjectLang.Parse
