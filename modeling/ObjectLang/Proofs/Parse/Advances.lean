import ObjectLang.Proofs.Parse.Follows

/-!
# Parsing steps end

A step ends if its bounds exceed the number of tokens that are left, because no loop goes
another round without taking a token. Where it leaves off is further on in the same text.
-/

namespace ObjectLang

open Scan

/-! ## Tokens are taken from the text -/

namespace TokenStream

def Answer.count : Answer → Nat
  | .ok (some _) => 1
  | _ => 0

theorem size_read (s : TokenStream) : s.read.2.size + Answer.count s.read.1 ≤ s.size := by
  obtain ⟨w, split, _⟩ := skip_splits s.line false s.rest
  have whole := congrArg List.length split
  rw [List.length_append] at whole
  cases hr : (skip s.line false s.rest).rest with
  | nil =>
    rw [read_end hr]
    exact Nat.add_le_add_left (Nat.zero_le _) _
  | cons c r =>
    obtain ⟨v, hv, split', _⟩ := itemAt_consumes c r
    have part := congrArg List.length split'
    rw [List.length_append] at part
    rw [hr] at whole
    have hpos := List.length_pos_iff.mpr hv
    have one :
        Answer.count (answer s.line (skip s.line false s.rest).skipped (itemAt c r).1) ≤ 1 := by
      cases (itemAt c r).1 <;> simp [answer, Answer.count]
    rw [read_item hr]
    simp only [size]
    omega

theorem size_next (s : TokenStream) : s.next.2.size + Answer.count s.next.1 ≤ s.size := by
  obtain ⟨rest, line, pushed⟩ := s
  cases pushed with
  | nil => exact size_read _
  | cons l ls => simp only [next, size, Answer.count, List.length_cons]; omega

/-- `s'` stands further on in the text of `s`. -/
def Onward (s s' : TokenStream) : Prop :=
  ∃ w, s.rest = w ++ s'.rest ∧ s'.line = s.line + w.count '\n'

theorem Onward.refl (s : TokenStream) : s.Onward s := ⟨[], rfl, rfl⟩

theorem Onward.trans {s s' s'' : TokenStream} (h : s.Onward s') (h' : s'.Onward s'') :
    s.Onward s'' := by
  obtain ⟨w, hw, line⟩ := h
  obtain ⟨v, hv, line'⟩ := h'
  refine ⟨w ++ v, by rw [hw, hv, List.append_assoc], ?_⟩
  rw [line', line, List.count_append, Nat.add_assoc]

theorem onward_next (s : TokenStream) : s.Onward s.next.2 := by
  obtain ⟨rest, line, pushed⟩ := s
  cases pushed with
  | cons l ls => exact .refl _
  | nil =>
    obtain ⟨w, split, hline⟩ := skip_splits line false rest
    change TokenStream.Onward _ (TokenStream.read _).2
    cases hr : (skip line false rest).rest with
    | nil =>
      rw [hr] at split
      rw [read_end hr]
      exact ⟨w, split, hline⟩
    | cons c r =>
      obtain ⟨v, _, split', count⟩ := itemAt_consumes c r
      rw [hr, split'] at split
      rw [read_item hr]
      refine ⟨w ++ v, by rw [List.append_assoc]; exact split, ?_⟩
      have shift := lineAfter_add 0 (skip line false rest).line (itemAt c r).1
      rw [Nat.zero_add, hline] at shift
      rw [List.count_append, count]
      simp only [hline, shift]
      omega

theorem size_push (s : TokenStream) (l : Lexeme) : (s.push l).size = s.size + 1 :=
  Nat.add_right_comm _ 1 _

/-- Behind these tokens `s` goes on as `s'` does. -/
def Leads : TokenStream → List Lexeme → TokenStream → Prop
  | s, [], s' => s.next = s'.next
  | s, l :: ls, s' => ∃ u, s.next = (.ok (some l), u) ∧ u.Leads ls s'

theorem Leads.trans {s' s'' : TokenStream} {ls' : List Lexeme} : ∀ {ls : List Lexeme}
    {s : TokenStream}, s.Leads ls s' → s'.Leads ls' s'' → s.Leads (ls ++ ls') s''
  | [], s, h, h' => by
    cases ls' with
    | nil => exact Eq.trans h h'
    | cons l ls' =>
      obtain ⟨u, given, rest⟩ := h'
      exact ⟨u, Eq.trans h given, rest⟩
  | l :: ls, s, ⟨u, given, rest⟩, h' => ⟨u, given, rest.trans h'⟩

end TokenStream

namespace Parse

variable {α β : Type}

theorem next_again {s s' : TokenStream} (h : s.next = (.ok none, s')) :
    s'.next = (.ok none, s') := by
  have given := s.gives_next
  rw [h] at given
  cases given with
  | ended _ pushed rest =>
    obtain ⟨_, line, _⟩ := s'
    cases pushed
    cases rest
    rfl

/-- From `p` a step has come to `q`, with `cost` tokens less or still fewer. -/
structure Moves (cost : Nat) (p q : Parser) : Prop where
  size : q.tokens.size + cost ≤ p.tokens.size
  onward : p.tokens.Onward q.tokens
  tokens : ∃ ls, cost ≤ ls.length ∧ p.tokens.Leads ls q.tokens
  noDo : q.noDo = p.noDo

/-- With fewer than `n` tokens left the step ends, and each value has taken its cost in tokens. An
error leaves at least the restriction on `do` as it was. -/
def Advances (n : Nat) (cost : α → Nat) (x : Parse α) : Prop :=
  ∀ p : Parser, p.tokens.size < n → (∃ a q, x p = .ok a q ∧ Moves (cost a) p q) ∨
    ∃ e q, x p = .error e q ∧ q.noDo = p.noDo

theorem Moves.refl (p : Parser) : Moves 0 p p :=
  ⟨Nat.le_refl _, .refl _, ⟨[], Nat.le_refl _, rfl⟩, rfl⟩

theorem Moves.trans {c c' : Nat} {p q r : Parser} (h : Moves c p q) (h' : Moves c' q r) :
    Moves (c + c') p r := by
  obtain ⟨ls, enough, leads⟩ := h.tokens
  obtain ⟨ls', enough', leads'⟩ := h'.tokens
  refine ⟨by have := h.size; have := h'.size; omega, h.onward.trans h'.onward,
    ⟨ls ++ ls', ?_, leads.trans leads'⟩, h'.noDo.trans h.noDo⟩
  rw [List.length_append]
  omega

theorem Moves.of_le {c c' : Nat} {p q : Parser} (h : Moves c p q) (hc : c' ≤ c) :
    Moves c' p q := by
  obtain ⟨ls, enough, leads⟩ := h.tokens
  exact ⟨Nat.le_trans (Nat.add_le_add_left hc _) h.size, h.onward,
    ⟨ls, Nat.le_trans hc enough, leads⟩, h.noDo⟩

section
variable {p : Parser} {s : TokenStream} {l : Lexeme}

theorem moves_end (h : p.tokens.next = (.ok none, s)) : Moves 0 p { p with tokens := s } := by
  have size := p.tokens.size_next
  have onward := p.tokens.onward_next
  rw [h] at size onward
  exact ⟨size, onward, ⟨[], Nat.le_refl _, h.trans (next_again h).symm⟩, rfl⟩

theorem moves_token (h : p.tokens.next = (.ok (some l), s)) :
    Moves 1 p { p with tokens := s } := by
  have size := p.tokens.size_next
  have onward := p.tokens.onward_next
  rw [h] at size onward
  exact ⟨size, onward, ⟨[l], Nat.le_refl _, s, h, rfl⟩, rfl⟩

/-- A token has been taken and is put back. -/
theorem moves_back (h : p.tokens.next = (.ok (some l), s)) :
    Moves 0 p { p with tokens := s.push l } := by
  have size := p.tokens.size_next
  have onward := p.tokens.onward_next
  rw [h] at size onward
  exact ⟨Nat.le_trans (Nat.le_of_eq (s.size_push l)) size, onward, ⟨[], Nat.le_refl _, h⟩, rfl⟩

end

section
variable {n m : Nat} {cost : α → Nat} {price : β → Nat} {x : Parse α} {f : α → Parse β}

/-! ## Steps in sequence -/

theorem Advances.of_le (h : Advances n cost x) (hm : m ≤ n) : Advances m cost x :=
  fun p hp => h p (Nat.lt_of_lt_of_le hp hm)

theorem Advances.free (h : Advances n cost x) : Advances n (fun _ => 0) x :=
  fun p hp => (h p hp).imp_left fun ⟨a, q, e, hq⟩ => ⟨a, q, e, hq.of_le (Nat.zero_le _)⟩

theorem advances_pure {a : α} (h : cost a = 0) : Advances n cost (pure a) :=
  fun p _ => .inl ⟨a, p, rfl, h ▸ .refl p⟩

theorem advances_fail (fault : SyntaxFault) (line : Nat) : Advances n cost (fail fault line) :=
  fun p _ => .inr ⟨_, p, rfl, rfl⟩

/-- What comes after a step has fewer tokens left. -/
theorem Advances.bind_less (hx : Advances n cost x)
    (hf : ∀ a, Advances (n - cost a) (fun b => price b - cost a) (f a)) :
    Advances n price (x >>= f) := by
  intro p hp
  change (∃ b r, Parse.bind x f p = _ ∧ _) ∨ ∃ e r, Parse.bind x f p = _ ∧ _
  unfold Parse.bind
  rcases hx p hp with ⟨a, q, e, hq⟩ | ⟨e, q, h, restored⟩
  · rw [e]
    have size := hq.size
    rcases hf a q (by omega) with ⟨b, r, e', hr⟩ | ⟨e', r, h, restored⟩
    · have enough : price b ≤ cost a + (price b - cost a) := by omega
      exact .inl ⟨b, r, e', (hq.trans hr).of_le enough⟩
    · exact .inr ⟨e', r, h, restored.trans hq.noDo⟩
  · rw [h]
    exact .inr ⟨e, q, rfl, restored⟩

theorem Advances.bind (hx : Advances n cost x)
    (hf : ∀ a, Advances n (fun b => price b - cost a) (f a)) : Advances n price (x >>= f) :=
  hx.bind_less fun a => (hf a).of_le (Nat.sub_le n (cost a))

theorem Advances.then_pure (hx : Advances n cost x) {g : α → β}
    (hg : ∀ a, price (g a) ≤ cost a) : Advances n price (x >>= fun a => pure (g a)) :=
  hx.bind fun a => advances_pure (by have := hg a; omega)

theorem advances_ite {b : Bool} {x y : Parse α} (hx : b = true → Advances n cost x)
    (hy : b = false → Advances n cost y) : Advances n cost (if b then x else y) := by
  cases b with
  | true => exact hx rfl
  | false => exact hy rfl

theorem advances_restricted (noDo : Bool) (h : Advances n cost x) :
    Advances n cost (restricted noDo x) := by
  intro p hp
  unfold restricted
  rcases h { p with noDo := noDo } hp with ⟨a, q, e, hq⟩ | ⟨e, q, h⟩
  · rw [e]
    exact .inl ⟨a, _, rfl, hq.size, hq.onward, hq.tokens, rfl⟩
  · rw [h.1]
    exact .inr ⟨e, _, rfl, rfl⟩

theorem advances_lineHere : Advances n (fun _ => 0) lineHere :=
  fun p _ => .inl ⟨_, p, rfl, .refl p⟩

theorem advances_doAllowed : Advances n (fun _ => 0) doAllowed :=
  fun p _ => .inl ⟨_, p, rfl, .refl p⟩

/-! ## Tokens -/

theorem advances_next : Advances n (fun l => l.isSome.toNat) next := by
  intro p _
  unfold next onTokens
  cases h : p.tokens.next with
  | mk a s =>
    match a with
    | .ok none => exact .inl ⟨none, _, rfl, moves_end h⟩
    | .ok (some l) => exact .inl ⟨some l, _, rfl, moves_token h⟩
    | .error e => exact .inr ⟨e, _, rfl, rfl⟩

theorem advances_peek : Advances n (fun _ => 0) peek := by
  intro p _
  unfold peek onTokens TokenStream.peek
  cases h : p.tokens.next with
  | mk a s =>
    match a with
    | .ok none => exact .inl ⟨none, _, rfl, moves_end h⟩
    | .ok (some l) => exact .inl ⟨some l, _, rfl, moves_back h⟩
    | .error e => exact .inr ⟨e, _, rfl, rfl⟩

theorem advances_nextPasses (test : Lexeme → Bool) :
    Advances n (fun _ => 0) (do return (← peek).any test) :=
  advances_peek.then_pure fun _ => Nat.le_refl 0

theorem advances_acceptIf (test : Lexeme → Bool) :
    Advances n (fun b => b.toNat) (acceptIf test) := by
  intro p _
  rw [← bind_pure (acceptIf test), acceptIf_bind]
  change (∃ a q, Parse.bind peek _ p = _ ∧ _) ∨ ∃ e q, Parse.bind peek _ p = _ ∧ _
  unfold Parse.bind peek onTokens TokenStream.peek
  cases h : p.tokens.next with
  | mk a s =>
    match a with
    | .ok none => exact .inl ⟨false, _, rfl, moves_end h⟩
    | .ok (some l) =>
      simp only [Option.any_some]
      by_cases ht : test l = true
      · rw [if_pos ht]
        exact .inl ⟨true, _, rfl, moves_token h⟩
      · rw [if_neg ht]
        exact .inl ⟨false, _, rfl, moves_back h⟩
    | .error e => exact .inr ⟨e, _, rfl, rfl⟩

theorem advances_accept (f : Fixed) : Advances n (fun b => b.toNat) (accept f) := by
  rw [accept_eq]
  exact advances_acceptIf _

theorem advances_acceptTouching (f : Fixed) :
    Advances n (fun b => b.toNat) (acceptTouching f) := by
  rw [acceptTouching_eq]
  exact advances_acceptIf _

theorem advances_nextIs (f : Fixed) : Advances n (fun _ => 0) (nextIs f) :=
  advances_nextPasses _

theorem advances_expect (f : Fixed) : Advances n (fun _ => 0) (expect f) := by
  refine (advances_accept f).bind fun b => advances_ite (fun _ => advances_pure ?_) fun _ => ?_
  · exact Nat.zero_sub _
  · exact advances_lineHere.bind fun line => advances_fail _ line

theorem advances_acceptSeparator : Advances n (fun b => b.toNat) acceptSeparator := by
  refine (advances_accept .newline).bind fun b => ?_
  cases b with
  | true => exact advances_pure rfl
  | false => exact advances_accept .semicolon

/-! ## Repetition -/

theorem advances_iterate {step : α → Parse (Option α)} {fuel : Nat} :
    ∀ {n : Nat}, n ≤ fuel → (∀ a, Advances n (fun b => b.isSome.toNat) (step a)) →
      ∀ a, Advances n (fun _ => 0) (iterate step fuel a) := by
  induction fuel with
  | zero => exact fun hn _ _ p hp => absurd (Nat.lt_of_lt_of_le hp hn) (Nat.not_lt_zero _)
  | succ fuel ih =>
    intro n hn h a
    refine (h a).bind_less fun b => ?_
    cases b with
    | none => exact advances_pure rfl
    | some b => exact ih (by simpa using hn) (fun a => (h a).of_le (Nat.sub_le n 1)) b

/-- Each of the values has taken a token of its own. -/
theorem advances_collect_length {step : Parse (Option α)} {fuel : Nat} :
    ∀ {n : Nat}, n ≤ fuel → Advances n (fun b => b.isSome.toNat) step →
      Advances n List.length (collect step fuel) := by
  induction fuel with
  | zero => exact fun hn _ p hp => absurd (Nat.lt_of_lt_of_le hp hn) (Nat.not_lt_zero _)
  | succ fuel ih =>
    intro n hn h
    refine h.bind_less fun b => ?_
    cases b with
    | none => exact advances_pure rfl
    | some b =>
      exact (ih (by simpa using hn) (h.of_le (Nat.sub_le n 1))).then_pure fun _ => Nat.le_refl _

theorem advances_collect {step : Parse (Option α)} {fuel : Nat} {n : Nat} (hn : n ≤ fuel)
    (h : Advances n (fun b => b.isSome.toNat) step) :
    Advances n (fun _ => 0) (collect step fuel) :=
  (advances_collect_length hn h).free

variable {fuel : Nat}

theorem advances_skipNewlines (hn : n ≤ fuel) : Advances n (fun _ => 0) (skipNewlines fuel) := by
  refine advances_iterate hn (fun _ => (advances_accept .newline).bind fun b => ?_) ()
  cases b <;> exact advances_pure rfl

theorem advances_skipSeparators (hn : n ≤ fuel) :
    Advances n (fun _ => 0) (skipSeparators fuel) := by
  refine advances_iterate hn (fun _ => advances_acceptSeparator.bind fun b => ?_) ()
  cases b <;> exact advances_pure rfl

/-! ## Names and lists -/

theorem advances_nameBy (name? : Token → Option String) :
    Advances n (fun _ => 1) (nameBy name?) := by
  refine advances_lineHere.bind fun line => advances_next.bind fun l => ?_
  cases l with
  | none => exact advances_fail _ line
  | some l =>
    simp only
    cases name? l.token with
    | none => exact advances_fail _ _
    | some n => exact advances_pure rfl

variable {item : Parse α}

theorem advances_commaThen (h : Advances n (fun _ => 0) item) :
    Advances n (fun b => b.isSome.toNat) (commaThen item) := by
  refine (advances_accept .comma).bind fun b => ?_
  cases b with
  | true => exact h.then_pure fun _ => Nat.le_refl 0
  | false => exact advances_pure rfl

theorem advances_separated (hn : n ≤ fuel) (h : Advances n (fun _ => 0) item) :
    Advances n (fun _ => 0) (separated item fuel) :=
  h.bind fun _ => (advances_collect hn (advances_commaThen h)).then_pure fun _ => Nat.le_refl 0

theorem advances_parameterList (closing : Fixed) (hn : n ≤ fuel) :
    Advances n (fun _ => 0) (parameterList closing fuel) := by
  refine (advances_accept closing).bind fun b => ?_
  cases b with
  | true => exact advances_pure rfl
  | false =>
    refine (advances_separated hn (advances_nameBy _).free).bind fun names => ?_
    exact (advances_expect closing).then_pure fun _ => Nat.le_refl 0

theorem advances_items (closing : Fixed) {lines : Nat} : ∀ {fuel n : Nat}, n ≤ fuel → n ≤ lines →
    Advances n (fun _ => 1) item → Advances n (fun _ => 0) (items closing item lines fuel)
  | 0, _, hn, _, _ => fun p hp => absurd (Nat.lt_of_lt_of_le hp hn) (Nat.not_lt_zero _)
  | fuel + 1, n, hn, hl, h => by
    refine (advances_nextIs closing).bind fun b => ?_
    refine advances_ite (fun _ => advances_pure rfl) fun _ => ?_
    refine h.bind_less fun first => ?_
    have newlines : Advances (n - 1) (fun _ => 0) (skipNewlines lines) :=
      advances_skipNewlines (by omega)
    refine newlines.bind fun _ => (advances_accept .comma).bind fun b => ?_
    refine advances_ite (fun _ => newlines.bind fun _ => ?_) fun _ => advances_pure ?_
    · exact (advances_items closing (by omega) (by omega) (h.of_le (Nat.sub_le n 1))).then_pure
        fun _ => by omega
    · omega

theorem advances_delimited (closing : Fixed) (hn : n ≤ fuel) (h : Advances n (fun _ => 1) item) :
    Advances n (fun _ => 0) (delimited closing item fuel) := by
  refine (advances_skipNewlines hn).bind fun _ => ?_
  refine (advances_items closing hn hn h).bind fun found => ?_
  exact (advances_expect closing).then_pure fun _ => Nat.le_refl 0

end

end Parse

end ObjectLang
