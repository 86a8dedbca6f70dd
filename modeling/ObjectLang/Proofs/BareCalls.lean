import Mathlib
import ObjectLang.Proofs.Parse.Enclosed

/-!
# Calls without parentheses

A call whose arguments stand behind a gap is the same call with its arguments in parentheses. The
last argument ends at the end of the line here and at the closing parenthesis there, and the
arguments before it end at the same commas.
-/

namespace ObjectLang

open Parse Grammar

/-- The tokens in front of the arguments of a call, and the call that the arguments make. -/
inductive CallHead : List Token → (List Expr → Expr) → Prop where
  | name (n : String) : CallHead [.name n] (.call n)
  | dot {w m : Token} {e : Expr} {n : String} (receiver : Word w e)
      (method : m.methodName? = some n) : CallHead [w, .fixed .dot, m] (.dot e n)

/-- Tokens that can be the arguments of a call without parentheses, but for a block after `do`. -/
structure ArgumentTokens (T : List Lexeme) : Prop where
  begins : ∃ a ts, T = a :: ts ∧ Argument a
  noDo : ∀ l ∈ T, l.token ≠ .fixed .doWord
  last : ∀ l ∈ T.getLast?, separates l.token = false

/-- The same tokens behind the same gaps, but for the gap in front of the first one. -/
structure Moved (T T' : List Lexeme) : Prop where
  tokens : T'.map Lexeme.token = T.map Lexeme.token
  gaps : T'.tail.map Lexeme.spaced = T.tail.map Lexeme.spaced

/-- The text is the head of a call, the arguments and the end of a line. -/
def WritesBare (source : String) (head : List Token) (T : List Lexeme) : Prop :=
  ∃ hs n, hs.map Lexeme.token = head ∧ n.token = .fixed .newline ∧
    (TokenStream.ofString source).Lists (hs ++ (T ++ [n]))

/-- The text is the head of a call, the arguments in parentheses and the end of a line. -/
def WritesParens (source : String) (head : List Token) (T : List Lexeme) : Prop :=
  ∃ hs o T' c n, hs.map Lexeme.token = head ∧ Touching o ∧ Moved T T' ∧
    c.token = .fixed .rparen ∧ n.token = .fixed .newline ∧
    (TokenStream.ofString source).Lists (hs ++ o :: (T' ++ [c, n]))

/-! ## Heads -/

section
variable {head : List Token} {hs ls : List Lexeme} {make : List Expr → Expr} {s : TokenStream}
  {a l : Lexeme} {args args' : List Expr}

theorem CallHead.injective (h : CallHead head make) (e : make args = make args') :
    args = args' := by
  cases h <;> cases e <;> rfl

theorem CallHead.isWord (h : CallHead head make) (args : List Expr) :
    (make args).isWord = false := by
  cases h <;> rfl

theorem CallHead.isJoined (h : CallHead head make) (args : List Expr) :
    (make args).isJoined = false := by
  cases h with
  | name n => rfl
  | dot receiver _ =>
    change (!Expr.isWord _) = false
    rw [receiver.isWord]
    rfl

/-- The head of a call has been taken, and `a` comes behind it. -/
structure Headed (make : List Expr → Expr) (l a : Lexeme) (s s' : TokenStream) : Prop where
  begins : separates l.token = false
  bare : Argument a → ∀ fuel, ∃ after, Tail after ∧
    parse (fuel + 3) .expression ⟨s.push l, false⟩ =
      callWith (bareArguments (parse (fuel + 2)) (fuel + 2)) (parse (fuel + 2)) (fuel + 2) make
        after ⟨s'.push a, false⟩
  parens : Touching a → ∀ fuel, ∃ after, Tail after ∧
    parse (fuel + 3) .expression ⟨s.push l, false⟩ =
      callWith (parenArguments (parse (fuel + 2)) (fuel + 2)) (parse (fuel + 2)) (fuel + 2) make
        after ⟨s', false⟩

theorem headed_name {n : String} {s' : TokenStream} (hl : l.token = .name n)
    (next : s.next = (.ok (some a), s')) : Headed (.call n) l a s s' where
  begins := by rw [hl]; rfl
  bare ha _ := ⟨_, tail_ending l.line, name_bare hl (peek_token (p := ⟨s, false⟩) next) ha⟩
  parens ha _ := ⟨_, tail_remainder _ l.line, name_paren hl ha next⟩

section
variable {d m : Lexeme} {e : Expr} {n : String} {s₁ s₂ s₃ : TokenStream} (hl : Word l.token e)
  (hd : d.token = .fixed .dot) (hm : m.token.methodName? = some n)
  (nextDot : s.next = (.ok (some d), s₁)) (nextName : s₁.next = (.ok (some m), s₂))
include hl hd hm nextDot nextName

theorem dot_callWith {fuel : Nat} {x : Parse (List Expr)} {q : Parser}
    (h : callArguments (parse (fuel + 2)) (fuel + 2) ⟨s₂, false⟩ =
      (x >>= fun args => withBlock (parse (fuel + 2)) args (fuel + 2)) q) :
    ∃ after, Tail after ∧ parse (fuel + 3) .expression ⟨s.push l, false⟩ =
      callWith x (parse (fuel + 2)) (fuel + 2) (.dot e n) after q := by
  refine ⟨remainder (parse (fuel + 2)) (fuel + 2) (fuel + 1) l.line, tail_remainder fuel l.line, ?_⟩
  rw [word_dot hl hd hm nextDot nextName, bind_congr_left h, Parse.bind_assoc]
  rfl

theorem headed_dot (next : s₂.next = (.ok (some a), s₃)) : Headed (.dot e n) l a s s₃ where
  begins := by
    generalize l.token = t at hl
    cases hl <;> rfl
  bare ha _ := dot_callWith hl hd hm nextDot nextName
    (callArguments_bare (peek_token (p := ⟨s₂, false⟩) next) ha)
  parens ha _ := dot_callWith hl hd hm nextDot nextName (callArguments_paren ha next)

end

theorem CallHead.headed (h : CallHead (hs.map Lexeme.token) make) (hp : s.Lists (hs ++ a :: ls)) :
    ∃ l s₁ s₂, s.next = (.ok (some l), s₁) ∧ s₂.Lists ls ∧ Headed make l a s₁ s₂ := by
  generalize hhead : hs.map Lexeme.token = head at h
  cases h with
  | name n =>
    obtain ⟨l, rfl, hl⟩ := List.map_eq_singleton_iff.mp hhead
    obtain ⟨s₁, nextName, s₂, next, rest⟩ := hp
    exact ⟨l, s₁, s₂, nextName, rest, headed_name hl next⟩
  | @dot w m e n receiver method =>
    obtain ⟨l, _, rfl, rfl, behind⟩ := List.map_eq_cons_iff.mp hhead
    obtain ⟨d, _, rfl, hd, behind⟩ := List.map_eq_cons_iff.mp behind
    obtain ⟨x, rfl, rfl⟩ := List.map_eq_singleton_iff.mp behind
    obtain ⟨s₁, nextWord, s₂, nextDot, s₃, nextName, s₄, next, rest⟩ := hp
    exact ⟨l, s₁, s₄, nextWord, rest, headed_dot receiver hd method nextDot nextName next⟩

end

/-! ## The arguments without parentheses -/

section
variable {head : List Token} {make : List Expr → Expr} {r : Nested} {fuel : Nat} {p q u : Parser}
  {args : List Expr} {T ls : List Lexeme} {a n : Lexeme} {s : TokenStream}

/-- A call without a block among its arguments has read them and looked at the next token. -/
theorem CallHead.reads {x : Parse (List Expr)} {after : Expr → Parse Expr}
    (h : CallHead head make) (tail : Tail after) (noBlock : ∀ a ∈ args, a.isBlock = false)
    (run : callWith x r fuel make after p = .ok (make args) q) :
    ∃ u, x p = .ok args u ∧ Looks u q := by
  obtain ⟨args', u, hu, run⟩ := exists_of_bind_ok run
  obtain ⟨_, v, hv, run⟩ := exists_of_bind_ok run
  obtain ⟨b, _, hb, hv⟩ := exists_of_bind_ok hv
  cases hv
  rcases tail.grows (h.isWord _) run with joined | ⟨same, looks⟩
  · rw [h.isJoined] at joined
    cases joined
  obtain rfl := h.injective same
  rcases blockTrailer_trails hb with ⟨rfl, looks'⟩ | ⟨e, rfl, block⟩
  · rw [Option.toList_none, List.append_nil]
    exact ⟨u, hu, looks'.trans looks⟩
  · rw [noBlock e (List.mem_append_right _ List.mem_cons_self)] at block
    cases block

theorem gives_separators : ∀ {ls : List Lexeme} {p : Parser}, p.Gives (.ok []) → p.tokens.Lists ls →
    ∀ l ∈ ls, separates l.token = true
  | [], _, _, _ => nofun
  | l :: ls, p, hp, ⟨s, next, rest⟩ => by
    have here := hp.separator_next next
    obtain ⟨r, hr⟩ := Parser.exists_gives { p with tokens := s }
    obtain rfl := hp.unique (Parser.gives_separator next here hr)
    exact List.forall_mem_cons.mpr ⟨here, gives_separators hr rest⟩

theorem separators_of_last (looks : Looks u p) (hc : endOfCommand p = .ok () q)
    (hq : q.Gives (.ok [])) (hu : u.tokens.Lists ls) : ∀ l ∈ ls, separates l.token = true := by
  obtain ⟨o, looked⟩ := looks
  cases ls with
  | nil => exact nofun
  | cons l ls =>
    obtain ⟨s, next, rest⟩ := lists_of_peek hu looked
    have faces := faces_of_peek looked
    obtain ⟨rfl, _⟩ := Parsed.ok.inj (faces.symm.trans (peek_token next))
    have token := endOfCommand_token next
    rw [hc] at token
    have here : separates l.token = true ∧ l.token.closesBody = false := by
      rcases over_of_last faces hc hq l rfl with e | e <;> rw [e] <;> exact ⟨rfl, rfl⟩
    rw [here.1, here.2] at token
    cases token
    exact List.forall_mem_cons.mpr ⟨here.1, gives_separators hq rest⟩

theorem eq_of_suffix_separators (hs : ls <:+ T ++ [n]) (some : ls ≠ [])
    (all : ∀ l ∈ ls, separates l.token = true)
    (last : ∀ l ∈ T.getLast?, separates l.token = false) : ls = [n] := by
  rcases List.suffix_concat_iff.mp hs with rfl | ⟨t, rfl, ht⟩
  · exact absurd rfl some
  rcases List.eq_nil_or_concat t with rfl | ⟨t, l, rfl⟩
  · rfl
  obtain ⟨w, rfl⟩ := ht
  have no := last l (by simp)
  rw [all l (by simp)] at no
  cases no

theorem TokenStream.not_lists_nil {t : List Char} (ht : t ≠ []) (closed : TokenStream.Closed t s)
    (spent : ¬TokenStream.Spent t s) : ¬s.Lists [] := by
  rintro ⟨s', h⟩
  obtain ⟨rest, line, pushed⟩ := s
  cases pushed with
  | cons l ls => cases h
  | nil =>
    rcases closed with nil | ends | ⟨nil, _⟩
    · exact ht nil
    · obtain ⟨c, r, hr, _⟩ := ends.item line false
      change TokenStream.read _ = _ at h
      rw [TokenStream.read_item hr] at h
      cases hi : (Scan.itemAt c r).1 with
      | token t => rw [hi] at h; cases h
      | fault f => rw [hi] at h; cases h
    · exact spent ⟨ht, nil, rfl⟩

/-- At the end of its text a step that has read arguments leaves a token. -/
theorem bareArguments_leaves {line : Nat} {noDo : Bool} (some : ls ≠ [])
    (last : ∀ l ∈ ls.getLast?, l.token = .fixed .newline)
    (h : bareArguments (parse fuel) fuel ⟨⟨[], line, ls⟩, noDo⟩ = .ok args u) :
    ¬u.tokens.Lists [] := by
  have more : ['x'] ≠ [] := List.cons_ne_nil _ _
  have follows := follows_bareArguments (k := 0) (t := ['x']) (follows_parse (Nat.le_refl fuel))
    (Nat.le_refl fuel)
  have agree := follows.along ⟨⟨[], line, ls⟩, noDo⟩ (.inr (.inr ⟨rfl, last⟩))
    fun spent => some spent.pushed
  rw [h] at agree
  rcases agree with ⟨closed, spent, _⟩ | ⟨no, _⟩
  · exact TokenStream.not_lists_nil more closed spent
  · cases no

/-- The same arguments are read from the bare list of their tokens, up to the end of the line. -/
theorem bareArguments_listed (hn : n.token = .fixed .newline)
    (last : ∀ l ∈ T.getLast?, separates l.token = false) (hp : p.tokens.Lists (T ++ [n]))
    (hdo : p.noDo = false) (h : bareArguments (parse fuel) fuel p = .ok args u)
    (all : ∀ ls, u.tokens.Lists ls → ∀ l ∈ ls, separates l.token = true) :
    ∃ v x, bareArguments (parse fuel) fuel ⟨⟨[], 0, T ++ [n]⟩, false⟩ = .ok args v ∧
      v.tokens.Lists [x] := by
  have paired : Paired (T ++ [n]) [] [] p ⟨⟨[], 0, T ++ [n]⟩, false⟩ := by
    refine ⟨⟨T ++ [n], T ++ [n], List.suffix_refl _, List.forall₂_same.mpr fun _ _ => .refl _,
      ?_, ?_⟩, fun _ => hdo⟩
    · rwa [List.append_nil]
    · rw [List.append_nil]
      exact TokenStream.lists_pushed 0 _
  have keeps := keeps_congruence (.ended : Behind (T ++ [n]) [] [])
  rcases (bareArguments_congr keeps (parse_congr keeps fuel)).paired paired h with
    beyond | ⟨v, hv, rest⟩
  · exact absurd rfl beyond.more
  obtain ⟨⟨ls, ls', suffix, alike, hu, hv'⟩, _⟩ := rest
  rw [List.append_nil] at hu hv'
  -- Some of the tokens are left, and of those only the end of the line separates.
  have leaves := bareArguments_leaves (by simp) (by simp [hn]) hv
  have some : ls ≠ [] := by
    rintro rfl
    cases alike
    exact leaves hv'
  rw [eq_of_suffix_separators suffix some (all ls hu) last] at alike
  cases alike with
  | @cons _ x _ _ _ rest =>
    cases rest
    exact ⟨v, x, hv, hv'⟩

end

/-! ## The call as a whole -/

section
variable {head : List Token} {make : List Expr → Expr} {T T' : List Lexeme} {args : List Expr}
  {source source' : String} {a a' n : Lexeme} {ts ts' : List Lexeme}

theorem sameLexeme_of_moved : ∀ {ts ts' : List Lexeme}, ts'.map Lexeme.token = ts.map Lexeme.token →
    ts'.map Lexeme.spaced = ts.map Lexeme.spaced → List.Forall₂ SameLexeme ts ts'
  | [], [], _, _ => .nil
  | l :: ts, l' :: ts', htoken, hspaced => by
    obtain ⟨token, htoken⟩ := List.cons.inj htoken
    obtain ⟨spaced, hspaced⟩ := List.cons.inj hspaced
    exact .cons ⟨token.symm, .inr spaced.symm⟩ (sameLexeme_of_moved htoken hspaced)

/-- The arguments of a call, read from the bare list of their tokens. -/
theorem CallHead.exists_arguments {hs : List Lexeme} {s : TokenStream}
    (hh : CallHead (hs.map Lexeme.token) make) (hT : ArgumentTokens T)
    (hn : n.token = .fixed .newline) (hp : s.Lists (hs ++ (T ++ [n])))
    (noBlock : ∀ a ∈ args, a.isBlock = false)
    (h : Parser.Gives ⟨s, false⟩ (.ok [make args])) :
    ∃ fuel v x, bareArguments (parse (fuel + 2)) (fuel + 2) ⟨⟨[], 0, T ++ [n]⟩, false⟩ =
      .ok args v ∧ v.tokens.Lists [x] := by
  obtain ⟨a, ts, rfl, ha⟩ := hT.begins
  obtain ⟨l, s₁, s₂, next, rest, headed⟩ := hh.headed hp
  obtain ⟨q, run, last⟩ := h.exists_command next headed.begins
  obtain ⟨k, bound⟩ : ∃ k, (⟨s, false⟩ : Parser).fuel ≤ k + 3 := ⟨_, Nat.le_add_right _ 3⟩
  obtain ⟨_, u, hu, run⟩ := exists_of_bind_ok (run (k + 3) bound)
  obtain ⟨_, w, hend, run⟩ := exists_of_bind_ok run
  cases run
  obtain ⟨after, tail, call⟩ := headed.bare ha k
  obtain ⟨v, reads, looks⟩ := hh.reads tail noBlock (call.symm.trans hu)
  exact ⟨k, bareArguments_listed hn hT.last (p := ⟨s₂.push a, false⟩) (rest.push a) rfl reads
    fun ls hls => separators_of_last looks hend last hls⟩

/-- The same tokens in parentheses give the same arguments. -/
theorem Moved.parenArguments {fuel : Nat} {v : Parser} {x c n' : Lexeme} {r : TokenStream}
    (hT : ArgumentTokens T) (moved : Moved T T') (hn : n.token = .fixed .newline)
    (hc : c.token = .fixed .rparen) (hr : r.Lists (T' ++ [c, n']))
    (h : bareArguments (parse (fuel + 1)) (fuel + 1) ⟨⟨[], 0, T ++ [n]⟩, false⟩ = .ok args v)
    (hv : v.tokens.Lists [x]) :
    ∃ w : TokenStream,
      parenArguments (parse (fuel + 1)) (fuel + 1) ⟨r, false⟩ = .ok args ⟨w, false⟩ ∧
        w.Lists [n'] := by
  obtain ⟨a, ts, rfl, ha⟩ := hT.begins
  obtain ⟨a', ts', rfl, token, tokens⟩ := List.map_eq_cons_iff.mp moved.tokens
  obtain ⟨s, next, rest⟩ := hr
  have h : bareArguments (parse (fuel + 1)) (fuel + 1)
      ⟨(⟨[], 0, ts ++ [n]⟩ : TokenStream).push a, false⟩ = .ok args v := h
  -- The first token stands behind the gap that it has in parentheses.
  rw [gapFree_bareArguments _ _ _ a a'.spaced] at h
  have behind : Behind ({ a with spaced := a'.spaced } :: ts) [n] (c :: [n']) := by
    refine .closed hn hc fun l hl => ?_
    rcases List.mem_cons.mp hl with rfl | hl
    · exact hT.noDo a List.mem_cons_self
    · exact hT.noDo l (List.mem_cons_of_mem _ hl)
  have paired : Paired ({ a with spaced := a'.spaced } :: ts) [n] (c :: [n'])
      ⟨(⟨[], 0, ts ++ [n]⟩ : TokenStream).push { a with spaced := a'.spaced }, true⟩
      ⟨s.push a', false⟩ :=
    ⟨⟨_, a' :: ts', List.suffix_refl _, .cons ⟨token.symm, .inr rfl⟩
      (sameLexeme_of_moved tokens moved.gaps), (TokenStream.lists_pushed 0 _).push _, rest.push a'⟩, nofun⟩
  have ne_fixed : ∀ {f}, a.token.isFixed f = false → a'.token.isFixed f = false := fun h => by
    rwa [token]
  exact parenArguments_of_bare behind hc paired (ne_fixed (ha.ne_fixed rfl))
    (ne_fixed (ha.ne_fixed rfl)) next h hv

/-- A call with its arguments in parentheses, and nothing behind it. -/
theorem CallHead.gives {hs : List Lexeme} {s : TokenStream} {fuel : Nat} {o : Lexeme}
    (hh : CallHead (hs.map Lexeme.token) make) (ho : Touching o) (hn : n.token = .fixed .newline)
    (hp : s.Lists (hs ++ o :: ts))
    (h : ∀ r : TokenStream, r.Lists ts → ∃ w : TokenStream,
      parenArguments (parse (fuel + 2)) (fuel + 2) ⟨r, false⟩ = .ok args ⟨w, false⟩ ∧
        w.Lists [n]) :
    Parser.Gives ⟨s, false⟩ (.ok [make args]) := by
  obtain ⟨l, s₁, s₂, next, rest, headed⟩ := hh.headed hp
  obtain ⟨after, tail, call⟩ := headed.parens ho fuel
  obtain ⟨w, reads, v, nextEnd, last, ended⟩ := h s₂ rest
  have looked : peek ⟨w, false⟩ = .ok (some n) ⟨v.push n, false⟩ := peek_token nextEnd
  have ends : Over (some n) := by
    rintro l ⟨⟩
    exact .inl hn
  have block : withBlock (parse (fuel + 2)) args (fuel + 2) ⟨w, false⟩ =
      .ok args ⟨v.push n, false⟩ := by
    refine (bind_ok (blockTrailer_over looked ends)).trans ?_
    rw [Option.toList_none, List.append_nil]
    rfl
  have run : parse (fuel + 3) .expression ⟨s₁.push l, false⟩ =
      .ok (make args) ⟨v.push n, false⟩ := by
    refine call.trans ((bind_ok reads).trans ((bind_ok block).trans ?_))
    exact tail.stops (hh.isWord args) (faces_push v n false) ends
  have close : endOfCommand ⟨v.push n, false⟩ = .ok () ⟨v, false⟩ := by
    have token := endOfCommand_token (p := ⟨v.push n, false⟩) (l := n) (s := v) rfl
    rw [hn] at token
    exact token
  exact Parser.gives_command (p := ⟨s, false⟩) next headed.begins
    ((bind_ok run).trans (bind_ok close)) (Parser.gives_end ended)

/-- A call without parentheses is the same call with them, unless a block is among its
arguments. -/
theorem bare_call (hh : CallHead head make) (hT : ArgumentTokens T)
    (bare : WritesBare source head T) (parens : WritesParens source' head T)
    (noBlock : ∀ a ∈ args, a.isBlock = false)
    (h : ∃ rest, parseProgram source = .ok [make args] rest) :
    ∃ rest, parseProgram source' = .ok [make args] rest := by
  obtain ⟨hs, n, rfl, hn, listed⟩ := bare
  obtain ⟨hs', o, T', c, n', same, ho, moved, hc, hn', listed'⟩ := parens
  obtain ⟨fuel, v, x, reads, hv⟩ := hh.exists_arguments hT hn listed noBlock (gives_iff_ok.mpr h)
  rw [← same] at hh
  exact gives_iff_ok.mp (hh.gives ho hn' listed' fun r hr =>
    moved.parenArguments hT hn hc hr reads hv)

end

/-- Two arguments on two lines. -/
theorem bare_call_self :
    CallHead [.fixed .selfWord, .fixed .dot, .name "put"] (.dot .selfRef "put") ∧
    ∃ T, ArgumentTokens T ∧
      WritesBare "self.put x,\n 1\n" [.fixed .selfWord, .fixed .dot, .name "put"] T ∧
      WritesParens "self.put(x,\n 1)\n" [.fixed .selfWord, .fixed .dot, .name "put"] T ∧
      (∃ rest, parseProgram "self.put x,\n 1\n" =
        .ok [.dot .selfRef "put" [.name "x", .literal (.integer 1)]] rest) ∧
      ∃ rest, parseProgram "self.put(x,\n 1)\n" =
        .ok [.dot .selfRef "put" [.name "x", .literal (.integer 1)]] rest := by
  have head : CallHead [.fixed .selfWord, .fixed .dot, .name "put"] (.dot .selfRef "put") :=
    .dot .selfRef rfl
  obtain ⟨T, tokens, bare, parens⟩ : ∃ T, ArgumentTokens T ∧
      WritesBare "self.put x,\n 1\n" [.fixed .selfWord, .fixed .dot, .name "put"] T ∧
      WritesParens "self.put(x,\n 1)\n" [.fixed .selfWord, .fixed .dot, .name "put"] T := by
    refine ⟨[⟨.name "x", 1, true⟩, ⟨.fixed .comma, 1, false⟩, ⟨.fixed .newline, 1, false⟩,
      ⟨.integer 1, 2, true⟩], ⟨⟨_, _, rfl, rfl, rfl⟩, fun l hl => ?_, fun l hl => ?_⟩, ?_, ?_⟩
    · simp only [List.mem_cons, List.not_mem_nil, or_false] at hl
      rcases hl with rfl | rfl | rfl | rfl <;> exact nofun
    · cases hl
      rfl
    · exact ⟨[⟨.fixed .selfWord, 1, false⟩, ⟨.fixed .dot, 1, false⟩, ⟨.name "put", 1, false⟩],
        ⟨.fixed .newline, 2, false⟩, rfl, rfl,
        ⟨".put x,\n 1\n".toList, 1, []⟩, rfl, ⟨"put x,\n 1\n".toList, 1, []⟩, rfl,
        ⟨" x,\n 1\n".toList, 1, []⟩, rfl, ⟨",\n 1\n".toList, 1, []⟩, rfl,
        ⟨"\n 1\n".toList, 1, []⟩, rfl, ⟨" 1\n".toList, 2, []⟩, rfl, ⟨"\n".toList, 2, []⟩, rfl,
        ⟨[], 3, []⟩, rfl, _, rfl⟩
    · exact ⟨[⟨.fixed .selfWord, 1, false⟩, ⟨.fixed .dot, 1, false⟩, ⟨.name "put", 1, false⟩],
        ⟨.fixed .lparen, 1, false⟩, [⟨.name "x", 1, false⟩, ⟨.fixed .comma, 1, false⟩,
          ⟨.fixed .newline, 1, false⟩, ⟨.integer 1, 2, true⟩], ⟨.fixed .rparen, 2, false⟩,
        ⟨.fixed .newline, 2, false⟩, rfl, ⟨rfl, rfl⟩, ⟨rfl, rfl⟩, rfl, rfl,
        ⟨".put(x,\n 1)\n".toList, 1, []⟩, rfl, ⟨"put(x,\n 1)\n".toList, 1, []⟩, rfl,
        ⟨"(x,\n 1)\n".toList, 1, []⟩, rfl, ⟨"x,\n 1)\n".toList, 1, []⟩, rfl,
        ⟨",\n 1)\n".toList, 1, []⟩, rfl, ⟨"\n 1)\n".toList, 1, []⟩, rfl,
        ⟨" 1)\n".toList, 2, []⟩, rfl, ⟨")\n".toList, 2, []⟩, rfl, ⟨"\n".toList, 2, []⟩, rfl,
        ⟨[], 3, []⟩, rfl, _, rfl⟩
  have parsed : ∃ rest, parseProgram "self.put x,\n 1\n" =
      .ok [.dot .selfRef "put" [.name "x", .literal (.integer 1)]] rest := by
    refine gives_iff_ok.mp ?_
    change (parseProgram "self.put x,\n 1\n").answer = _
    cbv
  have noBlock : ∀ a ∈ [Expr.name "x", .literal (.integer 1)], a.isBlock = false :=
    List.forall_mem_cons.mpr ⟨rfl, List.forall_mem_singleton.mpr rfl⟩
  exact ⟨head, T, tokens, bare, parens, parsed, bare_call head tokens bare parens noBlock parsed⟩

end ObjectLang
