import ObjectLang.Proofs.Parse.Openings
import ObjectLang.Proofs.Parse.Takes

/-!
# From a call to its arguments

How the tokens in front of the arguments of a call are taken, with parentheses and without, and
what is left to do behind the arguments.
-/

namespace ObjectLang

def Expr.isBlock : Expr → Bool
  | block _ _ => true
  | _ => false

namespace Grammar

open Parse

variable {r : Nested} {fuel : Nat} {p q : Parser} {s s' : TokenStream} {l a : Lexeme} {noDo : Bool}
  {o : Option Lexeme} {e k : Expr} {n : String} {line : Nat}

/-! ## Behind a command -/

/-- Nothing is next, or the end of a command. -/
def Over (o : Option Lexeme) : Prop :=
  ∀ l, o = some l → l.token = .fixed .newline ∨ l.token = .fixed .semicolon

theorem Over.passes (h : Over o) {g : Fixed} (hn : g ≠ .newline) (hs : g ≠ .semicolon) :
    o.any (·.token.isFixed g) = false := by
  cases o with
  | none => rfl
  | some l =>
    rw [Option.any_some]
    rcases h l rfl with hl | hl <;> rw [hl]
    · exact decide_eq_false hn.symm
    · exact decide_eq_false hs.symm

theorem Over.ends (h : Over o) (e : Expr) : Ends e o := by
  cases o with
  | none => constructor <;> rfl
  | some l =>
    obtain ⟨token, line, spaced⟩ := l
    rcases h _ rfl with rfl | rfl <;> constructor <;> rfl

theorem blockTrailer_over (hp : peek p = .ok o q) (h : Over o) :
    blockTrailer r fuel p = .ok none q := by
  have faces := faces_of_peek hp
  have brace : ∀ {p : Parser}, peek p = .ok o q → ∀ F : Bool → Parse (Option Expr),
      (accept .lbrace >>= F) p = F false q := fun hp F =>
    accept_passes hp (h.passes (by decide) (by decide))
  obtain ⟨tokens, noDo⟩ := p
  cases noDo with
  | true => exact brace hp _
  | false =>
    exact (accept_passes (F := doBlock r fuel) hp (h.passes (by decide) (by decide))).trans
      (brace faces _)

/-- Behind the last command of a program there are only separators. -/
theorem over_of_last (hp : Faces p o) (hc : endOfCommand p = .ok () q) (hq : q.Gives (.ok [])) :
    Over o := by
  rintro l rfl
  obtain ⟨s, rest⟩ := hp.exists_push
  have next : p.tokens.next = (.ok (some l), s) := by rw [rest]; rfl
  have token := endOfCommand_token next
  rw [hc] at token
  have separator : separates l.token = true := by
    cases hs : separates l.token with
    | true => rfl
    | false =>
      cases closes : l.token.closesBody with
      | true =>
        simp only [closes, if_true] at token
        cases token
        exact hs.symm.trans (hq.separator_next rfl)
      | false =>
        simp only [closes, hs] at token
        cases token
  rw [separates, Bool.or_eq_true] at separator
  exact separator.imp eq_of_isFixed eq_of_isFixed

theorem commandCall_called (he : e.isName = false) : commandCall r fuel e = pure e := by
  cases e <;> first | rfl | cases he

/-- What is done with a call once its arguments have been read. -/
structure Tail (after : Expr → Parse Expr) : Prop where
  grows : ∀ {e k : Expr} {p q : Parser}, e.isWord = false → after e p = .ok k q → Grows e k p q
  stops : ∀ {e : Expr} {o : Option Lexeme} {p q : Parser}, e.isWord = false → peek p = .ok o q →
    Over o → after e p = .ok e q

theorem tail_ending (line : Nat) : Tail (ending r fuel line) where
  grows := ending_grows
  stops he hp h := by
    refine (bind_ok (congrFun (commandCall_called (Expr.isName_of_not_word he)) _)).trans ?_
    exact accept_passes hp (h.passes (by decide) (by decide))

theorem tail_remainder (rounds line : Nat) :
    Tail (remainder r (fuel + 1) (rounds + 1) line) where
  grows := remainder_grows
  stops he hp h :=
    (remainder_ends hp (h.ends _) rounds line).trans
      ((tail_ending line).stops he (faces_of_peek hp) h)

/-! ## The first token of a call -/

theorem parse_unprefixed (h : Unprefixed l) (s : TokenStream) (noDo : Bool) :
    parse (fuel + 2) .expression ⟨s.push l, noDo⟩ =
      (term (parse (fuel + 1)) (fuel + 1) >>=
        remainder (parse (fuel + 1)) (fuel + 1) (fuel + 1) l.line) ⟨s.push l, noDo⟩ :=
  expression_unprefixed h s noDo

theorem unprefixed_name (hl : l.token = .name n) : Unprefixed l := by
  refine ⟨?_, ?_, ?_⟩ <;> rw [hl] <;> rfl

theorem unprefixed_self (hl : l.token = .fixed .selfWord) : Unprefixed l := by
  refine ⟨?_, ?_, ?_⟩ <;> rw [hl] <;> rfl

theorem term_name (hl : l.token = .name n) :
    term r fuel ⟨s.push l, noDo⟩ = nameTerm r fuel n ⟨s, noDo⟩ := by
  obtain ⟨_, line, spaced⟩ := l
  cases hl
  rfl

theorem term_fixed {f : Fixed} (hl : l.token = .fixed f) :
    term r fuel ⟨s.push l, noDo⟩ = fixedTerm r fuel f l.line ⟨s, noDo⟩ := by
  obtain ⟨_, line, spaced⟩ := l
  cases hl
  rfl

theorem term_integer {i : Int64} (hl : l.token = .integer i) :
    term r fuel ⟨s.push l, noDo⟩ = .ok (.literal (.integer i)) ⟨s, noDo⟩ := by
  obtain ⟨_, line, spaced⟩ := l
  cases hl
  rfl

/-! ## Lists of arguments -/

theorem restricted_congr_at {α : Type} {x y : Parse α} (h : x ⟨s, noDo⟩ = y ⟨s', noDo⟩)
    (outer : Bool) : restricted noDo x ⟨s, outer⟩ = restricted noDo y ⟨s', outer⟩ := by
  unfold restricted
  dsimp only
  rw [h]

section
variable {α : Type} {item : Parse α} {c : Lexeme}

theorem collect_comma (hc : c.token.isFixed .comma = true) (n : Nat) :
    collect (commaThen item) (n + 1) ⟨s.push c, noDo⟩ =
      (item >>= fun a => collect (commaThen item) n >>= fun rest => pure (a :: rest))
        ⟨s, noDo⟩ := by
  change (commaThen item >>= _) _ = _
  unfold commaThen
  rw [bind_assoc, accept_takes hc]
  simp only [if_true, bind_assoc]
  rfl

theorem collect_stop (hp : peek p = .ok o q) (h : o.any (·.token.isFixed .comma) = false)
    (n : Nat) : collect (commaThen item) (n + 1) p = .ok [] q := by
  have stop : commaThen item p = .ok none q := accept_passes hp h
  exact bind_ok stop

theorem skipNewlines_stop (hp : peek p = .ok o q) (h : o.any (·.token.isFixed .newline) = false) :
    skipNewlines (fuel + 1) p = .ok () q :=
  iterate_stop (accept_passes hp h) fuel

theorem expect_token {f : Fixed} (next : p.tokens.next = (.ok (some l), s))
    (hl : l.token = .fixed f) : expect f p = .ok () { p with tokens := s } := by
  have here : l.token.isFixed f = true := by
    rw [hl]
    exact decide_eq_true rfl
  exact bind_ok ((accept_token f next).trans (if_pos here))

theorem skipNewlines_faces (h : skipNewlines fuel p = .ok () q) : ∃ o, Faces q o := by
  obtain ⟨_, u, last⟩ := iterate_last h
  obtain ⟨b, v, hb, last⟩ := exists_of_bind_ok last
  cases b with
  | true => cases last
  | false =>
    cases last
    obtain ⟨o, looked⟩ := accept_outcome hb
    exact ⟨o, faces_of_peek looked⟩

/-- What follows an item of a bracketed list. -/
def moreItems (closing : Fixed) (item : Parse α) (lines fuel : Nat) (first : α) :
    Parse (List α) := do
  skipNewlines lines
  if ← accept .comma then
    skipNewlines lines
    let rest ← items closing item lines fuel
    pure (first :: rest)
  else pure [first]

theorem items_succ (closing : Fixed) (lines : Nat) :
    items closing item lines (fuel + 1) = nextIs closing >>= fun b =>
      if b then pure [] else item >>= moreItems closing item lines fuel := rfl

end

/-! ## Blocks -/

section
variable {r : Nested} {fuel : Nat} {p q : Parser} {b : Option Expr} {e : Expr}

theorem yields_blockBody (r : Nested) (fuel : Nat) (closing : Fixed) :
    Yields (fun e => Expr.isBlock e = true) (blockBody r closing fuel) := by
  have body : ∀ params, Yields (fun e => Expr.isBlock e = true) (do
      let body ← commandList r [closing] fuel
      expect closing
      pure (Expr.block params (.ofBody body))) := fun params =>
    yields_bind fun _ => yields_bind fun _ => yields_pure rfl
  refine yields_restricted (yields_bind fun b => ?_)
  cases b with
  | true => exact yields_bind body
  | false => exact body []

/-- There is no block and nothing has been taken, or there is one. -/
def Trails (b : Option Expr) (p q : Parser) : Prop :=
  (b = none ∧ Looks p q) ∨ ∃ e, b = some e ∧ e.isBlock = true

theorem exists_block {x : Parse Expr} (hx : Yields (fun e => e.isBlock = true) x)
    (h : (x >>= fun b => pure (some b)) p = .ok b q) : ∃ e, b = some e ∧ e.isBlock = true := by
  obtain ⟨e, u, he, h⟩ := exists_of_bind_ok h
  cases h
  exact ⟨e, rfl, hx p e q he⟩

theorem braceBlock_trails (h : braceBlock r fuel p = .ok b q) : Trails b p q := by
  obtain ⟨braced, u, hb, h⟩ := exists_of_bind_ok h
  cases braced with
  | true => exact .inr (exists_block (yields_blockBody r fuel .rbrace) h)
  | false =>
    cases h
    exact .inl ⟨rfl, accept_outcome hb⟩

theorem blockTrailer_trails (h : blockTrailer r fuel p = .ok b q) : Trails b p q := by
  rw [blockTrailer_eq] at h
  obtain ⟨allowed, u, ha, h⟩ := exists_of_bind_ok h
  cases ha
  split at h
  · obtain ⟨opened, u, ho, h⟩ := exists_of_bind_ok h
    cases opened with
    | true => exact .inr (exists_block (yields_blockBody r fuel .endWord) h)
    | false => exact (braceBlock_trails h).imp_left (.imp_right (accept_outcome ho).trans)
  · exact braceBlock_trails h

end

/-! ## Arguments without parentheses -/

/-- The token begins an argument, and stands behind a gap. -/
structure Argument (l : Lexeme) : Prop where
  begins : beginsArgument l = true
  spaced : l.spaced = true

theorem acceptTouching_passes {α : Type} {g : Fixed} {F : Bool → Parse α} (hp : peek p = .ok o q)
    (h : o.any (fun l => l.token.isFixed g && !l.spaced) = false) :
    (acceptTouching g >>= F) p = F false q := by
  rw [acceptTouching_eq, acceptIf_bind, bind_ok hp, h]
  rfl

theorem Argument.untouched (h : Argument a) (g : Fixed) :
    (some a).any (fun l => l.token.isFixed g && !l.spaced) = false := by
  rw [Option.any_some, h.spaced, Bool.not_true, Bool.and_false]

theorem Argument.ne_fixed (h : Argument a) {f : Fixed}
    (hf : beginsArgument ⟨.fixed f, a.line, true⟩ = false) : a.token.isFixed f = false := by
  cases hl : a.token.isFixed f with
  | false => rfl
  | true =>
    obtain ⟨token, line, spaced⟩ := a
    obtain ⟨begins, rfl⟩ := h
    obtain rfl : token = .fixed f := eq_of_isFixed hl
    cases begins.symm.trans hf

theorem Argument.ends (h : Argument a) : Ends (.name n) (some a) := by
  obtain ⟨token, line, spaced⟩ := a
  obtain ⟨begins, rfl⟩ := h
  cases token with
  | fixed f => cases f <;> first | (constructor <;> rfl) | cases begins
  | _ => constructor <;> rfl

theorem argumentFollows_bind {α : Type} {F : Bool → Parse α} (hp : peek p = .ok (some a) q)
    (h : Argument a) : (argumentFollows >>= F) p = F true q := by
  unfold argumentFollows
  rw [bind_assoc, bind_ok hp]
  change F (beginsArgument a) q = _
  rw [h.begins]

theorem gapFree_bareArguments (fuel rounds : Nat) : GapFree (bareArguments (parse fuel) rounds) :=
  fun s l spaced noDo => restricted_congr_at ((gapFree_parse fuel).bind _ s l spaced true) noDo

/-- The arguments and the block of a call, and then the rest of the command. -/
def callWith (arguments : Parse (List Expr)) (r : Nested) (fuel : Nat) (make : List Expr → Expr)
    (after : Expr → Parse Expr) : Parse Expr := do
  let args ← arguments
  let args ← withBlock r args fuel
  after (make args)

theorem name_bare (hl : l.token = .name n) (hp : peek ⟨s, noDo⟩ = .ok (some a) q)
    (ha : Argument a) :
    parse (fuel + 2) .expression ⟨s.push l, noDo⟩ =
      callWith (bareArguments (parse (fuel + 1)) (fuel + 1)) (parse (fuel + 1)) (fuel + 1) (.call n)
        (ending (parse (fuel + 1)) (fuel + 1) l.line) q := by
  have word : nameTerm (parse (fuel + 1)) (fuel + 1) n ⟨s, noDo⟩ = .ok (.name n) q :=
    acceptTouching_passes hp (ha.untouched .lparen)
  have faces := faces_of_peek hp
  rw [parse_unprefixed (unprefixed_name hl), bind_ok ((term_name hl).trans word),
    remainder_ends faces ha.ends fuel l.line]
  unfold ending callWith commandCall
  dsimp only
  rw [bind_assoc, argumentFollows_bind faces ha]
  simp only [if_true, bind_assoc]

theorem callArguments_bare (hp : peek p = .ok (some a) q) (ha : Argument a) :
    callArguments r fuel p =
      (bareArguments r fuel >>= fun args => withBlock r args fuel) q := by
  refine (acceptTouching_passes hp (ha.untouched .lparen)).trans ?_
  exact argumentFollows_bind (faces_of_peek hp) ha

/-! ## Arguments in parentheses -/

/-- An opening parenthesis without a gap in front of it. -/
structure Touching (a : Lexeme) : Prop where
  token : a.token = .fixed .lparen
  spaced : a.spaced = false

theorem Touching.opens {α : Type} (ha : Touching a) (hs : s.next = (.ok (some a), s'))
    (F : Bool → Parse α) : (acceptTouching .lparen >>= F) ⟨s, noDo⟩ = F true ⟨s', noDo⟩ := by
  have looked : peek ⟨s, noDo⟩ = .ok (some a) ⟨s'.push a, noDo⟩ := peek_token hs
  rw [acceptTouching_eq, acceptIf_bind, bind_ok looked, Option.any_some, ha.token, ha.spaced]
  rfl

theorem name_paren (hl : l.token = .name n) (ha : Touching a) (hs : s.next = (.ok (some a), s')) :
    parse (fuel + 2) .expression ⟨s.push l, noDo⟩ =
      callWith (parenArguments (parse (fuel + 1)) (fuel + 1)) (parse (fuel + 1)) (fuel + 1)
        (.call n) (remainder (parse (fuel + 1)) (fuel + 1) (fuel + 1) l.line) ⟨s', noDo⟩ := by
  have call : nameTerm (parse (fuel + 1)) (fuel + 1) n ⟨s, noDo⟩ =
      (parenArguments (parse (fuel + 1)) (fuel + 1) >>= fun args =>
        withBlock (parse (fuel + 1)) args (fuel + 1) >>= fun args => pure (.call n args))
        ⟨s', noDo⟩ := ha.opens hs _
  rw [parse_unprefixed (unprefixed_name hl), bind_congr_left ((term_name hl).trans call)]
  simp only [bind_assoc]
  rfl

theorem callArguments_paren (ha : Touching a) (hs : s.next = (.ok (some a), s')) :
    callArguments r fuel ⟨s, noDo⟩ =
      (parenArguments r fuel >>= fun args => withBlock r args fuel) ⟨s', noDo⟩ :=
  ha.opens hs _

/-! ## Heads of calls -/

/-- A receiver that is a token of its own. -/
inductive Word : Token → Expr → Prop where
  | name (n : String) : Word (.name n) (.name n)
  | selfRef : Word (.fixed .selfWord) .selfRef

theorem Word.isWord {t : Token} (h : Word t e) : e.isWord = true := by
  cases h <;> rfl

theorem Word.unprefixed (h : Word l.token e) : Unprefixed l := by
  generalize ht : l.token = t at h
  cases h with
  | name n => exact unprefixed_name ht
  | selfRef => exact unprefixed_self ht

/-- A word in front of a dot is taken as it is. -/
theorem Word.term (h : Word l.token e) {d : Lexeme} (hd : d.token = .fixed .dot)
    (hs : s.next = (.ok (some d), s')) (noDo : Bool) :
    ∃ u, term r fuel ⟨s.push l, noDo⟩ = .ok e u ∧ peek u = .ok (some d) ⟨s'.push d, noDo⟩ := by
  generalize ht : l.token = t at h
  have looked : peek ⟨s, noDo⟩ = .ok (some d) ⟨s'.push d, noDo⟩ := peek_token hs
  cases h with
  | name n =>
    refine ⟨_, (term_name ht).trans (acceptTouching_passes looked ?_), rfl⟩
    rw [Option.any_some, hd]
    rfl
  | selfRef => exact ⟨⟨s, noDo⟩, term_fixed ht, looked⟩

theorem remainder_dot {d m : Lexeme} (hd : d.token = .fixed .dot)
    (hm : m.token.methodName? = some n) (hp : peek p = .ok (some d) ⟨s.push d, noDo⟩)
    (hs : s.next = (.ok (some m), s')) (rounds line : Nat) :
    remainder r fuel (rounds + 1) line e p =
      (callArguments r fuel >>= fun args => remainder r fuel rounds line (.dot e n args))
        ⟨s', noDo⟩ := by
  have name : methodName ⟨s, noDo⟩ = .ok n ⟨s', noDo⟩ := by
    refine (bind_ok (next_token (p := ⟨s, noDo⟩) hs)).trans ?_
    simp only [hm]
    rfl
  have step : suffix r fuel e p =
      (callArguments r fuel >>= fun args => pure (some (.dot e n args))) ⟨s', noDo⟩ := by
    obtain ⟨_, dotLine, spaced⟩ := d
    cases hd
    exact (bind_ok hp).trans (bind_ok name)
  refine (congrFun (Parse.bind_assoc _ _ _) p).trans ((bind_congr_left step).trans ?_)
  rw [Parse.bind_assoc]
  rfl

theorem word_dot {d m : Lexeme} {s'' : TokenStream} (h : Word l.token e)
    (hd : d.token = .fixed .dot) (hm : m.token.methodName? = some n)
    (nextDot : s.next = (.ok (some d), s')) (nextName : s'.next = (.ok (some m), s'')) :
    parse (fuel + 2) .expression ⟨s.push l, noDo⟩ =
      (callArguments (parse (fuel + 1)) (fuel + 1) >>= fun args =>
        remainder (parse (fuel + 1)) (fuel + 1) fuel l.line (.dot e n args)) ⟨s'', noDo⟩ := by
  obtain ⟨u, word, looked⟩ := h.term hd nextDot noDo
  rw [parse_unprefixed h.unprefixed, bind_ok word]
  exact remainder_dot hd hm looked nextName fuel l.line

end Grammar

end ObjectLang
