import ObjectLang.Proofs.Parse.Openings

/-!
# Related parsers

A rule of the grammar only puts steps together. So a relation that the single steps keep holds
between two runs of a rule as soon as it holds between the runs of the rules nested in it.

A run under the restriction on `do` can stop in front of a `do` that a run without it takes. What
comes behind such a step has to leave the `do` in place or to break off at it, and so the relation
comes in three grades.

Errors name lines, and so a second relation goes with it, which says how the lines in the two runs
belong together.
-/

namespace ObjectLang

open Parse Grammar

namespace Parse

variable {α β : Type}

/-! ## What single steps have to keep -/

/-- The same token, and either both or none behind a gap, unless it is the end of a line. -/
structure SameLexeme (l l' : Lexeme) : Prop where
  token : l.token = l'.token
  spaced : l.token = .fixed .newline ∨ l.spaced = l'.spaced

theorem SameLexeme.refl (l : Lexeme) : SameLexeme l l := ⟨rfl, .inr rfl⟩

/-- No test that the end of a line fails notices its gap. -/
theorem SameLexeme.test_eq {l l' : Lexeme} (h : SameLexeme l l') (test : Lexeme → Bool)
    (newline : ∀ l : Lexeme, l.token = .fixed .newline → test l = false)
    (same : ∀ l l' : Lexeme, l.token = l'.token → l.spaced = l'.spaced → test l = test l') :
    test l = test l' := by
  rcases h.spaced with line | spaced
  · rw [newline l line, newline l' (h.token ▸ line)]
  · exact same l l' h.token spaced

/-- A `do` is next, and it belongs to an enclosing construct. -/
structure Barred (l : Lexeme) (p : Parser) : Prop where
  noDo : p.noDo = true
  token : l.token = .fixed .doWord
  faces : Faces p (some l)

/-- The step takes nothing in front of a barred `do`. -/
def Rests (x : Parse α) : Prop :=
  ∀ l p, Barred l p → (∃ a, x p = .ok a p) ∨ x p = .unfinished

/-- The step fails in front of a barred `do`, where it expects the end of a command. -/
def Breaks (x : Parse α) : Prop :=
  ∀ l p, Barred l p → (∃ q, x p = .error ⟨.endOfCommandExpected, l.line⟩ q) ∨ x p = .unfinished

/-- The step never gives a value. -/
def Void (x : Parse α) : Prop :=
  ∀ p a q, x p ≠ .ok a q

/-- The step reads a token first, and goes no further where no token begins. -/
def Fetches (x : Parse α) : Prop :=
  ∀ p e s, p.tokens.next = (.error e, s) → x p = .error e { p with tokens := s } ∨
    x p = .unfinished

/-- How far a relation between steps goes: it says what becomes of a `do` at every `firm` step, at
a `soft` one unless the step stops in front of it, and at a `free` one not at all. -/
inductive Grade where
  | firm | soft | free
  deriving DecidableEq

/-- A relation between steps that no rule of the grammar can break, where `L` relates the lines. At
the end of a line the one step may stand where the other stands at a closing parenthesis. The lines
in front of an error in the text are not used, and need not be related. -/
structure Congruence (L : Nat → Nat → Prop) (R : Grade → ∀ {α : Type}, Parse α → Parse α → Prop) :
    Prop where
  soften : ∀ {α : Type} {x y : Parse α}, R .firm x y → R .soft x y
  free : ∀ {α : Type} {x y : Parse α}, R .soft x y → R .free x y
  unfinished : ∀ {α : Type} {g : Grade}, R g (unfinished : Parse α) unfinished
  fail : ∀ {α : Type} {g : Grade} (fault : SyntaxFault) {line line' : Nat}, L line line' →
    R g (fail fault line : Parse α) (fail fault line')
  fail_after : ∀ {α β : Type} {g : Grade} {x y : Parse α} (fault : SyntaxFault) {line line' : Nat},
    R .soft x y → L line line' →
    R g (x >>= fun _ => (Parse.fail fault line : Parse β)) (y >>= fun _ => Parse.fail fault line')
  pure : ∀ {α : Type} {g : Grade} (a : α), R g (pure a : Parse α) (pure a)
  bind : ∀ {α β : Type} {g : Grade} {x y : Parse α} {f f' : α → Parse β}, R .firm x y →
    (∀ a, R g (f a) (f' a)) → R g (x >>= f) (y >>= f')
  bind_free : ∀ {α β : Type} {x y : Parse α} {f f' : α → Parse β}, R .free x y →
    (∀ a, R .free (f a) (f' a)) → R .free (x >>= f) (y >>= f')
  bind_rests : ∀ {α β : Type} {x y : Parse α} {f f' : α → Parse β}, R .soft x y →
    (∀ a, R .soft (f a) (f' a)) → (∀ a, Rests (f' a)) → R .soft (x >>= f) (y >>= f')
  bind_breaks : ∀ {α β : Type} {x y : Parse α} {f f' : α → Parse β}, R .soft x y →
    (∀ a, R .firm (f a) (f' a)) → (∀ a, Breaks (f' a)) → R .firm (x >>= f) (y >>= f')
  lineHere : ∀ {β : Type} {g : Grade} {f f' : Nat → Parse β},
    (∀ line, Fetches (f line)) → (∀ line, Fetches (f' line)) →
    (∀ line line', L line line' → R g (f line) (f' line')) → R g (lineHere >>= f) (lineHere >>= f')
  restricted : ∀ {α : Type} {x y : Parse α} (noDo : Bool), R .free x y →
    R .firm (restricted noDo x) (restricted noDo y)
  next : ∀ {β : Type} {g : Grade} {f f' : Option Lexeme → Parse β}, R g (f none) (f' none) →
    (∀ l l', SameLexeme l l' → L l.line l'.line → R g (f (some l)) (f' (some l'))) →
    R g (next >>= f) (next >>= f')
  look : ∀ {β : Type} {g : Grade} {n n' : Nat → Parse β} {f f' : Option Lexeme → Parse β},
    f none = Parse.lineHere >>= n → f' none = Parse.lineHere >>= n' →
    (∀ line line', L line line' → R g (n line) (n' line')) →
    (∀ l l', SameLexeme l l' → L l.line l'.line → R g (f (some l)) (f' (some l'))) →
    (∀ l l', l.token = .fixed .newline → l'.token = .fixed .rparen → L l.line l'.line →
      R g (f (some l)) (f' (some l')) ∨ Refuses .newline (f (some l))) →
    R g (peek >>= f) (peek >>= f')
  acceptNewline : R .firm (accept .newline) (accept .newline)
  endOfCommand : R .firm endOfCommand endOfCommand
  blockTrailer : ∀ {r : Nested} {fuel : Nat},
    R .firm (blockBody r .endWord fuel) (blockBody r .endWord fuel) →
    R .firm (braceBlock r fuel) (braceBlock r fuel) →
    R .soft (blockTrailer r fuel) (blockTrailer r fuel)

/-! ## Steps that read a token first -/

section
variable {x : Parse α} {f : α → Parse β}

theorem fetches_unfinished : Fetches (unfinished : Parse α) :=
  fun _ _ _ _ => .inr rfl

theorem fetches_next (f : Option Lexeme → Parse β) : Fetches (next >>= f) :=
  fun _ _ _ h => .inl (bind_error (next_error h))

theorem fetches_peek (f : Option Lexeme → Parse β) : Fetches (peek >>= f) :=
  fun _ _ _ h => .inl (bind_error (peek_error h))

theorem fetches_accept (t : Fixed) (F : Bool → Parse β) : Fetches (accept t >>= F) := by
  rw [accept_next]
  exact fetches_peek _

theorem Fetches.bind (h : Fetches x) (f : α → Parse β) : Fetches (x >>= f) := by
  intro p e s hs
  rcases h p e s hs with h | h
  · exact .inl (bind_error h)
  · exact .inr (bind_unfinished h)

theorem void_fail (fault : SyntaxFault) (line : Nat) : Void (fail fault line : Parse α) :=
  fun _ _ _ => nofun

theorem void_unfinished : Void (unfinished : Parse α) :=
  fun _ _ _ => nofun

theorem Void.after (h : ∀ a, Void (f a)) : Void (x >>= f) := by
  intro p b q e
  obtain ⟨a, u, _, e⟩ := exists_of_bind_ok e
  exact h a u b q e

/-- After a look at a token the line is that of the token. -/
theorem peek_lineHere (f : Option Lexeme → Nat → Parse β) :
    (peek >>= fun o => lineHere >>= f o) =
      peek >>= fun o => o.elim (lineHere >>= f none) fun l => f (some l) l.line := by
  funext p
  cases h : p.tokens.next with
  | mk a s =>
    match a with
    | .ok none => rw [bind_ok (peek_end h), bind_ok (peek_end h)]; rfl
    | .ok (some l) => rw [bind_ok (peek_token h), bind_ok (peek_token h)]; rfl
    | .error e => rw [bind_error (peek_error h), bind_error (peek_error h)]

end

/-! ## Steps in front of a barred `do` -/

section
variable {l : Lexeme} {p : Parser} {x : Parse α} {f : α → Parse β}

theorem rests_pure (a : α) : Rests (pure a) :=
  fun _ _ _ => .inl ⟨a, rfl⟩

theorem Rests.bind (hx : Rests x) (hf : ∀ a, Rests (f a)) : Rests (x >>= f) := by
  intro l p hp
  rcases hx l p hp with ⟨a, h⟩ | h
  · rw [bind_ok h]
    exact hf a l p hp
  · exact .inr (bind_unfinished h)

theorem Breaks.bind (hx : Breaks x) (f : α → Parse β) : Breaks (x >>= f) := by
  intro l p hp
  rcases hx l p hp with ⟨q, h⟩ | h
  · exact .inl ⟨q, bind_error h⟩
  · exact .inr (bind_unfinished h)

theorem Barred.passes (hp : Barred l p) {g : Fixed} (hg : g ≠ .doWord) (F : Bool → Parse β) :
    (accept g >>= F) p = F false p := by
  refine accept_passes hp.faces ?_
  rw [Option.any_some, hp.token]
  exact decide_eq_false hg.symm

theorem Barred.declines (hp : Barred l p) {g : Fixed} (hg : g ≠ .doWord) :
    accept g p = .ok false p := by
  rw [← bind_pure (accept g)]
  exact hp.passes hg pure

theorem rests_accept {g : Fixed} (hg : g ≠ .doWord) {F : Bool → Parse β} (h : Rests (F false)) :
    Rests (accept g >>= F) := by
  intro l p hp
  rw [hp.passes hg]
  exact h l p hp

theorem breaks_accept {g : Fixed} (hg : g ≠ .doWord) {F : Bool → Parse β} (h : Breaks (F false)) :
    Breaks (accept g >>= F) := by
  intro l p hp
  rw [hp.passes hg]
  exact h l p hp

theorem rests_peek {f : Option Lexeme → Parse β}
    (h : ∀ l, l.token = .fixed .doWord → Rests (f (some l))) : Rests (peek >>= f) := by
  intro l p hp
  rw [bind_ok hp.faces]
  exact h l hp.token l p hp

theorem rests_iterate {step : α → Parse (Option α)}
    (h : ∀ a l p, Barred l p → step a p = .ok none p) :
    ∀ (n : Nat) (a : α), Rests (iterate step n a)
  | 0, _ => fun _ _ _ => .inr rfl
  | n + 1, a => fun l p hp => .inl ⟨a, iterate_stop (h a l p hp) n⟩

theorem breaks_endOfCommand : Breaks endOfCommand := by
  rintro ⟨_, line, spaced⟩ p ⟨_, rfl, faces⟩
  obtain ⟨s, rest⟩ := faces.exists_push
  rw [rest]
  exact .inl ⟨⟨s, p.noDo⟩, rfl⟩

theorem breaks_headerEnd : Breaks headerEnd := by
  intro l p hp
  have separator : acceptSeparator p = .ok false p :=
    (hp.passes (by decide) _).trans (hp.declines (by decide))
  have word : nextIs .endWord p = .ok false p := by
    refine (bind_ok hp.faces).trans ?_
    rw [Option.any_some, hp.token]
    rfl
  exact .inl ⟨p, (bind_ok separator).trans ((bind_ok word).trans (bind_ok hp.faces))⟩

end

/-! ## Steps in sequence -/

section
variable {L : Nat → Nat → Prop} {R : Grade → ∀ {α : Type}, Parse α → Parse α → Prop}
  (c : Congruence L R) {g : Grade} {x y : Parse α} {f f' : α → Parse β} {F G : Bool → Parse β}
  {t : Fixed} {fuel : Nat}
include c

theorem Congruence.weaken (g : Grade) (h : R .firm x y) : R g x y := by
  cases g with
  | firm => exact h
  | soft => exact c.soften h
  | free => exact c.free (c.soften h)

theorem Congruence.bind_alike (hg : g ≠ .soft) (hx : R g x y) (hf : ∀ a, R g (f a) (f' a)) :
    R g (x >>= f) (y >>= f') := by
  cases g with
  | firm => exact c.bind hx hf
  | soft => exact absurd rfl hg
  | free => exact c.bind_free hx hf

theorem then_pure_congr (h : R g x y) (f : α → β) :
    R g (x >>= fun a => pure (f a)) (y >>= fun a => pure (f a)) := by
  cases g with
  | soft => exact c.bind_rests h (fun a => c.pure (f a)) fun a => rests_pure (f a)
  | _ => exact c.bind_alike (by decide) h fun a => c.pure (f a)

theorem Congruence.peek {f f' : Option Lexeme → Parse β} (hnone : R g (f none) (f' none))
    (hsome : ∀ l l', SameLexeme l l' → L l.line l'.line → R g (f (some l)) (f' (some l')))
    (hclosed : ∀ l l', l.token = .fixed .newline → l'.token = .fixed .rparen → L l.line l'.line →
      R g (f (some l)) (f' (some l')) ∨ Refuses .newline (f (some l))) :
    R g (peek >>= f) (peek >>= f') :=
  have unread : f none = Parse.lineHere >>= fun _ => f none := rfl
  have unread' : f' none = Parse.lineHere >>= fun _ => f' none := rfl
  c.look unread unread' (fun _ _ _ => hnone) hsome hclosed

/-! ## The next token -/

/-- The test is about the token and the gap, and turns down the end of a line and a closing
parenthesis. -/
structure Ordinary (test : Lexeme → Bool) : Prop where
  alike : ∀ l l', SameLexeme l l' → test l = test l'
  halts : ∀ l f, Halts f → l.token = .fixed f → test l = false

theorem passes_congr {test : Lexeme → Bool} (ht : Ordinary test) (hyes : R g (F true) (G true))
    (hno : R g (F false) (G false)) :
    R g (peek >>= fun l => F (l.any test)) (peek >>= fun l => G (l.any test)) := by
  refine c.peek hno (fun l l' h _ => ?_) fun l l' hl hl' _ => .inl ?_
  · rw [Option.any_some, Option.any_some, ht.alike l l' h]
    cases test l' with
    | true => exact hyes
    | false => exact hno
  · rw [Option.any_some, Option.any_some, ht.halts l _ (.inl rfl) hl, ht.halts l' _ (.inr rfl) hl']
    exact hno

theorem acceptIf_congr {test : Lexeme → Bool} (ht : Ordinary test) (hyes : R g (F true) (G true))
    (hno : R g (F false) (G false)) : R g (acceptIf test >>= F) (acceptIf test >>= G) := by
  rw [acceptIf_bind, acceptIf_bind]
  exact passes_congr c (F := fun b => if b then next >>= fun _ => F true else F false)
    (G := fun b => if b then next >>= fun _ => G true else G false) ht
    (c.next hyes fun _ _ _ _ => hyes) hno

omit c in
theorem isFixed_of_halts {f : Fixed} (hf : Halts f) (ht : ¬Halts t) {l : Lexeme}
    (hl : l.token = .fixed f) : l.token.isFixed t = false := by
  rw [hl]
  exact decide_eq_false fun e => ht (e ▸ hf)

omit c in
theorem ordinary_fixed (ht : ¬Halts t) : Ordinary (·.token.isFixed t) :=
  ⟨fun _ _ h => by rw [h.token], fun _ _ hf => isFixed_of_halts hf ht⟩

omit c in
theorem ordinary_touching (ht : ¬Halts t) : Ordinary fun l => l.token.isFixed t && !l.spaced :=
  have halts (l : Lexeme) (f : Fixed) (hf : Halts f) (hl : l.token = .fixed f) :
      (l.token.isFixed t && !l.spaced) = false := by
    rw [isFixed_of_halts hf ht hl, Bool.false_and]
  ⟨fun _ _ h => h.test_eq _ (fun l => halts l _ (.inl rfl)) fun _ _ token spaced => by
    rw [token, spaced], halts⟩

theorem accept_congr (ht : ¬Halts t) (hyes : R g (F true) (G true))
    (hno : R g (F false) (G false)) : R g (accept t >>= F) (accept t >>= G) := by
  rw [accept_eq]
  exact acceptIf_congr c (ordinary_fixed ht) hyes hno

theorem acceptTouching_congr (ht : ¬Halts t) (hyes : R g (F true) (G true))
    (hno : R g (F false) (G false)) : R g (acceptTouching t >>= F) (acceptTouching t >>= G) := by
  rw [acceptTouching_eq]
  exact acceptIf_congr c (ordinary_touching ht) hyes hno

theorem nextIs_congr (ht : ¬Halts t) (hyes : R g (F true) (G true))
    (hno : R g (F false) (G false)) : R g (nextIs t >>= F) (nextIs t >>= G) := by
  unfold nextIs
  rw [bind_assoc, bind_assoc]
  exact passes_congr c (ordinary_fixed ht) hyes hno

/-- A test for what may be a closing parenthesis, if nothing but that can stand at the end of a
line. -/
theorem closes_congr (ht : t ≠ .newline) (hyes : R g (F true) (G true))
    (hno : R g (F false) (G false)) (refuses : Refuses .newline (F false)) :
    R g (peek >>= fun l => F (l.any (·.token.isFixed t)))
      (peek >>= fun l => G (l.any (·.token.isFixed t))) := by
  refine c.peek hno (fun l l' h _ => ?_) fun l l' hl hl' _ => .inr ?_
  · rw [Option.any_some, Option.any_some, h.token]
    cases l'.token.isFixed t with
    | true => exact hyes
    | false => exact hno
  · have other : l.token.isFixed t = false := by
      rw [hl]
      exact decide_eq_false ht.symm
    rw [Option.any_some, other]
    exact refuses

theorem acceptClosing_congr (ht : t ≠ .newline) (hyes : R g (F true) (G true))
    (hno : R g (F false) (G false)) (refuses : Refuses .newline (F false)) :
    R g (accept t >>= F) (accept t >>= G) := by
  rw [accept_next, accept_next]
  exact closes_congr c (F := fun b => if b then next >>= fun _ => F true else F false)
    (G := fun b => if b then next >>= fun _ => G true else G false) ht
    (c.next hyes fun _ _ _ _ => hyes) hno refuses

theorem nextCloses_congr (ht : t ≠ .newline) (hyes : R g (F true) (G true))
    (hno : R g (F false) (G false)) (refuses : Refuses .newline (F false)) :
    R g (nextIs t >>= F) (nextIs t >>= G) := by
  unfold nextIs
  rw [bind_assoc, bind_assoc]
  exact closes_congr c ht hyes hno refuses

omit c in
theorem expect_look : expect t = peek >>= fun o => o.elim (lineHere >>= fail (.expected t)) fun l =>
    if l.token.isFixed t then next >>= fun _ => pure () else fail (.expected t) l.line := by
  have steps : expect t = peek >>= fun o => lineHere >>= fun line =>
      if o.any (·.token.isFixed t) then next >>= fun _ => pure () else fail (.expected t) line := by
    rw [expect, accept_next]
    congr 1
    funext o
    cases o.any (·.token.isFixed t) <;> rfl
  rw [steps, peek_lineHere]
  rfl

theorem expect_congr (ht : t ≠ .newline) : R .firm (expect t) (expect t) := by
  rw [expect_look]
  refine c.look rfl rfl (fun _ _ => c.fail _) (fun l l' h lines => ?_) fun l l' hl _ _ => .inr ?_
  · rw [Option.elim_some, Option.elim_some, h.token]
    split
    · exact c.next (c.pure ()) fun _ _ _ _ => c.pure ()
    · exact c.fail _ lines
  · have other : l.token.isFixed t = false := by
      rw [hl]
      exact decide_eq_false ht.symm
    rw [Option.elim_some, other]
    exact fun _ _ _ _ _ _ => nofun

/-! ## Loops -/

theorem iterate_congr {step step' : α → Parse (Option α)} (h : ∀ a, R .firm (step a) (step' a)) :
    ∀ (n : Nat) (a : α), R .firm (iterate step n a) (iterate step' n a)
  | 0, _ => c.unfinished
  | n + 1, a => c.bind (h a) fun b => by
    cases b with
    | none => exact c.pure a
    | some b => exact iterate_congr h n b

theorem iterate_congr_soft {step step' : α → Parse (Option α)}
    (h : ∀ a, R .soft (step a) (step' a)) (stop : ∀ a l p, Barred l p → step' a p = .ok none p) :
    ∀ (n : Nat) (a : α), R .soft (iterate step n a) (iterate step' n a)
  | 0, _ => c.unfinished
  | n + 1, a => by
    refine c.bind_rests (h a) (fun b => ?_) fun b => ?_
    · cases b with
      | none => exact c.pure a
      | some b => exact iterate_congr_soft h stop n b
    · cases b with
      | none => exact rests_pure a
      | some b => exact rests_iterate stop n b

theorem collect_congr {step step' : Parse (Option α)} (hg : g ≠ .soft) (h : R g step step') :
    ∀ n : Nat, R g (collect step n) (collect step' n)
  | 0 => c.unfinished
  | n + 1 => c.bind_alike hg h fun b => by
    cases b with
    | none => exact c.pure []
    | some b => exact then_pure_congr c (collect_congr hg h n) _

theorem skipNewlines_congr : R .firm (skipNewlines fuel) (skipNewlines fuel) := by
  refine iterate_congr c (fun _ => c.bind c.acceptNewline fun b => ?_) fuel ()
  cases b with
  | true => exact c.pure _
  | false => exact c.pure _

theorem acceptSeparator_congr (hyes : R g (F true) (G true)) (hno : R g (F false) (G false)) :
    R g (acceptSeparator >>= F) (acceptSeparator >>= G) := by
  unfold acceptSeparator
  rw [bind_assoc, bind_assoc]
  refine c.bind c.acceptNewline fun b => ?_
  cases b with
  | true => exact hyes
  | false => exact accept_congr c (by decide) hyes hno

theorem skipSeparators_congr : R .firm (skipSeparators fuel) (skipSeparators fuel) :=
  iterate_congr c (fun _ => acceptSeparator_congr c (c.pure _) (c.pure _)) fuel ()

/-! ## Names and lists -/

theorem nameBy_congr (name? : Token → Option String) : R .firm (nameBy name?) (nameBy name?) := by
  refine c.lineHere (fun _ => fetches_next _) (fun _ => fetches_next _) fun line line' here =>
    c.next (c.fail _ here) fun l l' h lines => ?_
  dsimp only
  rw [h.token]
  cases name? l'.token with
  | none => exact c.fail _ lines
  | some n => exact c.pure n

variable {item item' : Parse α}

theorem commaThen_congr (h : R g item item') : R g (commaThen item) (commaThen item') :=
  accept_congr c (by decide) (then_pure_congr c h some) (c.pure none)

theorem separated_congr (hg : g ≠ .soft) (h : R g item item') :
    R g (separated item fuel) (separated item' fuel) :=
  c.bind_alike hg h fun _ => then_pure_congr c (collect_congr c hg (commaThen_congr c h) fuel) _

theorem parameterList_congr (ht : t ≠ .newline) :
    R .firm (parameterList t fuel) (parameterList t fuel) := by
  refine acceptClosing_congr c ht (c.pure []) ?_ ?_
  · exact c.bind (separated_congr c (by decide) (nameBy_congr c _)) fun names =>
      c.bind (expect_congr c ht) fun _ => c.pure names
  · refine Refuses.bind (Refuses.bind ?_ _) _
    rintro s ⟨_, line, spaced⟩ noDo rfl a q
    exact nofun

theorem items_congr (ht : t ≠ .newline) (h : R .free item item') (refuses : Refuses .newline item)
    (lines : Nat) : ∀ n : Nat, R .free (items t item lines n) (items t item' lines n)
  | 0 => c.unfinished
  | n + 1 => by
    refine nextCloses_congr c ht (c.pure []) (c.bind_free h fun first => ?_) (refuses.bind _)
    refine c.bind (skipNewlines_congr c) fun _ => accept_congr c (by decide) ?_ (c.pure [first])
    exact c.bind (skipNewlines_congr c) fun _ =>
      then_pure_congr c (items_congr ht h refuses lines n) _

theorem delimited_congr (ht : t ≠ .newline) (h : R .free item item')
    (refuses : Refuses .newline item) : R .free (delimited t item fuel) (delimited t item' fuel) :=
  c.bind (skipNewlines_congr c) fun _ =>
    c.bind_free (items_congr c ht h refuses fuel fuel) fun found =>
      c.bind (expect_congr c ht) fun _ => c.pure found

end

end Parse

end ObjectLang
