import ObjectLang.Proofs.Token.Shift
import ObjectLang.Parse

/-!
# Parsing steps on longer texts

A step follows another one if it does the same on a text that goes on as long as the other one
does not come to the end of its own text. What the other one says at the end of its text, that
a token is missing, means nothing for the longer text.
-/

namespace ObjectLang

open TokenStream (Closed Spent)

/-- Whether the fault can mean that the text has ended too early. -/
def SyntaxFault.isMissing : SyntaxFault → Bool
  | expected _ | nameExpected | unexpectedEnd => true
  | _ => false

def Parser.shift (k : Nat) (t : List Char) (p : Parser) : Parser :=
  { p with tokens := p.tokens.shift k t }

namespace Parse

variable {α β : Type}

section
variable (k : Nat) (t : List Char)

/-- A result and the one on the longer text. A `clear` one leaves a part of the shorter text. -/
def Agree (clear : Bool) : Parsed α → Parsed α → Prop
  | .ok a p, r => (Closed t p.tokens ∧ ¬Spent t p.tokens ∧ r = .ok a (p.shift k t)) ∨
      (clear = false ∧ Spent t p.tokens)
  | .error e p, r => r = .error (e.shift k) (p.shift k t) ∨ (t ≠ [] ∧ e.fault.isMissing = true)
  | .unfinished, _ => True

/-- A result of a step that begins when its text is used up. -/
def AtEnd (needs : Bool) : Parsed α → Prop
  | .ok _ p => needs = false ∧ Spent t p.tokens
  | .error e _ => e.fault.isMissing = true
  | .unfinished => True

def Along (clear : Bool) (x y : Parse α) : Prop :=
  ∀ p : Parser, Closed t p.tokens → ¬Spent t p.tokens → Agree k t clear (x p) (y (p.shift k t))

/-- On a longer text `y` does what `x` does. At the end of its text `x` takes nothing, and
fails if it `needs` a token. -/
structure Follows (needs clear : Bool) (x y : Parse α) : Prop where
  along : Along k t clear x y
  atEnd : ∀ p : Parser, Spent t p.tokens → AtEnd t needs (x p)

/-- What holds of two steps when the token that comes next is known. -/
def AlongAt (l : Lexeme) (clear : Bool) (x y : Parse α) : Prop :=
  ∀ p : Parser, Closed t p.tokens → p.tokens.pushed.head? = some l →
    Agree k t clear (x p) (y (p.shift k t))

end

section
variable {k : Nat} {t : List Char} {n c m d : Bool} {x y : Parse α} {f g : α → Parse β}

/-! ## Weaker statements -/

theorem AtEnd.weaken {r : Parsed α} (h : AtEnd t true r) : AtEnd t n r := by
  cases r with
  | ok a p => exact absurd h.1 (by decide)
  | error e p => exact h
  | unfinished => trivial

theorem AtEnd.loose {r : Parsed α} (h : AtEnd t n r) : AtEnd t false r := by
  cases n with
  | true => exact h.weaken
  | false => exact h

/-- Nothing is said about a longer text once the shorter one is used up. -/
theorem AtEnd.agree {r : Parsed α} (h : AtEnd t c r) (ht : t ≠ []) (r' : Parsed α) :
    Agree k t c r r' := by
  cases r with
  | ok a p => exact .inr h
  | error e p => exact .inr ⟨ht, h⟩
  | unfinished => trivial

theorem Follows.loose (h : Follows k t n c x y) : Follows k t false c x y :=
  ⟨h.along, fun p hp => (h.atEnd p hp).loose⟩

theorem Along.at (h : Along k t c x y) (l : Lexeme) : AlongAt k t l c x y := by
  intro p hc hl
  refine h p hc fun hs => ?_
  rw [hs.pushed] at hl
  cases hl

theorem along_ite {b : Bool} {x' y' : Parse α} (h : b = true → Along k t c x y)
    (h' : b = false → Along k t c x' y') :
    Along k t c (if b then x else x') (if b then y else y') := by
  cases b with
  | true => exact h rfl
  | false => exact h' rfl

theorem alongAt_ite {l : Lexeme} {b : Bool} {x' y' : Parse α}
    (h : b = true → AlongAt k t l c x y) (h' : b = false → AlongAt k t l c x' y') :
    AlongAt k t l c (if b then x else x') (if b then y else y') := by
  cases b with
  | true => exact h rfl
  | false => exact h' rfl

/-! ## Steps in sequence -/

theorem bind_assoc {γ : Type} (x : Parse α) (f : α → Parse β) (g : β → Parse γ) :
    (x >>= f) >>= g = x >>= fun a => f a >>= g := by
  funext p
  change Parse.bind (Parse.bind x f) g p = Parse.bind x (fun a => Parse.bind (f a) g) p
  unfold Parse.bind
  cases x p <;> rfl

theorem pure_bind (a : α) (f : α → Parse β) : pure a >>= f = f a := rfl

theorem Along.bind (hx : Along k t c x y) (hf : ∀ a, Along k t d (f a) (g a))
    (he : c = false → ∀ a p, Spent t p.tokens → AtEnd t d (f a p)) :
    Along k t d (x >>= f) (y >>= g) := by
  intro p hc hs
  have h := hx p hc hs
  change Agree k t d (Parse.bind x f p) (Parse.bind y g (p.shift k t))
  unfold Parse.bind
  cases hr : x p with
  | ok a q =>
    rw [hr] at h
    rcases h with ⟨hc', hs', e⟩ | ⟨hcl, hs'⟩
    · rw [e]
      exact hf a q hc' hs'
    -- The first step has used up its text, and the second one begins at the end.
    · exact (he hcl a q hs').agree hs'.more _
  | error e q =>
    rw [hr] at h
    rcases h with e' | h
    · rw [e']
      exact .inl rfl
    · exact .inr h
  | unfinished => trivial

theorem AtEnd.bind {p : Parser} (hx : AtEnd t n (x p))
    (hf : n = false → ∀ a q, Spent t q.tokens → AtEnd t m (f a q)) : AtEnd t m ((x >>= f) p) := by
  change AtEnd t m (Parse.bind x f p)
  unfold Parse.bind
  cases hr : x p with
  | ok a q =>
    rw [hr] at hx
    exact hf hx.1 a q hx.2
  | error e q =>
    rw [hr] at hx
    exact hx
  | unfinished => trivial

theorem Along.bind_clear (hx : Along k t true x y) (hf : ∀ a, Along k t c (f a) (g a)) :
    Along k t c (x >>= f) (y >>= g) :=
  hx.bind hf nofun

theorem Along.bind_loose (hx : Along k t false x y) (hf : ∀ a, Follows k t c c (f a) (g a)) :
    Along k t c (x >>= f) (y >>= g) :=
  hx.bind (fun a => (hf a).along) fun _ a p hp => (hf a).atEnd p hp

/-- After a step that needs a token and leaves one, the end has not been reached. -/
theorem Follows.bind_solid (hx : Follows k t true true x y) (hf : ∀ a, Along k t c (f a) (g a)) :
    Follows k t n c (x >>= f) (y >>= g) :=
  ⟨hx.along.bind_clear hf, fun p hp => (hx.atEnd p hp).bind nofun⟩

theorem Follows.bind_soft (hx : Follows k t false true x y)
    (hf : ∀ a, Follows k t n c (f a) (g a)) : Follows k t n c (x >>= f) (y >>= g) :=
  ⟨hx.along.bind_clear fun a => (hf a).along,
    fun p hp => (hx.atEnd p hp).bind fun _ a q hq => (hf a).atEnd q hq⟩

/-- After a step that may take the last token, what follows has to notice the end. -/
theorem Follows.bind_headed (hx : Follows k t true false x y)
    (hf : ∀ a, Follows k t c c (f a) (g a)) : Follows k t n c (x >>= f) (y >>= g) :=
  ⟨hx.along.bind_loose hf, fun p hp => (hx.atEnd p hp).bind nofun⟩

theorem Follows.bind_loose (hx : Follows k t false false x y)
    (hf : ∀ a, Follows k t (n || c) c (f a) (g a)) : Follows k t n c (x >>= f) (y >>= g) := by
  refine ⟨hx.along.bind (fun a => (hf a).along) fun _ a p hp => ?_,
    fun p hp => (hx.atEnd p hp).bind fun _ a q hq => ?_⟩
  · have h := (hf a).atEnd p hp
    cases c with
    | true => rw [Bool.or_true] at h; exact h
    | false => exact h.loose
  · have h := (hf a).atEnd q hq
    cases n with
    | true => exact h
    | false => exact h.loose

theorem Follows.agree (h : Follows k t c c x y) (p : Parser) (hc : Closed t p.tokens) :
    Agree k t c (x p) (y (p.shift k t)) := by
  by_cases hs : Spent t p.tokens
  · exact (h.atEnd p hs).agree hs.more _
  · exact h.along p hc hs

/-! ## Single steps -/

theorem agree_pure {p : Parser} (a : α) (hc : Closed t p.tokens) (hs : ¬Spent t p.tokens) :
    Agree k t c (.ok a p) (.ok a (p.shift k t)) :=
  .inl ⟨hc, hs, rfl⟩

theorem follows_pure (a : α) : Follows k t false c (pure a) (pure a) :=
  ⟨fun _ hc hs => agree_pure a hc hs, fun _ hp => ⟨rfl, hp⟩⟩

theorem follows_unfinished : Follows k t n c (unfinished : Parse α) y :=
  ⟨fun _ _ _ => trivial, fun _ _ => trivial⟩

theorem along_fail (fault : SyntaxFault) (line : Nat) :
    Along k t c (fail fault line : Parse α) (fail fault (line + k)) :=
  fun _ _ _ => .inl rfl

theorem follows_fail {fault : SyntaxFault} (h : fault.isMissing = true) (line : Nat) :
    Follows k t n c (fail fault line : Parse α) (fail fault (line + k)) :=
  ⟨along_fail fault line, fun _ _ => h⟩

theorem follows_doAllowed : Follows k t false true doAllowed doAllowed :=
  ⟨fun _ hc hs => agree_pure _ hc hs, fun _ hp => ⟨rfl, hp⟩⟩

theorem follows_lineHere {f g : Nat → Parse β}
    (hf : ∀ line, Follows k t n c (f line) (g (line + k))) :
    Follows k t n c (lineHere >>= f) (lineHere >>= g) := by
  refine ⟨fun p hc hs => ?_, fun p hp => (hf _).atEnd p hp⟩
  change Agree k t c (f p.tokens.lineHere p) (g (p.shift k t).tokens.lineHere (p.shift k t))
  rw [Parser.shift, TokenStream.lineHere_shift]
  exact (hf _).along p hc hs

theorem follows_restricted (noDo : Bool) (h : Follows k t n c x y) :
    Follows k t n c (restricted noDo x) (restricted noDo y) := by
  refine ⟨fun p hc hs => ?_, fun p hp => ?_⟩
  · have h := h.along { p with noDo := noDo } hc hs
    unfold restricted
    cases hr : x { p with noDo := noDo } with
    | ok a q =>
      rw [hr] at h
      refine h.imp (fun ⟨hc', hs', e⟩ => ⟨hc', hs', ?_⟩) id
      rw [show ({ p.shift k t with noDo := noDo } : Parser) =
        Parser.shift k t { p with noDo := noDo } from rfl, e]
      rfl
    | error e q =>
      rw [hr] at h
      refine h.imp (fun e' => ?_) id
      rw [show ({ p.shift k t with noDo := noDo } : Parser) =
        Parser.shift k t { p with noDo := noDo } from rfl, e']
      rfl
    | unfinished => trivial
  · have h := h.atEnd { p with noDo := noDo } hp
    unfold restricted
    cases hr : x { p with noDo := noDo } with
    | ok a q => rw [hr] at h; exact h
    | error e q => rw [hr] at h; exact h
    | unfinished => trivial

/-! ## Tokens -/

section
variable {f g : Option Lexeme → Parse β}

theorem follows_next (hnone : Follows k t n c (f none) (g none))
    (hsome : ∀ l : Lexeme, l.token ≠ .fixed .newline →
      Along k t c (f (some l)) (g (some (l.shift k))))
    (hline : ∀ l : Lexeme, l.token = .fixed .newline → ∀ p : Parser, Closed t p.tokens →
      Agree k t c (f (some l) p) (g (some (l.shift k)) (p.shift k t))) :
    Follows k t n c (next >>= f) (next >>= g) := by
  refine ⟨fun p hc hs => ?_, fun p hp => ?_⟩
  · obtain ⟨same, closed, spent⟩ := TokenStream.inStep_next k hc hs
    change Agree k t c (Parse.bind next f p) (Parse.bind next g (p.shift k t))
    unfold Parse.bind next onTokens
    rw [show (p.shift k t).tokens = p.tokens.shift k t from rfl, same]
    cases hr : p.tokens.next with
    | mk a s =>
      rw [hr] at closed spent
      match a with
      | .ok none =>
        refine hnone.along { p with tokens := s } closed fun hs => ?_
        obtain ⟨l, e, _⟩ := spent hs
        cases e
      | .ok (some l) =>
        -- Only the end of a line can have been the last token.
        by_cases hl : l.token = .fixed .newline
        · exact hline l hl { p with tokens := s } closed
        · refine hsome l hl { p with tokens := s } closed fun hs => ?_
          obtain ⟨l', e, hl'⟩ := spent hs
          cases e
          exact hl hl'
      | .error e => exact .inl rfl
  · change AtEnd t n (Parse.bind next f p)
    unfold Parse.bind next onTokens
    rw [hp.next]
    exact hnone.atEnd p hp

theorem follows_peek (hnone : Follows k t n c (f none) (g none))
    (hsome : ∀ l : Lexeme, AlongAt k t l c (f (some l)) (g (some (l.shift k)))) :
    Follows k t n c (peek >>= f) (peek >>= g) := by
  refine ⟨fun p hc hs => ?_, fun p hp => ?_⟩
  · obtain ⟨same, closed, spent⟩ := TokenStream.inStep_next k hc hs
    change Agree k t c (Parse.bind peek f p) (Parse.bind peek g (p.shift k t))
    unfold Parse.bind peek onTokens TokenStream.peek
    rw [show (p.shift k t).tokens = p.tokens.shift k t from rfl, same]
    cases hr : p.tokens.next with
    | mk a s =>
      rw [hr] at closed spent
      match a with
      | .ok none =>
        refine hnone.along { p with tokens := s } closed fun hs => ?_
        obtain ⟨l, e, _⟩ := spent hs
        cases e
      | .ok (some l) =>
        refine hsome l { p with tokens := s.push l } (closed.push fun hs => ?_) rfl
        obtain ⟨l', e, hl'⟩ := spent hs
        cases e
        exact hl'
      | .error e => exact .inl rfl
  · change AtEnd t n (Parse.bind peek f p)
    unfold Parse.bind peek onTokens TokenStream.peek
    rw [hp.next]
    exact hnone.atEnd p hp

/-- Taking a token that has been looked at. -/
theorem alongAt_next {l : Lexeme} (hl : l.token ≠ .fixed .newline)
    (h : Along k t c (f (some l)) (g (some (l.shift k)))) :
    AlongAt k t l c (next >>= f) (next >>= g) := by
  rintro ⟨⟨rest, line, pushed⟩, noDo⟩ hc hp
  match pushed with
  | l' :: ls =>
    cases hp
    obtain ⟨_, closed, spent⟩ := TokenStream.inStep_next k hc fun hs => nomatch hs.pushed
    refine h ⟨⟨rest, line, ls⟩, noDo⟩ closed fun hs => ?_
    obtain ⟨l', e, hl'⟩ := spent hs
    cases e
    exact hl hl'

/-- Taking a token that may be the last one. -/
theorem alongAt_next_last {l : Lexeme} (h : Follows k t c c (f (some l)) (g (some (l.shift k)))) :
    AlongAt k t l c (next >>= f) (next >>= g) := by
  rintro ⟨⟨rest, line, pushed⟩, noDo⟩ hc hp
  match pushed with
  | l' :: ls =>
    cases hp
    obtain ⟨_, closed, _⟩ := TokenStream.inStep_next k hc fun hs => nomatch hs.pushed
    by_cases hs : Spent t ⟨rest, line, ls⟩
    · exact (h.atEnd ⟨⟨rest, line, ls⟩, noDo⟩ hs).agree hs.more _
    · exact h.along ⟨⟨rest, line, ls⟩, noDo⟩ closed hs

end

/-- Takes the next token if it passes a test. -/
def acceptIf (test : Lexeme → Bool) : Parse Bool := do
  if (← peek).any test then
    let _ ← next
    pure true
  else pure false

theorem accept_eq (f : Fixed) : accept f = acceptIf (·.token.isFixed f) := by
  unfold accept nextIs
  rw [bind_assoc]
  rfl

theorem acceptTouching_eq (f : Fixed) :
    acceptTouching f = acceptIf fun l => l.token.isFixed f && !l.spaced := by
  unfold acceptTouching nextTouches
  rw [bind_assoc]
  rfl

section
variable {F G : Bool → Parse β}

theorem acceptIf_bind (test : Lexeme → Bool) (F : Bool → Parse β) :
    acceptIf test >>= F =
      peek >>= fun l => if l.any test then next >>= fun _ => F true else F false := by
  unfold acceptIf
  rw [bind_assoc]
  congr 1
  funext l
  split
  · rw [bind_assoc]
    rfl
  · rfl

theorem follows_acceptIf {test : Lexeme → Bool} (ht : ∀ l, test (l.shift k) = test l)
    (hyes : ∀ l : Lexeme, test l = true →
      AlongAt k t l c (next >>= fun _ => F true) (next >>= fun _ => G true))
    (hno : Follows k t n c (F false) (G false)) :
    Follows k t n c (acceptIf test >>= F) (acceptIf test >>= G) := by
  rw [acceptIf_bind, acceptIf_bind]
  refine follows_peek hno fun l => ?_
  rw [Option.any_some, Option.any_some, ht]
  by_cases h : test l = true
  · rw [if_pos h, if_pos h]
    exact hyes l h
  · rw [if_neg h, if_neg h]
    exact hno.along.at l

theorem ne_newline_of_isFixed {f : Fixed} (hf : f ≠ .newline) {l : Lexeme}
    (h : l.token.isFixed f = true) : l.token ≠ .fixed .newline := by
  intro e
  rw [e, Token.isFixed, decide_eq_true_eq] at h
  exact hf h.symm

theorem follows_accept {f : Fixed} (hf : f ≠ .newline) (hyes : Along k t c (F true) (G true))
    (hno : Follows k t n c (F false) (G false)) :
    Follows k t n c (accept f >>= F) (accept f >>= G) := by
  rw [accept_eq]
  exact follows_acceptIf (fun _ => rfl)
    (fun l h => alongAt_next (ne_newline_of_isFixed hf h) hyes) hno

theorem follows_acceptTouching {f : Fixed} (hf : f ≠ .newline)
    (hyes : Along k t c (F true) (G true)) (hno : Follows k t n c (F false) (G false)) :
    Follows k t n c (acceptTouching f >>= F) (acceptTouching f >>= G) := by
  rw [acceptTouching_eq]
  refine follows_acceptIf (fun _ => rfl) (fun l h => ?_) hno
  rw [Bool.and_eq_true] at h
  exact alongAt_next (ne_newline_of_isFixed hf h.1) hyes

theorem follows_acceptNewline (hyes : Follows k t c c (F true) (G true))
    (hno : Follows k t n c (F false) (G false)) :
    Follows k t n c (accept .newline >>= F) (accept .newline >>= G) := by
  rw [accept_eq]
  exact follows_acceptIf (fun _ => rfl) (fun _ _ => alongAt_next_last hyes) hno

end

/-! ## Fixed tokens -/

theorem Follows.then_pure (h : Follows k t n c x y) (f : α → β) :
    Follows k t n c (x >>= fun a => pure (f a)) (y >>= fun a => pure (f a)) :=
  ⟨h.along.bind (fun a _ hc hs => agree_pure (f a) hc hs) fun hc _ _ hp => ⟨hc, hp⟩,
    fun p hp => (h.atEnd p hp).bind fun hn _ _ hq => ⟨hn, hq⟩⟩

theorem follows_expect {f : Fixed} (hf : f ≠ .newline) :
    Follows k t true true (expect f) (expect f) :=
  follows_accept hf (follows_pure ()).along (follows_lineHere fun line => follows_fail rfl line)

theorem follows_iterate {step step' : α → Parse (Option α)}
    (h : ∀ a, Follows k t n c (step a) (step' a)) {fuel : Nat} :
    ∀ {fuel' : Nat}, fuel ≤ fuel' → ∀ a,
      Follows k t n c (iterate step fuel a) (iterate step' fuel' a) := by
  induction fuel with
  | zero => exact fun _ _ => follows_unfinished
  | succ fuel ih =>
    intro fuel' hle a
    cases fuel' with
    | zero => exact absurd hle (Nat.not_succ_le_zero fuel)
    | succ fuel' =>
      have ih := ih (Nat.le_of_succ_le_succ hle)
      -- Within the text, at its end after a round that has used it up, and at its end at once.
      refine ⟨(h a).along.bind (fun b => ?_) fun hc b p hp => ?_,
        fun p hp => ((h a).atEnd p hp).bind fun hn b q hq => ?_⟩
      · cases b with
        | none => exact (follows_pure a).along
        | some b => exact (ih b).along
      · cases b with
        | none => exact ⟨hc, hp⟩
        | some b => rw [hc]; exact ((ih b).atEnd p hp).loose
      · cases b with
        | none => exact ⟨hn, hq⟩
        | some b => exact (ih b).atEnd q hq

theorem follows_collect {step step' : Parse (Option α)} (h : Follows k t n c step step')
    {fuel : Nat} : ∀ {fuel' : Nat}, fuel ≤ fuel' →
      Follows k t n c (collect step fuel) (collect step' fuel') := by
  induction fuel with
  | zero => exact fun _ => follows_unfinished
  | succ fuel ih =>
    intro fuel' hle
    cases fuel' with
    | zero => exact absurd hle (Nat.not_succ_le_zero fuel)
    | succ fuel' =>
      have ih := ih (Nat.le_of_succ_le_succ hle)
      refine ⟨h.along.bind (fun b => ?_) fun hc b p hp => ?_,
        fun p hp => (h.atEnd p hp).bind fun hn b q hq => ?_⟩
      · cases b with
        | none => exact (follows_pure []).along
        | some b => exact (ih.then_pure _).along
      · cases b with
        | none => exact ⟨hc, hp⟩
        | some b => rw [hc]; exact ((ih.then_pure _).atEnd p hp).loose
      · cases b with
        | none => exact ⟨hn, hq⟩
        | some b => exact (ih.then_pure _).atEnd q hq

/-! ## Ends of lines and separators -/

theorem bind_pure (x : Parse α) : x >>= pure = x := by
  funext p
  change Parse.bind x pure p = x p
  unfold Parse.bind
  cases x p <;> rfl

theorem follows_acceptSeparator {F G : Bool → Parse β} (hyes : Follows k t c c (F true) (G true))
    (hno : Follows k t n c (F false) (G false)) :
    Follows k t n c (acceptSeparator >>= F) (acceptSeparator >>= G) := by
  unfold acceptSeparator
  rw [bind_assoc, bind_assoc]
  exact follows_acceptNewline hyes (follows_accept (by decide) hyes.along hno)

variable {fuel fuel' : Nat}

theorem follows_skipNewlines (hle : fuel ≤ fuel') :
    Follows k t false false (skipNewlines fuel) (skipNewlines fuel') :=
  follows_iterate (fun _ => follows_acceptNewline (follows_pure _) (follows_pure _)) hle ()

theorem follows_skipSeparators (hle : fuel ≤ fuel') :
    Follows k t false false (skipSeparators fuel) (skipSeparators fuel') :=
  follows_iterate (fun _ => follows_acceptSeparator (follows_pure _) (follows_pure _)) hle ()

/-- Asking whether the next token passes a test. -/
theorem follows_nextPasses {test : Lexeme → Bool} (ht : ∀ l, test (l.shift k) = test l)
    {F G : Bool → Parse β} (hyes : Along k t c (F true) (G true))
    (hno : Follows k t n c (F false) (G false)) :
    Follows k t n c (peek >>= fun l => F (l.any test)) (peek >>= fun l => G (l.any test)) := by
  refine follows_peek hno fun l => Along.at ?_ l
  rw [Option.any_some, Option.any_some, ht]
  cases test l with
  | true => exact hyes
  | false => exact hno.along

theorem follows_nextIs {f : Fixed} {F G : Bool → Parse β} (hyes : Along k t c (F true) (G true))
    (hno : Follows k t n c (F false) (G false)) :
    Follows k t n c (nextIs f >>= F) (nextIs f >>= G) := by
  unfold nextIs
  rw [bind_assoc, bind_assoc]
  exact follows_nextPasses (fun _ => rfl) hyes hno

/-! ## Names and lists -/

theorem agree_fail {p : Parser} (fault : SyntaxFault) (line : Nat) :
    Agree k t c (fail fault line p : Parsed α) (fail fault (line + k) (p.shift k t)) :=
  .inl rfl

theorem follows_nameBy {name? : Token → Option String} (h : name? (.fixed .newline) = none) :
    Follows k t true true (nameBy name?) (nameBy name?) := by
  refine follows_lineHere fun line => follows_next (follows_fail rfl line) (fun l _ => ?_)
    fun l hl p _ => ?_
  · simp only [Lexeme.token_shift]
    cases name? l.token with
    | none => exact along_fail _ _
    | some n => exact (follows_pure n).along
  · simp only [Lexeme.token_shift, hl, h]
    exact agree_fail _ _

variable {item item' : Parse α}

theorem follows_commaThen (h : Along k t true item item') :
    Follows k t false true (commaThen item) (commaThen item') :=
  follows_accept (by decide) (h.bind_clear fun a => (follows_pure _).along) (follows_pure none)

theorem follows_separated (h : Follows k t true true item item') (hle : fuel ≤ fuel') :
    Follows k t true true (separated item fuel) (separated item' fuel') :=
  h.bind_solid fun _ => ((follows_collect (follows_commaThen h.along) hle).then_pure _).along

theorem follows_parameterList {closing : Fixed} (hc : closing ≠ .newline) (hle : fuel ≤ fuel') :
    Follows k t true true (parameterList closing fuel) (parameterList closing fuel') := by
  refine follows_accept hc (follows_pure []).along ?_
  refine (follows_separated (follows_nameBy rfl) hle).bind_solid fun names => ?_
  exact (follows_expect hc).along.bind_clear fun _ => (follows_pure names).along

theorem follows_items (closing : Fixed) (h : Follows k t true true item item') {lines lines' : Nat}
    (hl : lines ≤ lines') : ∀ {fuel fuel' : Nat}, fuel ≤ fuel' →
      Follows k t true false (items closing item lines fuel) (items closing item' lines' fuel')
  | 0, _, _ => follows_unfinished
  | fuel + 1, fuel' + 1, hle => by
    have rest := follows_items closing h hl (Nat.le_of_succ_le_succ hle)
    refine follows_nextIs (follows_pure []).along (h.bind_solid fun first => ?_)
    refine (follows_skipNewlines hl).along.bind_loose fun _ => ?_
    refine follows_accept (by decide) ?_ (follows_pure [first])
    exact (follows_skipNewlines hl).along.bind_loose fun _ => (rest.then_pure _).loose

theorem follows_delimited {closing : Fixed} (hc : closing ≠ .newline)
    (h : Follows k t true true item item') (hle : fuel ≤ fuel') :
    Follows k t true true (delimited closing item fuel) (delimited closing item' fuel') := by
  refine (follows_skipNewlines hle).bind_loose fun _ => ?_
  refine (follows_items closing h hle hle).bind_headed fun found => ?_
  exact (follows_expect hc).bind_solid fun _ => (follows_pure found).along

end

end Parse

end ObjectLang
