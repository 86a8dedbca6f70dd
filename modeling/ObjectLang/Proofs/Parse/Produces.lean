import ObjectLang.Proofs.Parse.Follows
import ObjectLang.Proofs.Token.Tiles
import ObjectLang.Proofs.Token.Writing

/-!
# What parsing steps give

A property of the values that a step gives, whatever text it reads. All that is known of the text
is that each token has the text of its kind.
-/

namespace ObjectLang

open Scan

/-! ## Tokens that were read -/

/-- The token is written in some text. -/
def Token.Written (t : Token) : Prop :=
  ∃ w, t.HasText w

theorem Token.Written.name {s : String} (h : Token.Written (.name s)) : IsName s := by
  obtain ⟨w, hw, rfl, no⟩ := h
  refine ⟨mem_identifiers.mp hw, ?_⟩
  cases hl : Fixed.keywords.lookup s with
  | none => rfl
  | some f =>
    refine absurd ?_ (no f)
    show String.ofList s.toList ∈ f.spellings
    rw [String.ofList_toList]
    exact mem_spellings_of_lookup hl

theorem Token.Written.integer {n : Int64} (h : Token.Written (.integer n)) : 0 ≤ n.toInt := by
  obtain ⟨w, _, e⟩ := h
  rw [e]
  exact Int.natCast_nonneg _

theorem Token.Written.methodName {t : Token} (h : t.Written) {n : String}
    (hn : t.methodName? = some n) : IsMethodName n := by
  cases t with
  | name s =>
    obtain rfl := Option.some.inj hn
    have named := h.name
    refine ⟨named.1, fun e => ?_⟩
    rw [e] at named
    exact absurd named.2 (by decide)
  | fixed f =>
    rw [Token.methodName?] at hn
    split at hn
    · next keyword =>
      obtain rfl := Option.some.inj hn
      cases f <;> first | exact absurd keyword (by decide) | exact ⟨by decide, by decide⟩
    · cases hn
  | _ => cases hn

namespace TokenStream

/-- The tokens that were put back are written somewhere. -/
def Lexed (s : TokenStream) : Prop :=
  ∀ l ∈ s.pushed, l.token.Written

theorem read_written {s s' : TokenStream} {l : Lexeme} (h : s.read = (.ok (some l), s')) :
    l.token.Written := by
  obtain ⟨_, _, _, here⟩ := skip_gap s.line false s.rest
  cases hr : (skip s.line false s.rest).rest with
  | nil =>
    rw [read_end hr] at h
    cases h
  | cons c r =>
    rw [hr] at here
    obtain ⟨w, _, covers⟩ := itemAt_covers here
    rw [read_item hr] at h
    cases hi : (itemAt c r).1 with
    | fault f =>
      rw [hi] at h
      cases h
    | token t =>
      rw [hi] at h covers
      cases h
      exact ⟨w, covers.2⟩

theorem pushed_read (s : TokenStream) : s.read.2.pushed = s.pushed := by
  cases hr : (skip s.line false s.rest).rest with
  | nil => rw [read_end hr]
  | cons c r => rw [read_item hr]

theorem Lexed.next {s s' : TokenStream} {a : Answer} (h : s.Lexed) (e : s.next = (a, s')) :
    s'.Lexed ∧ ∀ l, a = .ok (some l) → l.token.Written := by
  unfold TokenStream.next at e
  split at e
  · next l ls hp =>
    cases e
    unfold Lexed at h
    rw [hp] at h
    refine ⟨fun l hl => h l (List.mem_cons_of_mem _ hl), fun l' e => ?_⟩
    cases e
    exact h l List.mem_cons_self
  · next hp =>
    refine ⟨fun l hl => ?_, fun l ha => read_written (e.trans (by rw [ha]))⟩
    have same := pushed_read s
    rw [e, hp] at same
    rw [same] at hl
    cases hl

theorem Lexed.push {s : TokenStream} (h : s.Lexed) {l : Lexeme} (hl : l.token.Written) :
    (s.push l).Lexed :=
  List.forall_mem_cons.mpr ⟨hl, h⟩

end TokenStream

namespace Parse

variable {α β : Type}

/-- Where the step gives a value, the value has the property. -/
def Produces (P : α → Prop) (x : Parse α) : Prop :=
  ∀ p : Parser, p.tokens.Lexed → ∀ a q, x p = .ok a q → P a ∧ q.tokens.Lexed

/-- Nothing is known of the value. -/
abbrev Steps (x : Parse α) : Prop :=
  Produces (fun _ => True) x

section
variable {P : α → Prop} {Q : β → Prop} {x : Parse α} {f : α → Parse β}

/-! ## Steps in sequence -/

theorem Produces.weaken {P' : α → Prop} (h : Produces P x) (hp : ∀ a, P a → P' a) :
    Produces P' x :=
  fun p hl a q e => ⟨hp a (h p hl a q e).1, (h p hl a q e).2⟩

theorem Produces.steps (h : Produces P x) : Steps x :=
  h.weaken fun _ _ => trivial

theorem produces_pure {a : α} (h : P a) : Produces P (pure a) := by
  rintro p hl _ _ e
  cases e
  exact ⟨h, hl⟩

theorem produces_fail (fault : SyntaxFault) (line : Nat) : Produces P (fail fault line) :=
  fun _ _ _ _ e => nomatch e

theorem produces_unfinished : Produces P (unfinished : Parse α) :=
  fun _ _ _ _ e => nomatch e

theorem Produces.bind (hx : Produces P x) (hf : ∀ a, P a → Produces Q (f a)) :
    Produces Q (x >>= f) := by
  intro p hl b r e
  change Parse.bind x f p = _ at e
  unfold Parse.bind at e
  cases hxp : x p with
  | ok a q =>
    rw [hxp] at e
    obtain ⟨ha, hq⟩ := hx p hl a q hxp
    exact hf a ha q hq b r e
  | error e' q =>
    rw [hxp] at e
    cases e
  | unfinished =>
    rw [hxp] at e
    cases e

/-- The value goes on into the next one and keeps its property there. -/
theorem Produces.map {g : α → β} (hx : Produces P x) (hg : ∀ a, P a → Q (g a)) :
    Produces Q (do let a ← x; pure (g a)) :=
  hx.bind fun a ha => produces_pure (hg a ha)

theorem Steps.then (hx : Steps x) (hf : ∀ a, Produces Q (f a)) : Produces Q (x >>= f) :=
  hx.bind fun a _ => hf a

theorem produces_ite {c : Prop} [Decidable c] {y z : Parse α} (hy : Produces P y)
    (hz : Produces P z) : Produces P (if c then y else z) := by
  split
  · exact hy
  · exact hz

theorem produces_restricted (noDo : Bool) (h : Produces P x) : Produces P (restricted noDo x) := by
  intro p hl a q e
  unfold restricted at e
  cases hx : x { p with noDo := noDo } with
  | ok a' q' =>
    rw [hx] at e
    cases e
    exact h { p with noDo := noDo } hl _ q' hx
  | error e' q' =>
    rw [hx] at e
    cases e
  | unfinished =>
    rw [hx] at e
    cases e

/-! ## Single tokens -/

theorem steps_lineHere : Steps lineHere := by
  rintro p hl _ _ e
  cases e
  exact ⟨trivial, hl⟩

theorem steps_doAllowed : Steps doAllowed := by
  rintro p hl _ _ e
  cases e
  exact ⟨trivial, hl⟩

theorem produces_next : Produces (fun l => ∀ x ∈ l, x.token.Written) next := by
  intro p hl a q e
  unfold next onTokens at e
  cases hn : p.tokens.next with
  | mk answer s =>
    obtain ⟨hs, written⟩ := hl.next hn
    rw [hn] at e
    match answer, e with
    | .ok a, e =>
      cases e
      exact ⟨fun x hx => written x (congrArg Except.ok hx), hs⟩

theorem produces_peek : Produces (fun l => ∀ x ∈ l, x.token.Written) peek := by
  intro p hl a q e
  unfold peek onTokens TokenStream.peek at e
  cases hn : p.tokens.next with
  | mk answer s =>
    obtain ⟨hs, written⟩ := hl.next hn
    rw [hn] at e
    match answer, e with
    | .ok none, e =>
      cases e
      exact ⟨nofun, hs⟩
    | .ok (some l), e =>
      cases e
      exact ⟨fun x hx => Option.some.inj hx ▸ written l rfl, hs.push (written l rfl)⟩

theorem steps_push {l : Lexeme} (h : l.token.Written) : Steps (push l) := by
  rintro p hl _ _ e
  cases e
  exact ⟨trivial, hl.push h⟩

theorem steps_nextPasses (test : Lexeme → Bool) : Steps (do return (← peek).any test) :=
  produces_peek.map fun _ _ => trivial

theorem steps_nextIs (f : Fixed) : Steps (nextIs f) :=
  steps_nextPasses _

theorem steps_acceptIf (test : Lexeme → Bool) : Steps (acceptIf test) :=
  produces_peek.steps.then fun _ =>
    produces_ite (produces_next.map fun _ _ => trivial) (produces_pure trivial)

theorem steps_accept (f : Fixed) : Steps (accept f) := by
  rw [accept_eq]
  exact steps_acceptIf _

theorem steps_acceptTouching (f : Fixed) : Steps (acceptTouching f) := by
  rw [acceptTouching_eq]
  exact steps_acceptIf _

theorem steps_expect (f : Fixed) : Steps (expect f) :=
  (steps_accept f).then fun _ => produces_ite (produces_pure trivial) <|
    steps_lineHere.then fun line => produces_fail _ line

theorem steps_acceptSeparator : Steps acceptSeparator :=
  (steps_accept .newline).then fun _ =>
    produces_ite (produces_pure trivial) (steps_accept .semicolon)

/-! ## Repetition -/

theorem produces_iterate {step : α → Parse (Option α)}
    (h : ∀ a, P a → Produces (fun b => ∀ x ∈ b, P x) (step a)) :
    ∀ (fuel : Nat) {a : α}, P a → Produces P (iterate step fuel a)
  | 0, _, _ => produces_unfinished
  | fuel + 1, a, ha => by
    refine (h a ha).bind fun b hb => ?_
    cases b with
    | none => exact produces_pure ha
    | some b => exact produces_iterate h fuel (hb b rfl)

theorem produces_collect {step : Parse (Option α)} (h : Produces (fun b => ∀ x ∈ b, P x) step) :
    ∀ fuel, Produces (fun l => ∀ x ∈ l, P x) (collect step fuel)
  | 0 => produces_unfinished
  | fuel + 1 => by
    refine h.bind fun b hb => ?_
    cases b with
    | none => exact produces_pure nofun
    | some b =>
      exact (produces_collect h fuel).map fun rest hr => List.forall_mem_cons.mpr ⟨hb b rfl, hr⟩

theorem steps_skipNewlines (fuel : Nat) : Steps (skipNewlines fuel) :=
  produces_iterate (fun _ _ => (steps_accept .newline).then fun _ =>
    produces_ite (produces_pure fun _ _ => trivial) (produces_pure nofun)) fuel trivial

theorem steps_skipSeparators (fuel : Nat) : Steps (skipSeparators fuel) :=
  produces_iterate (fun _ _ => steps_acceptSeparator.then fun _ =>
    produces_ite (produces_pure fun _ _ => trivial) (produces_pure nofun)) fuel trivial

/-! ## Names and lists -/

theorem produces_nameBy {name? : Token → Option String} {N : String → Prop}
    (h : ∀ t : Token, t.Written → ∀ n, name? t = some n → N n) : Produces N (nameBy name?) := by
  refine steps_lineHere.then fun line => produces_next.bind fun l hl => ?_
  cases l with
  | none => exact produces_fail _ line
  | some l =>
    simp only
    cases hn : name? l.token with
    | none => exact produces_fail _ _
    | some n => exact produces_pure (h l.token (hl l rfl) n hn)

theorem produces_methodName : Produces IsMethodName methodName :=
  produces_nameBy fun _ ht _ hn => ht.methodName hn

theorem produces_identifier : Produces IsName identifier := by
  refine produces_nameBy fun t ht n hn => ?_
  cases t with
  | name s =>
    cases hn
    exact ht.name
  | _ => cases hn

theorem produces_commaThen (h : Produces P x) :
    Produces (fun b => ∀ a ∈ b, P a) (commaThen x) :=
  (steps_accept .comma).then fun _ => produces_ite
    (h.map fun _ ha _ hb => Option.some.inj hb ▸ ha) (produces_pure nofun)

theorem produces_separated (h : Produces P x) (fuel : Nat) :
    Produces (fun l => ∀ a ∈ l, P a) (separated x fuel) :=
  h.bind fun _ ha => (produces_collect (produces_commaThen h) fuel).map fun _ hr =>
    List.forall_mem_cons.mpr ⟨ha, hr⟩

theorem produces_parameterList (closing : Fixed) (fuel : Nat) :
    Produces (fun l => ∀ n ∈ l, IsName n) (parameterList closing fuel) :=
  (steps_accept closing).then fun _ => produces_ite (produces_pure nofun) <|
    (produces_separated produces_identifier fuel).bind fun _ hn =>
      (steps_expect closing).then fun _ => produces_pure hn

theorem produces_items (closing : Fixed) (lines : Nat) (h : Produces P x) :
    ∀ fuel, Produces (fun l => ∀ a ∈ l, P a) (items closing x lines fuel)
  | 0 => produces_unfinished
  | fuel + 1 =>
    (steps_nextIs closing).then fun _ => produces_ite (produces_pure nofun) <|
      h.bind fun _ ha => (steps_skipNewlines lines).then fun _ =>
        (steps_accept .comma).then fun _ => produces_ite
          ((steps_skipNewlines lines).then fun _ => (produces_items closing lines h fuel).map
            fun _ hr => List.forall_mem_cons.mpr ⟨ha, hr⟩)
          (produces_pure (List.forall_mem_singleton.mpr ha))

theorem produces_delimited (closing : Fixed) (h : Produces P x) (fuel : Nat) :
    Produces (fun l => ∀ a ∈ l, P a) (delimited closing x fuel) :=
  (steps_skipNewlines fuel).then fun _ => (produces_items closing fuel h fuel).bind fun _ hf =>
    (steps_expect closing).then fun _ => produces_pure hf

end
end Parse
end ObjectLang
