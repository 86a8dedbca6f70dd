import ObjectLang.Proofs.Parse.Related
import ObjectLang.Proofs.Parse.Takes

/-!
# The restriction on `do`

A step that gives a value without the restriction gives the same one under it, unless the
restriction keeps it from taking a block. A soft step then stops in front of the `do` of that block,
and a firm one fails there: it expects the end of a command.
-/

namespace ObjectLang

open Parse Grammar

/-! ## Tokens ahead -/

namespace TokenStream

/-- The stream still gives the lexeme. -/
inductive Ahead (l : Lexeme) : TokenStream → Prop where
  | here {s s' : TokenStream} : s.next = (.ok (some l), s') → Ahead l s
  | later {s s' : TokenStream} {m : Lexeme} : s.next = (.ok (some m), s') → Ahead l s' → Ahead l s

variable {l m : Lexeme} {s s' : TokenStream}

theorem not_ahead_end (h : s.next = (.ok none, s')) : ¬Ahead l s' := by
  have again := next_again h
  intro ahead
  cases ahead with
  | here h => rw [again] at h; cases h
  | later h _ => rw [again] at h; cases h

theorem Ahead.of_push (h : Ahead l (s'.push m)) (hs : s.next = (.ok (some m), s')) : Ahead l s := by
  cases h with
  | here h => cases h; exact .here hs
  | later h ahead => cases h; exact .later hs ahead

end TokenStream

open TokenStream (Ahead not_ahead_end)

namespace Parse

variable {α β : Type}

/-! ## Runs with and without the restriction -/

/-- What a run under the restriction can come to, when one without it has given `a` and left `q`. -/
def Outcome (g : Grade) (s : TokenStream) (a : α) (q : Parser) : Parsed α → Prop
  | .ok a' q' => (a' = a ∧ q' = { q with noDo := true }) ∨
      (g = .soft ∧ ∃ l, Ahead l s ∧ Barred l q')
  | .error e _ => ∃ l : Lexeme, Ahead l s ∧ l.token = .fixed .doWord ∧
      e = ⟨.endOfCommandExpected, l.line⟩
  | .unfinished => True

/-- `y` does what `x` does, and restricts it at most by a `do`. -/
structure Restrains (g : Grade) (x y : Parse α) : Prop where
  same : ∀ {p a q}, x p = .ok a q → y p = .ok a q
  setting : ∀ {p a q}, x p = .ok a q → q.noDo = p.noDo
  within : ∀ {p a q l}, x p = .ok a q → Ahead l q.tokens → Ahead l p.tokens
  along : g ≠ .free → ∀ {s a q}, x ⟨s, false⟩ = .ok a q → Outcome g s a q (y ⟨s, true⟩)

section
variable {g : Grade} {x y : Parse α} {f f' : α → Parse β} {s s' : TokenStream} {a : α}
  {p q : Parser} {o : Parsed α}

theorem Outcome.mono (h : ∀ l, Ahead l s' → Ahead l s) (ho : Outcome g s' a q o) :
    Outcome g s a q o := by
  cases o with
  | ok a' q' => exact ho.imp_right fun ⟨hg, l, ahead, barred⟩ => ⟨hg, l, h l ahead, barred⟩
  | error e q' =>
    obtain ⟨l, ahead, rest⟩ := ho
    exact ⟨l, h l ahead, rest⟩
  | unfinished => trivial

theorem Outcome.weaken (ho : Outcome .firm s a q o) : Outcome g s a q o := by
  cases o with
  | ok a' q' => exact ho.imp_right fun h => absurd h.1 (by decide)
  | error e q' => exact ho
  | unfinished => trivial

theorem Restrains.open (h : Restrains g x y) : Restrains .free x y :=
  ⟨h.same, h.setting, h.within, fun no => absurd rfl no⟩

theorem restrains_bind_free (hx : Restrains .free x y) (hf : ∀ a, Restrains .free (f a) (f' a)) :
    Restrains .free (x >>= f) (y >>= f') := by
  refine ⟨fun h => ?_, fun h => ?_, fun h ahead => ?_, fun no => absurd rfl no⟩
  all_goals obtain ⟨a, u, hu, h⟩ := exists_of_bind_ok h
  · rw [bind_ok (hx.same hu)]
    exact (hf a).same h
  · rw [(hf a).setting h, hx.setting hu]
  · exact hx.within hu ((hf a).within h ahead)

/-- What comes behind a step, when the step has not come to the same end in both runs. -/
theorem restrains_bind {g' : Grade} (hx : Restrains g' x y) (hx' : g' ≠ .free)
    (hf : ∀ a, Restrains g (f a) (f' a))
    (barred : g' = .soft → ∀ a l s q b u, Ahead l s → Barred l q → Outcome g s b u (f' a q)) :
    Restrains g (x >>= f) (y >>= f') := by
  have both := restrains_bind_free hx.open fun a => (hf a).open
  refine ⟨both.same, both.setting, both.within, fun hg s b q h => ?_⟩
  obtain ⟨a, u, hu, h⟩ := exists_of_bind_ok h
  have first := hx.along hx' hu
  cases hy : y ⟨s, true⟩ with
  | ok a' u' =>
    rw [hy] at first
    rw [bind_ok hy]
    rcases first with ⟨rfl, rfl⟩ | ⟨soft, l, ahead, stopped⟩
    · obtain ⟨tokens, noDo⟩ := u
      obtain rfl : noDo = false := hx.setting hu
      exact ((hf a').along hg h).mono fun l => hx.within hu
    · exact barred soft a' l s u' b q ahead stopped
  | error e u' =>
    rw [hy] at first
    rw [bind_error hy]
    exact first
  | unfinished =>
    rw [bind_unfinished hy]
    trivial

/-- A step that does not look at the restriction. -/
theorem restrains_of_tokens (h : ∀ s, (∃ a s', (∀ noDo, x ⟨s, noDo⟩ = .ok a ⟨s', noDo⟩) ∧
    ∀ l, Ahead l s' → Ahead l s) ∨ ∀ noDo a q, x ⟨s, noDo⟩ ≠ .ok a q) : Restrains .firm x x := by
  refine ⟨fun h => h, ?_, ?_, ?_⟩
  · rintro ⟨s, noDo⟩ a q hx
    rcases h s with ⟨b, s', e, _⟩ | no
    · rw [e] at hx
      cases hx
      rfl
    · exact absurd hx (no noDo a q)
  · rintro ⟨s, noDo⟩ a q l hx ahead
    rcases h s with ⟨b, s', e, within⟩ | no
    · rw [e] at hx
      cases hx
      exact within l ahead
    · exact absurd hx (no noDo a q)
  · rintro - s a q hx
    rcases h s with ⟨b, s', e, _⟩ | no
    · rw [e] at hx
      cases hx
      rw [e]
      exact .inl ⟨rfl, rfl⟩
    · exact absurd hx (no false a q)

theorem restrains_pure (a : α) : Restrains g (pure a) (pure a) :=
  ⟨fun h => h, fun h => by cases h; rfl, fun h ahead => by cases h; exact ahead,
    fun _ _ _ _ h => by cases h; exact .inl ⟨rfl, rfl⟩⟩

theorem restrains_void (h : Void x) : Restrains g x y :=
  ⟨fun e => absurd e (h _ _ _), fun e => absurd e (h _ _ _), fun e => absurd e (h _ _ _),
    fun _ _ _ _ e => absurd e (h _ _ _)⟩

theorem restrains_lineHere : Restrains .firm lineHere lineHere :=
  restrains_of_tokens fun s => .inl ⟨s.lineHere, s, fun _ => rfl, fun _ h => h⟩

theorem restrains_next : Restrains .firm next next := by
  refine restrains_of_tokens fun s => ?_
  cases h : s.next with
  | mk a s' =>
    match a with
    | .ok none =>
      exact .inl ⟨none, s', fun noDo => next_end (p := ⟨s, noDo⟩) h,
        fun l ahead => absurd ahead (not_ahead_end h)⟩
    | .ok (some l) =>
      exact .inl ⟨some l, s', fun noDo => next_token (p := ⟨s, noDo⟩) h, fun _ => .later h⟩
    | .error e =>
      refine .inr fun noDo a q ok => ?_
      rw [next_error (p := ⟨s, noDo⟩) h] at ok
      cases ok

theorem restrains_peek : Restrains .firm peek peek := by
  refine restrains_of_tokens fun s => ?_
  cases h : s.next with
  | mk a s' =>
    match a with
    | .ok none =>
      exact .inl ⟨none, s', fun noDo => peek_end (p := ⟨s, noDo⟩) h,
        fun l ahead => absurd ahead (not_ahead_end h)⟩
    | .ok (some l) =>
      exact .inl ⟨some l, s'.push l, fun noDo => peek_token (p := ⟨s, noDo⟩) h,
        fun _ ahead => ahead.of_push h⟩
    | .error e =>
      refine .inr fun noDo a q ok => ?_
      rw [peek_error (p := ⟨s, noDo⟩) h] at ok
      cases ok

theorem restrains_endOfCommand : Restrains .firm endOfCommand endOfCommand := by
  refine restrains_of_tokens fun s => ?_
  cases h : s.next with
  | mk a s' =>
    match a with
    | .ok none =>
      exact .inl ⟨(), s', fun noDo => bind_ok (next_end (p := ⟨s, noDo⟩) h),
        fun l ahead => absurd ahead (not_ahead_end h)⟩
    | .ok (some l) =>
      have token := fun noDo => endOfCommand_token (p := ⟨s, noDo⟩) h
      by_cases closes : l.token.closesBody = true
      · simp only [closes, if_true] at token
        exact .inl ⟨(), s'.push l, token, fun _ ahead => ahead.of_push h⟩
      by_cases ends : separates l.token = true
      · simp only [closes, ends, if_true] at token
        exact .inl ⟨(), s', token, fun _ => .later h⟩
      · simp only [closes, ends] at token
        exact .inr fun noDo a q ok => by rw [token] at ok; cases ok
    | .error e =>
      refine .inr fun noDo a q ok => ?_
      rw [endOfCommand, bind_error (next_error (p := ⟨s, noDo⟩) h)] at ok
      cases ok

theorem restrains_bind_firm (hx : Restrains .firm x y) (hf : ∀ a, Restrains g (f a) (f' a)) :
    Restrains g (x >>= f) (y >>= f') :=
  restrains_bind hx (by decide) hf nofun

theorem restrains_accept (t : Fixed) : Restrains .firm (accept t) (accept t) := by
  rw [← bind_pure (accept t), accept_next]
  refine restrains_bind_firm restrains_peek fun l => ?_
  split
  · exact restrains_bind_firm restrains_next fun _ => restrains_pure true
  · exact restrains_pure false

theorem restrains_restricted (noDo : Bool) (h : Restrains .free x y) :
    Restrains .firm (restricted noDo x) (restricted noDo y) := by
  refine ⟨fun hx => ?_, fun hx => ?_, fun hx ahead => ?_, fun _ s a q hx => ?_⟩
  all_goals obtain ⟨u, hu, rfl⟩ := exists_of_restricted_ok hx
  · exact restricted_ok (h.same hu)
  · rfl
  · have inside := h.within hu ahead
    exact inside
  · rw [restricted_ok (p := ⟨s, true⟩) (h.same hu)]
    exact .inl ⟨rfl, rfl⟩

/-! ## Blocks -/

section
variable {r : Nested} {fuel : Nat}

theorem peek_under {l : Option Lexeme} {noDo : Bool} (h : peek ⟨s, noDo⟩ = .ok l ⟨s', noDo⟩)
    (noDo' : Bool) : peek ⟨s, noDo'⟩ = .ok l ⟨s', noDo'⟩ := by
  unfold peek onTokens at h ⊢
  dsimp only at h ⊢
  cases hp : s.peek with
  | mk answer s'' =>
    rw [hp] at h
    cases answer with
    | ok l' => cases h; rfl
    | error e => cases h

theorem ahead_of_peek {l : Lexeme} (h : peek p = .ok (some l) q) : Ahead l p.tokens := by
  obtain ⟨u, rest⟩ := (faces_of_peek h).exists_push
  exact restrains_peek.within h (rest ▸ .here rfl)

theorem restrains_blockTrailer
    (hend : Restrains .firm (blockBody r .endWord fuel) (blockBody r .endWord fuel))
    (hbrace : Restrains .firm (braceBlock r fuel) (braceBlock r fuel)) :
    Restrains .soft (blockTrailer r fuel) (blockTrailer r fuel) := by
  have block : ∀ b, Restrains .firm (doBlock r fuel b) (doBlock r fuel b) := by
    rintro (_ | _)
    · exact hbrace
    · exact restrains_bind_firm hend fun b => restrains_pure (some b)
  have allowed : Restrains .free doAllowed doAllowed :=
    ⟨fun h => h, fun h => by cases h; rfl, fun h ahead => by cases h; exact ahead,
      fun no => absurd rfl no⟩
  have unrestricted : Restrains .free (blockTrailer r fuel) (blockTrailer r fuel) := by
    rw [blockTrailer_eq]
    refine restrains_bind_free allowed fun b => ?_
    cases b with
    | true => exact (restrains_bind_firm (restrains_accept .doWord) block).open
    | false => exact hbrace.open
  refine ⟨unrestricted.same, unrestricted.setting, unrestricted.within, fun _ s a q h => ?_⟩
  have unbarred : (accept .doWord >>= doBlock r fuel) ⟨s, false⟩ = .ok a q := by
    rw [blockTrailer_eq] at h
    exact h
  have barred : blockTrailer r fuel ⟨s, true⟩ = braceBlock r fuel ⟨s, true⟩ := by
    rw [blockTrailer_eq]
    rfl
  rw [barred]
  rw [accept_next] at unbarred
  obtain ⟨l, u, hl, rest⟩ := exists_of_bind_ok unbarred
  obtain ⟨tokens, noDo⟩ := u
  obtain rfl : noDo = false := restrains_peek.setting hl
  -- Under the restriction the same token is looked at.
  have looked := peek_under hl true
  rw [braceBlock_peek looked]
  cases doNext : l.any (·.token.isFixed .doWord) with
  | true =>
    obtain ⟨d, rfl, hd⟩ := (Option.any_eq_true _ _).mp doNext
    have stops : Barred d ⟨tokens, true⟩ := ⟨rfl, eq_of_isFixed hd, faces_of_peek looked⟩
    have nothing : braceBlock r fuel ⟨tokens, true⟩ = .ok none ⟨tokens, true⟩ :=
      stops.passes (by decide) _
    rw [nothing]
    exact .inr ⟨rfl, d, ahead_of_peek hl, stops⟩
  | false =>
    rw [doNext] at rest
    exact ((hbrace.along (by decide) rest).mono fun l => restrains_peek.within hl).weaken

end

/-- Every rule of the grammar is restrained by the restriction at most. -/
theorem restrains_congruence : Congruence (fun _ _ => True) fun g {_} x y => Restrains g x y where
  soften h := ⟨h.same, h.setting, h.within, fun _ _ _ _ e => (h.along (by decide) e).weaken⟩
  free h := h.open
  unfinished := restrains_void void_unfinished
  fail fault line _ _ := restrains_void (void_fail fault line)
  fail_after fault line _ _ _ := restrains_void (Void.after fun _ => void_fail fault line)
  pure a := restrains_pure a
  bind hx hf := restrains_bind_firm hx hf
  bind_free hx hf := restrains_bind_free hx hf
  bind_rests hx hf rests := by
    refine restrains_bind hx nofun hf fun _ a l s q b u ahead stopped => ?_
    rcases rests a l q stopped with ⟨b', e⟩ | e
    · rw [e]
      exact .inr ⟨rfl, l, ahead, stopped⟩
    · rw [e]
      trivial
  bind_breaks hx hf breaks := by
    refine restrains_bind hx nofun hf fun _ a l s q b u ahead stopped => ?_
    rcases breaks a l q stopped with ⟨u', e⟩ | e
    · rw [e]
      exact ⟨l, ahead, stopped.token, rfl⟩
    · rw [e]
      trivial
  lineHere _ _ h := restrains_bind_firm restrains_lineHere fun line => h line line trivial
  restricted noDo h := restrains_restricted noDo h
  next hnone hsome := restrains_bind_firm restrains_next fun l => match l with
    | none => hnone
    | some l => hsome l l (.refl l) trivial
  look e e' hnone hsome _ := restrains_bind_firm restrains_peek fun l => match l with
    | none => by
      rw [e, e']
      exact restrains_bind_firm restrains_lineHere fun line => hnone line line trivial
    | some l => hsome l l (.refl l) trivial
  acceptNewline := restrains_accept .newline
  endOfCommand := restrains_endOfCommand
  blockTrailer := restrains_blockTrailer

end

end Parse

end ObjectLang
