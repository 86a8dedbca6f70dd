import ObjectLang.Proofs.Token.Spelling
import ObjectLang.Token.Stream

/-!
# Text behind the end of a line

No token but the end of a line goes beyond its line. So where a text ends with the end of a
line, its tokens are the same whatever text follows, and come on the same lines. And no token goes
on into the end of a line or a comment.
-/

namespace ObjectLang

open Scan

/-! ## Runs of characters -/

/-- The characters at the front of `l` with the property `p` do not go on into `t`. -/
def Ceases (p : Char → Bool) (l t : List Char) : Prop :=
  (∃ x ∈ l, p x = false) ∨ ∀ x ∈ t.head?, p x = false

section
variable {p : Char → Bool} {x : Char} {t : List Char}

theorem Ceases.front (h : Ceases p [] t) : ∀ x ∈ t.head?, p x = false :=
  h.resolve_left nofun

theorem Ceases.tail {c : Char} {l : List Char} (h : Ceases p (c :: l) t) (hc : p c = true) :
    Ceases p l t := by
  refine h.imp_left fun ⟨x, mem, hx⟩ => ⟨x, (List.mem_cons.mp mem).resolve_left fun e => ?_, hx⟩
  rw [e, hc] at hx
  cases hx

theorem takeWhile_append : ∀ {l : List Char}, Ceases p l t → (l ++ t).takeWhile p = l.takeWhile p
  | [], h => takeWhile_run (w := []) nofun h.front
  | c :: l, h => by
    rw [List.cons_append, List.takeWhile_cons, List.takeWhile_cons]
    split
    · next hc => rw [takeWhile_append (h.tail hc)]
    · rfl

theorem dropWhile_append : ∀ {l : List Char}, Ceases p l t →
    (l ++ t).dropWhile p = l.dropWhile p ++ t
  | [], h => dropWhile_run (w := []) nofun h.front
  | c :: l, h => by
    rw [List.cons_append, List.dropWhile_cons, List.dropWhile_cons]
    split
    · next hc => exact dropWhile_append (h.tail hc)
    · rfl

theorem not_mem_takeWhile (hp : p x = false) (l : List Char) : x ∉ l.takeWhile p := by
  intro h
  have := List.all_eq_true.mp (List.all_takeWhile (p := p) (l := l)) x h
  rw [hp] at this
  cases this

theorem mem_dropWhile (hp : p x = false) {l : List Char} (h : x ∈ l) : x ∈ l.dropWhile p := by
  rw [← List.takeWhile_append_dropWhile (p := p) (l := l)] at h
  exact (List.mem_append.mp h).resolve_left (not_mem_takeWhile hp l)

theorem front_dropWhile_line (l : List Char) :
    ∀ c ∈ (l.dropWhile fun c => decide (c ≠ '\n')).head?, c = '\n' := by
  intro c hc
  have no := List.head?_dropWhile_not (fun c => decide (c ≠ '\n')) l
  rw [hc] at no
  exact Decidable.of_not_not (of_decide_eq_false no)

end

/-! ## Where a token ends -/

def isFence (c : Char) : Bool := c = '\n' || c = '\r' || c = '#'

/-- Nothing follows but the end of a line, in front of which a carriage return may stand, or a
comment. -/
def Fence (t : List Char) : Prop :=
  ∀ c ∈ t.head?, isFence c = true

/-- No token that begins in `l` goes on into `t`, but for a string. -/
def Bounded (l t : List Char) : Prop := '\n' ∈ l ∨ Fence t

section
variable {p : Char → Bool} {c : Char} {l t : List Char}

theorem isFence_iff : isFence c = true ↔ c = '\n' ∨ c = '\r' ∨ c = '#' := by
  simp only [isFence, Bool.or_eq_true, decide_eq_true_eq, or_assoc]

theorem isDigit_fence (h : isFence c = true) : c.isDigit = false := by
  rcases isFence_iff.mp h with rfl | rfl | rfl <;> rfl

theorem isIdentRest_fence (h : isFence c = true) : isIdentRest c = false := by
  rcases isFence_iff.mp h with rfl | rfl | rfl <;> rfl

theorem Bounded.tail (h : Bounded (c :: l) t) (hc : c ≠ '\n') : Bounded l t :=
  h.imp_left fun mem => (List.mem_cons.mp mem).resolve_left hc.symm

theorem Bounded.front (h : Bounded [] t) : Fence t :=
  h.resolve_left List.not_mem_nil

theorem Bounded.stops (h : Bounded l t) (hp : ∀ {c}, isFence c = true → p c = false) :
    Ceases p l t :=
  h.imp (fun mem => ⟨'\n', mem, hp rfl⟩) fun fence c hc => hp (fence c hc)

end

/-! ## Items -/

section
variable {c : Char} {l r t : List Char}

theorem identifier?_bounded (h : Bounded l t) :
    identifier? (l ++ t) = (identifier? l).map fun found => (found.1, found.2 ++ t) := by
  match l, t, h with
  | [], [], _ => rfl
  | [], d :: t, h =>
    have start : isIdentStart d = false := by
      rcases isFence_iff.mp (h.front d rfl) with rfl | rfl | rfl <;> rfl
    change identifier? (d :: t) = none
    rw [identifier?, start]
    rfl
  | c :: l, t, h =>
    rw [List.cons_append, identifier?, identifier?]
    split
    · next hc =>
      have stops := h.stops isIdentRest_fence |>.tail (isIdentRest_of_start hc)
      rw [takeWhile_append stops, dropWhile_append stops]
      rfl
    · rfl

theorem number_bounded (h : Bounded l t) : number (l ++ t) = ((number l).1, (number l).2 ++ t) := by
  have behind : Bounded (l.dropWhile Char.isDigit) t := h.imp_left (mem_dropWhile (by decide))
  unfold number
  rw [takeWhile_append (h.stops isDigit_fence), dropWhile_append (h.stops isDigit_fence)]
  generalize l.dropWhile Char.isDigit = rest at behind
  split
  · next d r e =>
    match rest, behind, e with
    | [], behind, e =>
      rw [List.nil_append] at e
      rw [e] at behind
      exact absurd (behind.front '.' rfl) (by decide)
    -- A point stands at the end of `l`, and no digit can follow it.
    | ['.'], behind, e =>
      simp only [List.cons_append, List.nil_append, List.cons.injEq, true_and] at e
      obtain rfl := e
      rw [isDigit_fence ((behind.tail (by decide)).front d rfl)]
      rfl
    | c :: e' :: rest, behind, e =>
      simp only [List.cons_append, List.cons.injEq] at e
      obtain ⟨rfl, rfl, rfl⟩ := e
      simp only
      split
      · have stops := (behind.tail (by decide)).stops isDigit_fence
        rw [← List.cons_append, takeWhile_append stops, dropWhile_append stops]
      · rfl
  · next no =>
    split
    · next d r => exact absurd rfl (no d (r ++ t))
    · rfl

theorem sigil_bounded (s : List Char) (token : String → Token) (h : Bounded l t) :
    sigil s token (l ++ t) = ((sigil s token l).1, (sigil s token l).2 ++ t) := by
  unfold sigil
  rw [identifier?_bounded h]
  cases identifier? l <;> rfl

theorem not_front {a d : Char} {l : List Char} (no : ∀ r, d :: l = a :: r → False)
    (l' : List Char) : ∀ r, d :: l' = a :: r → False :=
  fun _ e => no l (by cases e; rfl)

theorem not_front_two {a b c d : Char} {l : List Char}
    (no : ∀ r, c :: d :: l = a :: b :: r → False) (l' : List Char) :
    ∀ r, c :: d :: l' = a :: b :: r → False :=
  fun _ e => no l (by cases e; rfl)

theorem not_front_second {a b c d : Char} (no : d ≠ b) : ∀ r, [c, d] = a :: b :: r → False :=
  fun _ e => no (by cases e; rfl)

/-- Two characters decide about a mark. -/
theorem mark?_append_two (c d : Char) (l t : List Char) :
    mark? (c :: d :: (l ++ t)) =
      (mark? (c :: d :: l)).map fun found => (found.1, found.2 ++ t) := by
  generalize hr : c :: d :: l = text
  generalize hm : mark? text = m
  unfold mark? at hm
  split at hm
  all_goals subst hm
  -- What is no mark on two characters is none on more of them.
  case h_27 =>
    subst hr
    rw [mark?] <;> first
      | rfl
      | exact not_front (by assumption) _
      | exact not_front_two (by assumption) _
  all_goals
    cases hr
    first
      | rfl
      | (rw [mark?] <;> first | rfl | exact not_front (by assumption) _)

/-- No mark goes on into the end of a line or a comment. -/
theorem mark?_fence (c : Char) {d : Char} (h : isFence d = true) :
    mark? [c, d] = (mark? [c]).map fun found => (found.1, found.2 ++ [d]) := by
  generalize hx : [c] = text
  generalize hm : mark? text = m
  unfold mark? at hm
  split at hm
  all_goals subst hm
  case h_27 =>
    obtain rfl | rfl | rfl := isFence_iff.mp h
    all_goals
      subst hx
      rw [mark?] <;> first
        | rfl
        | exact not_front (by assumption) _
        | exact not_front_second (by decide)
  all_goals
    cases hx
    try (obtain rfl | rfl | rfl := isFence_iff.mp h <;> rfl)

theorem mark?_bounded (h : Bounded (c :: r) t) :
    mark? (c :: (r ++ t)) = (mark? (c :: r)).map fun found => (found.1, found.2 ++ t) := by
  match r, t, h with
  | d :: r, t, _ => exact mark?_append_two c d r t
  | [], [], _ => simp
  | [], d :: t, h =>
    rcases h with mem | fence
    · obtain rfl := List.mem_singleton.mp mem
      rfl
    · have two := mark?_append_two c d [] t
      rw [mark?_fence c (fence d rfl), Option.map_map] at two
      refine two.trans (congrArg (Option.map · (mark? [c])) (funext fun found => ?_))
      exact congrArg (Prod.mk found.1) (List.append_assoc found.2 [d] t)

end

theorem stringBody?_append_line (quote : Char) (t : List Char) : ∀ {l : List Char}, '\n' ∈ l →
    stringBody? quote (l ++ t) = (stringBody? quote l).map fun found => (found.1, found.2 ++ t)
  | c :: l, h => by
    rw [List.cons_append]
    unfold stringBody?
    by_cases hq : c = quote
    · rw [if_pos hq, if_pos hq]; rfl
    by_cases hn : c = '\n'
    · rw [if_neg hq, if_pos hn, if_neg hq, if_pos hn]; rfl
    have hl : '\n' ∈ l := (List.mem_cons.mp h).resolve_left (Ne.symm hn)
    rw [if_neg hq, if_neg hn, if_neg hq, if_neg hn]
    by_cases hb : c = '\\'
    · rw [if_pos hb, if_pos hb]
      cases l with
      | nil => cases hl
      | cons e l =>
        by_cases he : e = '\n'
        · simp only [List.cons_append, if_pos he]; rfl
        · have hl' : '\n' ∈ l := (List.mem_cons.mp hl).resolve_left (Ne.symm he)
          simp only [List.cons_append, if_neg he, stringBody?_append_line quote t hl',
            Option.map_map]
          rfl
    · rw [if_neg hb, if_neg hb, stringBody?_append_line quote t hl, Option.map_map, Option.map_map]
      rfl

theorem string_append_line (quote : Char) {l : List Char} (h : '\n' ∈ l) (t : List Char) :
    string quote (l ++ t) = ((string quote l).1, (string quote l).2 ++ t) := by
  have stops : Ceases (fun c => decide (c ≠ '\n')) l t := .inl ⟨'\n', h, by decide⟩
  unfold string
  rw [stringBody?_append_line quote t h, takeWhile_append stops,
    dropWhile_append stops]
  cases stringBody? quote l <;> rfl

theorem strayText_append_line {c : Char} {r : List Char} (h : '\n' ∈ c :: r) (t : List Char) :
    strayText c (r ++ t) = ((strayText c r).1, (strayText c r).2 ++ t) := by
  unfold strayText
  split
  · next r' e =>
    match r, h, e with
    | [], h, _ => exact absurd h (by decide)
    | d :: r, _, e =>
      cases e
      rfl
  · next no =>
    split
    · next r' => exact absurd rfl (no (r' ++ t) rfl)
    · rfl

/-- An item that begins in `l` is the same with `t` behind it, where that is so of strings and of
strays. -/
theorem itemAt_bounded {c : Char} {r t : List Char} (h : Bounded (c :: r) t)
    (quoted : c = '"' ∨ c = '\'' → string c (r ++ t) = ((string c r).1, (string c r).2 ++ t))
    (stray : strayText c (r ++ t) = ((strayText c r).1, (strayText c r).2 ++ t)) :
    itemAt c (r ++ t) = ((itemAt c r).1, (itemAt c r).2 ++ t) := by
  by_cases hn : c = '\n'
  · subst hn
    rfl
  have behind := h.tail hn
  by_cases ha : c = '@'
  · subst ha
    match r, behind with
    | [], behind =>
      have one : ∀ d ∈ t.head?, d ≠ '@' := by
        intro d hd e
        exact absurd (e ▸ behind.front d hd) (by decide)
      rw [List.nil_append, itemAt_at one, ← List.nil_append t, sigil_bounded _ _ behind]
      rfl
    | d :: r, behind =>
      by_cases hd : d = '@'
      · subst hd
        rw [List.cons_append, itemAt_at_at, itemAt_at_at,
          sigil_bounded _ _ (behind.tail (by decide))]
      · have one : ∀ r, ∀ d' ∈ (d :: r).head?, d' ≠ '@' := fun _ _ e => Option.some.inj e ▸ hd
        rw [itemAt_at (one r), List.cons_append, itemAt_at (one _), ← List.cons_append,
          sigil_bounded _ _ behind]
  unfold itemAt
  rw [mark?_bounded h, show c :: (r ++ t) = (c :: r) ++ t from rfl, number_bounded h,
    identifier?_bounded h]
  split
  · rfl
  split
  · next hq => exact quoted hq
  cases identifier? (c :: r) with
  | some found => rfl
  | none =>
    cases mark? (c :: r) with
    | some found => rfl
    | none =>
      simp only [Option.map_none]
      by_cases hc : c = ':'
      · subst hc
        exact sigil_bounded _ _ behind
      split
      · exact absurd rfl hc
      · exact absurd rfl ha
      · exact absurd rfl ha
      · split
        · exact absurd rfl hc
        · exact absurd rfl ha
        · exact absurd rfl ha
        · exact stray

theorem itemAt_append_line {c : Char} {r : List Char} (h : '\n' ∈ c :: r) (t : List Char) :
    itemAt c (r ++ t) = ((itemAt c r).1, (itemAt c r).2 ++ t) := by
  refine itemAt_bounded (.inl h) (fun hq => string_append_line c ?_ t) (strayText_append_line h t)
  refine (List.mem_cons.mp h).resolve_left fun e => ?_
  rw [← e] at hq
  exact absurd hq (by decide)

/-! ## What an item takes -/

/-- An item takes text from the front, and no end of a line unless it is one. -/
def Scan.Consumes (text : List Char) (found : Item × List Char) : Prop :=
  ∃ w, w ≠ [] ∧ text = w ++ found.2 ∧ w.count '\n' = TokenStream.lineAfter 0 found.1

theorem consumes_of_not_mem {w after : List Char} {i : Item} (hw : w ≠ []) (hn : '\n' ∉ w)
    (hi : TokenStream.lineAfter 0 i = 0) : Consumes (w ++ after) (i, after) :=
  ⟨w, hw, rfl, by rw [List.count_eq_zero_of_not_mem hn, hi]⟩

theorem lineAfter_integerItem (digits : List Char) :
    TokenStream.lineAfter 0 (integerItem digits) = 0 := by
  unfold integerItem
  cases Number.checked? (Decimal.digitsValue digits) <;> rfl

theorem number_consumes {c : Char} {r : List Char} (h : c.isDigit = true) :
    Consumes (c :: r) (number (c :: r)) := by
  have whole : (c :: r).takeWhile Char.isDigit ≠ [] := by
    rw [List.takeWhile_cons_of_pos h]
    exact List.cons_ne_nil _ _
  have split_text := List.takeWhile_append_dropWhile (p := Char.isDigit) (l := c :: r)
  have free := not_mem_takeWhile (p := Char.isDigit) (x := '\n') (by decide)
  unfold number
  split
  · next d rest e =>
    rw [e] at split_text
    split
    · have fraction := List.takeWhile_append_dropWhile (p := Char.isDigit) (l := d :: rest)
      have taken : c :: r = ((c :: r).takeWhile Char.isDigit ++
          '.' :: (d :: rest).takeWhile Char.isDigit) ++ (d :: rest).dropWhile Char.isDigit := by
        rw [List.append_assoc, List.cons_append, fraction, split_text]
      conv => lhs; rw [taken]
      refine consumes_of_not_mem (by simp) ?_ rfl
      intro hm
      rcases List.mem_append.mp hm with hm | hm
      · exact free _ hm
      · exact free _ ((List.mem_cons.mp hm).resolve_left (by decide))
    · conv => lhs; rw [← split_text]
      exact consumes_of_not_mem whole (free _) (lineAfter_integerItem _)
  · conv => lhs; rw [← split_text]
    exact consumes_of_not_mem whole (free _) (lineAfter_integerItem _)

theorem identifier?_splits {l ident after : List Char} (h : identifier? l = some (ident, after)) :
    l = ident ++ after ∧ ident ≠ [] ∧ '\n' ∉ ident := by
  cases l with
  | nil => cases h
  | cons c r =>
    rw [identifier?] at h
    split at h
    · next hc =>
      cases h
      refine ⟨by rw [List.cons_append, List.takeWhile_append_dropWhile], List.cons_ne_nil _ _, ?_⟩
      intro hm
      rcases List.mem_cons.mp hm with rfl | hm
      · exact absurd hc (by decide)
      · exact not_mem_takeWhile (by decide) _ hm
    · cases h

theorem lineAfter_word (ident : List Char) : TokenStream.lineAfter 0 (.token (word ident)) = 0 := by
  unfold word
  simp only
  split
  · next f h =>
    have keyword := isKeyword_of_lookup h
    cases f <;> first | rfl | exact absurd keyword (by decide)
  · rfl

theorem stringBody?_splits {quote : Char} (hq : quote ≠ '\n') {l body after : List Char}
    (h : stringBody? quote l = some (body, after)) : ∃ w, l = w ++ after ∧ '\n' ∉ w := by
  obtain ⟨text, rfl, ht⟩ := stringBody?_encoded h
  refine ⟨text ++ [quote], by rw [List.append_assoc, List.singleton_append], fun hn => ?_⟩
  rcases List.mem_append.mp hn with hn | hn
  · exact ht.not_mem hn
  · exact hq (List.mem_singleton.mp hn).symm

theorem string_consumes {quote : Char} (hq : quote ≠ '\n') (r : List Char) :
    Consumes (quote :: r) (string quote r) := by
  unfold string
  split
  · next body after h =>
    obtain ⟨w, rfl, hw⟩ := stringBody?_splits hq h
    exact consumes_of_not_mem (w := quote :: w) (List.cons_ne_nil _ _) (by simp [hw, hq.symm]) rfl
  -- A string that is not closed takes the rest of its line.
  · have free := not_mem_takeWhile (p := fun c => decide (c ≠ '\n')) (x := '\n') (by decide) r
    conv => lhs; rw [← List.takeWhile_append_dropWhile (p := fun c => decide (c ≠ '\n')) (l := r)]
    exact consumes_of_not_mem (w := quote :: _) (List.cons_ne_nil _ _)
      (fun hm => (List.mem_cons.mp hm).elim hq.symm free) rfl

theorem sigil_consumes {s : List Char} {token : String → Token} (hs : s ≠ []) (hn : '\n' ∉ s)
    (ht : ∀ n, TokenStream.lineAfter 0 (.token (token n)) = 0) (r : List Char) :
    Consumes (s ++ r) (sigil s token r) := by
  unfold sigil
  split
  · next ident after h =>
    obtain ⟨rfl, _, hi⟩ := identifier?_splits h
    rw [← List.append_assoc]
    exact consumes_of_not_mem (by simp [hs]) (by simp [hn, hi]) (ht _)
  · exact consumes_of_not_mem hs hn rfl

theorem mark?_consumes {l : List Char} {found : Item × List Char} (h : mark? l = some found) :
    Consumes l found := by
  unfold mark? at h
  split at h
  all_goals first
    | (obtain rfl := Option.some.inj h; exact ⟨[_, _], nofun, rfl, rfl⟩)
    | (obtain rfl := Option.some.inj h; exact ⟨[_], nofun, rfl, rfl⟩)
    | cases h

theorem strayText_consumes {c : Char} (hc : c ≠ '\n') (r : List Char) :
    Consumes (c :: r) (strayText c r) := by
  unfold strayText
  split
  · exact consumes_of_not_mem (w := ['\\', '\r']) (List.cons_ne_nil _ _) (by decide) rfl
  · exact consumes_of_not_mem (w := [c]) (List.cons_ne_nil _ _) (by simpa using hc.symm) rfl

theorem itemAt_consumes (c : Char) (r : List Char) : Consumes (c :: r) (itemAt c r) := by
  unfold itemAt
  split
  · next h => exact number_consumes h
  split
  · next h => exact string_consumes (by rcases h with rfl | rfl <;> decide) r
  split
  · next ident after h =>
    obtain ⟨e, hne, hn⟩ := identifier?_splits h
    rw [e]
    exact consumes_of_not_mem hne hn (lineAfter_word ident)
  split
  · next found h => exact mark?_consumes h
  · next none =>
    have hc : c ≠ '\n' := by
      intro e
      rw [e] at none
      cases none
    split
    · exact sigil_consumes (s := [':']) (List.cons_ne_nil _ _) (by decide) (fun _ => rfl) _
    · exact sigil_consumes (s := ['@', '@']) (List.cons_ne_nil _ _) (by decide) (fun _ => rfl) _
    · exact sigil_consumes (s := ['@']) (List.cons_ne_nil _ _) (by decide) (fun _ => rfl) _
    · exact strayText_consumes hc r

/-! ## Gaps -/

theorem skip_splits (line : Nat) (b : Bool) (l : List Char) :
    ∃ w, l = w ++ (skip line b l).rest ∧ (skip line b l).line = line + w.count '\n' := by
  have step : ∀ (w : List Char) {line line' : Nat} {r : List Char} {g : Gap},
      (∃ w, r = w ++ g.rest ∧ g.line = line' + w.count '\n') → line' = line + w.count '\n' →
      ∃ w', w ++ r = w' ++ g.rest ∧ g.line = line + w'.count '\n' := by
    rintro w line line' r g ⟨w', e, hline⟩ e'
    exact ⟨w ++ w', by rw [List.append_assoc, ← e],
      by rw [hline, List.count_append, e', Nat.add_assoc]⟩
  fun_induction skip line b l with
  | case1 line b r ih => exact step [' '] ih rfl
  | case2 line b r ih => exact step ['\t'] ih rfl
  | case3 line b r ih => exact step ['\r'] ih rfl
  | case4 line b r ih => exact step ['\x0c'] ih rfl
  | case5 line b r ih => exact step ['\\', '\n'] ih rfl
  | case6 line b r ih => exact step ['\\', '\r', '\n'] ih rfl
  | case7 line b r =>
    have free := not_mem_takeWhile (p := fun c => decide (c ≠ '\n')) (x := '\n') (by decide) r
    refine ⟨'#' :: r.takeWhile fun c => decide (c ≠ '\n'), ?_, ?_⟩
    · rw [List.cons_append, List.takeWhile_append_dropWhile]
    · rw [List.count_cons_of_ne (by decide), List.count_eq_zero_of_not_mem free]; rfl
  | case8 => exact ⟨[], rfl, rfl⟩

theorem skip_rest (line line' : Nat) (b b' : Bool) (l : List Char) :
    (skip line b l).rest = (skip line' b' l).rest := by
  fun_induction skip line b l generalizing line' b' with
  | case1 line b r ih | case2 line b r ih | case3 line b r ih | case4 line b r ih
  | case5 line b r ih | case6 line b r ih => rw [skip]; exact ih _ _
  | case7 line b r => rw [skip]
  | case8 => rw [skip] <;> assumption

theorem skip_add (k line : Nat) (b : Bool) (l : List Char) :
    skip (line + k) b l = { skip line b l with line := (skip line b l).line + k } := by
  fun_induction skip line b l with
  | case1 line b r ih | case2 line b r ih | case3 line b r ih | case4 line b r ih => rw [skip, ih]
  | case5 line b r ih | case6 line b r ih => rw [skip, ← ih, Nat.add_right_comm]
  | case7 line b r => rw [skip]
  | case8 => rw [skip] <;> assumption

/-- A front of the text that holds no end of a line but at its own end lies within the line. -/
theorem front_within_line {l t w r : List Char} (h : '\n' ∈ l) (hw : '\n' ∉ w.dropLast)
    (e : l ++ t = w ++ r) : ∃ r', l = w ++ r' := by
  rcases List.append_eq_append_iff.mp e with ⟨a, rfl, _⟩ | ⟨a, rfl, _⟩
  · match a with
    | [] => exact ⟨[], by rw [List.append_nil, List.append_nil]⟩
    | d :: a =>
      rw [List.dropLast_append_of_ne_nil (List.cons_ne_nil _ _)] at hw
      exact absurd (List.mem_append_left _ h) hw
  · exact ⟨a, rfl⟩

theorem skip_append_line (line : Nat) (b : Bool) (l t : List Char) :
    '\n' ∈ (skip line b l).rest →
    skip line b (l ++ t) = { skip line b l with rest := (skip line b l).rest ++ t } := by
  fun_induction skip line b l with
  | case1 line b r ih | case2 line b r ih | case3 line b r ih | case4 line b r ih =>
    intro h
    rw [List.cons_append, skip, ih h]
  | case5 line b r ih =>
    intro h
    rw [List.cons_append, List.cons_append, skip, ih h]
  | case6 line b r ih =>
    intro h
    rw [List.cons_append, List.cons_append, List.cons_append, skip, ih h]
  | case7 line b r =>
    intro h
    have hr : '\n' ∈ r := (List.dropWhile_sublist _).mem h
    have stops : Ceases (fun c => decide (c ≠ '\n')) r t := .inl ⟨'\n', hr, by decide⟩
    rw [List.cons_append, skip, dropWhile_append stops]
  | case8 line b l no1 no2 no3 no4 no5 no6 no7 =>
    intro h
    -- `t` can only be a part of a front that goes beyond the line, and none of them does.
    have within : ∀ w : List Char, '\n' ∉ w.dropLast → (∀ r, l = w ++ r → False) →
        ∀ r, l ++ t = w ++ r → False := by
      intro w hw no r e
      obtain ⟨r', e'⟩ := front_within_line h hw e
      exact no r' e'
    rw [skip]
    · exact within [' '] (by decide) no1
    · exact within ['\t'] (by decide) no2
    · exact within ['\r'] (by decide) no3
    · exact within ['\x0c'] (by decide) no4
    · exact within ['\\', '\n'] (by decide) no5
    · exact within ['\\', '\r', '\n'] (by decide) no6
    · exact within ['#'] (by decide) no7

/-! ## Texts that end with the end of a line -/

/-- The first item of the text, and the text after it. -/
def Scan.item? (text : List Char) : Option (Item × List Char) :=
  match (skip 0 false text).rest with
  | [] => none
  | c :: r => some (itemAt c r)

/-- The last item of the text is the end of a line, and nothing stands behind it. -/
inductive EndsLine : List Char → Prop where
  | last {text : List Char} : item? text = some (.token (.fixed .newline), []) → EndsLine text
  | more {text after : List Char} {i : Item} : item? text = some (i, after) → EndsLine after →
      EndsLine text

theorem item?_eq {text : List Char} {found : Item × List Char} (h : item? text = some found)
    (line : Nat) (b : Bool) : ∃ c r, (skip line b text).rest = c :: r ∧ itemAt c r = found := by
  unfold item? at h
  rw [skip_rest line 0 b false]
  split at h
  · cases h
  · next c r e => exact ⟨c, r, e, Option.some.inj h⟩

theorem mem_of_item? {text after : List Char} {i : Item} (h : item? text = some (i, after))
    (hn : '\n' ∈ after ∨ i = .token (.fixed .newline)) (line : Nat) (b : Bool) :
    '\n' ∈ (skip line b text).rest := by
  obtain ⟨c, r, e, he⟩ := item?_eq h line b
  obtain ⟨w, _, split, count⟩ := itemAt_consumes c r
  rw [e, split, he]
  rw [he] at count
  rcases hn with hn | rfl
  · exact List.mem_append_right _ hn
  · exact List.mem_append_left _ (List.count_pos_iff.mp (by rw [count]; exact Nat.one_pos))

theorem EndsLine.mem_rest {text : List Char} (h : EndsLine text) (line : Nat) (b : Bool) :
    '\n' ∈ (skip line b text).rest := by
  induction h generalizing line b with
  | last h => exact mem_of_item? h (.inr rfl) line b
  | @more text after i h _ ih =>
    obtain ⟨w, split, _⟩ := skip_splits 0 false after
    refine mem_of_item? h (.inl ?_) line b
    rw [split]
    exact List.mem_append_right _ (ih 0 false)

/-- A text that ends with the end of a line has a first item, and what stands behind the item
ends so as well, unless the item is that end of a line. -/
theorem EndsLine.item {text : List Char} (h : EndsLine text) (line : Nat) (b : Bool) :
    ∃ c r, (skip line b text).rest = c :: r ∧
      (EndsLine (itemAt c r).2 ∨ itemAt c r = (.token (.fixed .newline), [])) := by
  cases h with
  | last h =>
    obtain ⟨c, r, e, he⟩ := item?_eq h line b
    exact ⟨c, r, e, .inr he⟩
  | more h ha =>
    obtain ⟨c, r, e, he⟩ := item?_eq h line b
    exact ⟨c, r, e, .inl (by rw [he]; exact ha)⟩

/-! ## Deciding it -/

/-- Looks for the end of the last line among the next `fuel` items. -/
def endsLineWithin : (fuel : Nat) → List Char → Bool
  | 0, _ => false
  | fuel + 1, text =>
    match item? text with
    | none => false
    | some (.token (.fixed .newline), []) => true
    | some (_, after) => endsLineWithin fuel after

theorem endsLine_of_within : ∀ {fuel : Nat} {text : List Char},
    endsLineWithin fuel text = true → EndsLine text
  | fuel + 1, text, h => by
    unfold endsLineWithin at h
    split at h
    · cases h
    · next e => exact .last e
    · next i after _ e => exact .more e (endsLine_of_within h)

theorem length_of_item? {text after : List Char} {i : Item} (h : item? text = some (i, after)) :
    after.length < text.length := by
  obtain ⟨c, r, e, he⟩ := item?_eq h 0 false
  obtain ⟨v, split, _⟩ := skip_splits 0 false text
  obtain ⟨w, hw, split', _⟩ := itemAt_consumes c r
  have pos := List.length_pos_iff.mpr hw
  rw [split, e, split', he]
  simp only [List.length_append]
  omega

theorem EndsLine.within {text : List Char} (h : EndsLine text) :
    ∀ {fuel : Nat}, text.length ≤ fuel → endsLineWithin fuel text = true := by
  induction h with
  | last h =>
    intro fuel hf
    have := length_of_item? h
    cases fuel with
    | zero => omega
    | succ fuel => rw [endsLineWithin, h]
  | more h _ ih =>
    intro fuel hf
    have := length_of_item? h
    cases fuel with
    | zero => omega
    | succ fuel =>
      unfold endsLineWithin
      rw [h]
      split
      · next e => cases e
      · rfl
      · next e => cases e; exact ih (by omega)

instance : DecidablePred EndsLine := fun text =>
  decidable_of_iff (endsLineWithin text.length text = true)
    ⟨endsLine_of_within, fun h => h.within (Nat.le_refl _)⟩

end ObjectLang
