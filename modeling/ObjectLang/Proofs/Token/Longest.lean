import ObjectLang.Proofs.Token.Patterns
import ObjectLang.Proofs.Token.LineEnd

/-!
# Longest matches

An item is the longest text at its place that matches a pattern. Where no pattern matches, it is
the longest text that can be the beginning of a match.
-/

namespace ObjectLang

open Scan

/-! ## Items and their texts -/

/-- No longer text at the front of `x` than `w` has the property. -/
structure Longest (P : List Char → Prop) (x w : List Char) : Prop where
  front : w <+: x
  holds : P w
  max : ∀ v, v <+: x → P v → v.length ≤ w.length

/-- Some match begins with the text, or else it is a single character. -/
def IsBeginning (v : List Char) : Prop :=
  v ≠ [] ∧ (v.length = 1 ∨ ∃ t, IsMatch (v ++ t))

/-- The text is one of the token's own pattern, and has the token's payload. -/
def Token.HasText : Token → List Char → Prop
  | .real x, w => ∃ whole ∈ digits, ∃ fraction ∈ digits,
      w = whole ++ '.' :: fraction ∧ x = Decimal.ofDigits whole fraction
  | .integer n, w => w ∈ digits ∧ n.toInt = Decimal.digitsValue w
  | .str s, w => ∃ quote text, (quote = '"' ∨ quote = '\'') ∧ w ∈ quoted quote ∧
      w = quote :: (text ++ [quote]) ∧ s.toList = resolved text
  | .symbol s, w => s.toList ∈ identifiers ∧ w = ':' :: s.toList
  | .name s, w => w ∈ identifiers ∧ w = s.toList ∧ ∀ f, w ∉ (Pattern.fixed f).language
  | .instanceVar s, w => s.toList ∈ identifiers ∧ w = '@' :: s.toList
  | .classVar s, w => s.toList ∈ identifiers ∧ w = '@' :: '@' :: s.toList
  | .fixed f, w => w ∈ (Pattern.fixed f).language

/-- What it means that the text `w` at the front of `x` is read as the item. -/
def Item.Covers (x w : List Char) : Item → Prop
  | .token t => Longest IsMatch x w ∧ t.HasText w
  | .fault .literalTooLarge =>
      Longest IsMatch x w ∧ w ∈ digits ∧ Number.largest < Decimal.digitsValue w
  | .fault (.unexpected s) => (∀ v, v <+: x → ¬IsMatch v) ∧ Longest IsBeginning x w ∧ s.toList = w
  | .fault _ => False

/-- A token or an error begins here, and nothing that is passed over. -/
def AtItem (x : List Char) : Prop :=
  ∀ v, v <+: x → v ∉ Pattern.blanks.language ∧ v ∉ Pattern.comment.language ∧
    v ∉ Pattern.continuation.language

/-! ## Fronts of a text -/

theorem IsMatch.ne_nil {v : List Char} (h : IsMatch v) : v ≠ [] := by
  obtain ⟨p, hp⟩ := h
  obtain ⟨d, s, rfl, _⟩ := opening_of_mem hp
  exact List.cons_ne_nil _ _

theorem Item.Covers.ne_nil {x w : List Char} {i : Item} (h : i.Covers x w) : w ≠ [] := by
  cases i with
  | token t => exact h.1.holds.ne_nil
  | fault f =>
    cases f with
    | unexpected s => exact h.2.1.holds.1
    | literalTooLarge => exact h.1.holds.ne_nil
    | _ => exact h.elim

theorem prefix_run {p : Char → Bool} {v x : List Char} (hv : ∀ c ∈ v, p c = true)
    (h : v <+: x) : v.length ≤ (x.takeWhile p).length := by
  obtain ⟨t, rfl⟩ := h
  rw [List.takeWhile_append_of_pos hv, List.length_append]
  exact Nat.le_add_right _ _

section
variable {c : Char} {r v : List Char}

/-- The first character of a text tells of which patterns the match can be that it begins. -/
theorem exists_pattern {t : List Char} (hne : v ≠ []) (hv : v <+: c :: r) (h : IsMatch (v ++ t)) :
    ∃ p : Pattern, p.opening = Opening.of c ∧ v ++ t ∈ p.language := by
  obtain ⟨p, hp⟩ := h
  obtain ⟨d, s, e, hd⟩ := opening_of_mem hp
  cases v with
  | nil => exact absurd rfl hne
  | cons a v =>
    cases e
    rw [(List.cons_prefix_cons.mp hv).1] at hd
    exact ⟨p, hd.symm, hp⟩

theorem IsMatch.opens (h : IsMatch v) (hv : v <+: c :: r) :
    ∃ p : Pattern, p.opening = Opening.of c ∧ v ∈ p.language := by
  have := exists_pattern (t := []) h.ne_nil hv (by rwa [List.append_nil])
  rwa [List.append_nil] at this

/-- A beginning of more than one character is the beginning of a text of some pattern. -/
theorem IsBeginning.opens (h : IsBeginning v) (hv : v <+: c :: r) :
    v.length ≤ 1 ∨ ∃ (p : Pattern) (t : List Char), p.opening = Opening.of c ∧
      v ++ t ∈ p.language := by
  obtain ⟨hne, h | ⟨t, h⟩⟩ := h
  · exact .inl (Nat.le_of_eq h)
  · obtain ⟨p, hp, hm⟩ := exists_pattern hne hv h
    exact .inr ⟨p, t, hp, hm⟩

end

/-! ## Numbers -/

theorem Pattern.of_opening_digit {p : Pattern} (h : p.opening = .digit) :
    p = .real ∨ p = .integer := by
  cases p with
  | real => exact .inl rfl
  | integer => exact .inr rfl
  | fixed f => cases f <;> cases h
  | _ => cases h

theorem integerItem_covers {x w : List Char} (h : Longest IsMatch x w) (hw : w ∈ digits) :
    (integerItem w).Covers x w := by
  unfold integerItem Number.checked?
  by_cases range : Number.smallest ≤ (Decimal.digitsValue w : Int) ∧
      (Decimal.digitsValue w : Int) ≤ Number.largest
  · rw [if_pos range]
    refine ⟨h, hw, Int64.toInt_ofInt_of_le ?_ ?_⟩
    · exact range.1
    · exact Int.lt_of_le_of_lt range.2 (by decide)
  · rw [if_neg range]
    refine ⟨h, hw, ?_⟩
    rw [Number.smallest] at range
    omega

/-- A real at the front of a text has all the digits there before its point. -/
theorem real_front {v x : List Char} (hv : v ∈ Pattern.real.language) (h : v <+: x) :
    ∃ d rest, x.dropWhile Char.isDigit = '.' :: d :: rest ∧ d.isDigit = true ∧
      v.length ≤
        (x.takeWhile Char.isDigit ++ '.' :: (d :: rest).takeWhile Char.isDigit).length := by
  obtain ⟨whole, hw, fraction, hf, rfl⟩ := mem_real.mp hv
  obtain ⟨t, rfl⟩ := h
  obtain ⟨hne, hf⟩ := mem_digits.mp hf
  obtain ⟨d, f, rfl⟩ := List.exists_cons_of_ne_nil hne
  have stop : ∀ c ∈ ('.' :: (d :: f ++ t)).head?, c.isDigit = false := fun c hc => by
    cases hc
    rfl
  have hw := (mem_digits.mp hw).2
  rw [List.append_assoc, List.cons_append, dropWhile_run hw stop, takeWhile_run hw stop]
  refine ⟨d, f ++ t, rfl, hf d List.mem_cons_self, ?_⟩
  have run := prefix_run hf (List.prefix_append (d :: f) t)
  simp only [List.length_append, List.length_cons] at run ⊢
  exact Nat.add_le_add_left (Nat.succ_le_succ run) _

theorem takeWhile_mem_digits {c : Char} {r : List Char} (hc : c.isDigit = true) :
    (c :: r).takeWhile Char.isDigit ∈ digits := by
  refine mem_digits.mpr ⟨?_, fun d hd => List.all_eq_true.mp List.all_takeWhile d hd⟩
  rw [List.takeWhile_cons_of_pos hc]
  exact List.cons_ne_nil _ _

section
variable {c : Char} {r : List Char} (hc : c.isDigit = true)
include hc

/-- At a digit, a match is a real or no longer than the digits there. -/
theorem IsMatch.real_or_digits {v : List Char} (h : IsMatch v) (hv : v <+: c :: r) :
    v ∈ Pattern.real.language ∨ v.length ≤ ((c :: r).takeWhile Char.isDigit).length := by
  obtain ⟨p, hp, hm⟩ := h.opens hv
  rcases Pattern.of_opening_digit (hp.trans (opening_digit hc)) with rfl | rfl
  · exact .inl hm
  · exact .inr (prefix_run (mem_digits.mp hm).2 hv)

/-- Without a digit behind a point the digits are an integer, and no real begins here. -/
theorem digits_covers (no : ∀ d rest, (c :: r).dropWhile Char.isDigit = '.' :: d :: rest →
    d.isDigit = false) :
    ∃ w, c :: r = w ++ (c :: r).dropWhile Char.isDigit ∧
      (integerItem ((c :: r).takeWhile Char.isDigit)).Covers (c :: r) w := by
  have cut := List.takeWhile_append_dropWhile (p := Char.isDigit) (l := c :: r)
  have whole := takeWhile_mem_digits (r := r) hc
  refine ⟨_, cut.symm, integerItem_covers ⟨⟨_, cut⟩, ⟨.integer, whole⟩, fun v hv h => ?_⟩ whole⟩
  rcases h.real_or_digits hc hv with hr | le
  · obtain ⟨d, rest, e, hd, _⟩ := real_front hr hv
    rw [no d rest e] at hd
    cases hd
  · exact le

theorem real_covers {d : Char} {rest : List Char}
    (e : (c :: r).dropWhile Char.isDigit = '.' :: d :: rest) (hd : d.isDigit = true) :
    ∃ w, c :: r = w ++ (d :: rest).dropWhile Char.isDigit ∧
      (Item.token (.real (Decimal.ofDigits ((c :: r).takeWhile Char.isDigit)
        ((d :: rest).takeWhile Char.isDigit)))).Covers (c :: r) w := by
  have whole := takeWhile_mem_digits (r := r) hc
  have fraction := takeWhile_mem_digits (r := rest) hd
  have all : c :: r = ((c :: r).takeWhile Char.isDigit ++
      '.' :: (d :: rest).takeWhile Char.isDigit) ++ (d :: rest).dropWhile Char.isDigit := by
    rw [List.append_assoc, List.cons_append, List.takeWhile_append_dropWhile, ← e,
      List.takeWhile_append_dropWhile]
  refine ⟨_, all, ⟨⟨_, all.symm⟩, ⟨.real, mem_real.mpr ⟨_, whole, _, fraction, rfl⟩⟩, ?_⟩,
    _, whole, _, fraction, rfl, rfl⟩
  intro v hv h
  rcases h.real_or_digits hc hv with hr | le
  · obtain ⟨d', rest', e', _, le⟩ := real_front hr hv
    rw [e] at e'
    cases e'
    exact le
  · rw [List.length_append]
    exact Nat.le_trans le (Nat.le_add_right _ _)

theorem number_covers :
    ∃ w, c :: r = w ++ (number (c :: r)).2 ∧ (number (c :: r)).1.Covers (c :: r) w := by
  unfold number
  split
  · next d rest e =>
    split
    · next hd => exact real_covers hc e hd
    · next hd =>
      rw [← e]
      refine digits_covers hc fun d' rest' e' => ?_
      rw [e] at e'
      cases e'
      exact Bool.not_eq_true _ ▸ hd
  · next no => exact digits_covers hc fun d rest e => absurd e (no d rest)

end

/-! ## Strings -/

theorem Pattern.of_opening_quote {p : Pattern} {quote : Char} (hq : quote = '"' ∨ quote = '\'')
    (h : p.opening = Opening.of quote) : p.language = quoted quote := by
  rcases hq with rfl | rfl
  · cases p with
    | doubleQuoted => rfl
    | fixed f => cases f <;> cases h
    | _ => cases h
  · cases p with
    | singleQuoted => rfl
    | fixed f => cases f <;> cases h
    | _ => cases h

/-- A line without the closing quote can go on to become the content of a string. -/
theorem exists_encodes_of_none {quote : Char} {l : List Char} (hn : '\n' ∉ l)
    (h : stringBody? quote l = none) : ∃ t body, Encodes quote body (l ++ t) := by
  fun_induction stringBody? quote l with
  | case1 => exact ⟨[], [], .nil⟩
  | case2 => cases h
  | case3 => exact absurd List.mem_cons_self hn
  | case4 => exact ⟨['n'], _, .escaped (by decide) .nil⟩
  | case5 => simp at hn
  | case6 e rest he _ _ ih =>
    obtain ⟨t, body, ht⟩ := ih (fun h => hn (by simp [h])) (Option.map_eq_none_iff.mp h)
    exact ⟨t, _, .escaped he ht⟩
  | case7 c rest hq hc hb ih =>
    obtain ⟨t, body, ht⟩ := ih (fun h => hn (by simp [h])) (Option.map_eq_none_iff.mp h)
    exact ⟨t, _, .plain hq hc hb ht⟩

section
variable {quote : Char} (hq : quote = '"' ∨ quote = '\'') {r : List Char}
include hq

/-- A string at the front of a text is the one that is found there. -/
theorem string_front {v : List Char} (hv : v <+: quote :: r) (h : IsMatch v) :
    ∃ body after, stringBody? quote r = some (body, after) ∧ quote :: r = v ++ after := by
  obtain ⟨p, hp, hm⟩ := h.opens hv
  rw [Pattern.of_opening_quote hq hp, mem_quoted] at hm
  obtain ⟨body, text, hb, rfl⟩ := hm
  obtain ⟨t, ht⟩ := hv
  have split : r = text ++ quote :: t := by
    rw [List.cons_append, List.append_assoc] at ht
    exact (List.cons.inj ht).2.symm
  have hs : quote ≠ '\\' := by rcases hq with rfl | rfl <;> decide
  refine ⟨body, t, ?_, ht.symm⟩
  rw [split, stringBody?_encodes hs hb]

theorem isMatch_quoted {w : List Char} (h : w ∈ quoted quote) : IsMatch w := by
  rcases hq with rfl | rfl
  · exact ⟨.doubleQuoted, h⟩
  · exact ⟨.singleQuoted, h⟩

theorem closed_covers {body after : List Char} (h : stringBody? quote r = some (body, after)) :
    ∃ w, quote :: r = w ++ after ∧
      (Item.token (.str (String.ofList body))).Covers (quote :: r) w := by
  obtain ⟨text, split, hb⟩ := stringBody?_encoded h
  have all : quote :: r = (quote :: (text ++ [quote])) ++ after := by rw [split]; simp
  have member : quote :: (text ++ [quote]) ∈ quoted quote := mem_quoted.mpr ⟨body, text, hb, rfl⟩
  refine ⟨_, all, ⟨⟨_, all.symm⟩, isMatch_quoted hq member, fun v hv hm => ?_⟩, quote, text, hq,
    member, rfl, ?_⟩
  · obtain ⟨body', after', h', split⟩ := string_front hq hv hm
    rw [h] at h'
    cases h'
    rw [all] at split
    exact Nat.le_of_eq (congrArg List.length (List.append_cancel_right split).symm)
  · rw [String.toList_ofList]
    exact hb.resolved

/-- A beginning of a string does not go beyond the line. -/
theorem IsBeginning.within_line {v : List Char} (hb : IsBeginning v) (hv : v <+: quote :: r) :
    v.length ≤ (quote :: r.takeWhile (· ≠ '\n')).length := by
  rcases hb.opens hv with short | ⟨p, t, hp, hm⟩
  · exact Nat.le_trans short (Nat.succ_le_succ (Nat.zero_le _))
  rw [Pattern.of_opening_quote hq hp, mem_quoted] at hm
  obtain ⟨body, text, hb, ht⟩ := hm
  have hn : '\n' ∉ text ++ [quote] := by
    rw [List.mem_append, List.mem_singleton]
    rintro (mem | rfl)
    · exact hb.not_mem mem
    · exact absurd hq (by decide)
  cases v with
  | nil => exact Nat.zero_le _
  | cons d v =>
    obtain ⟨rfl, front⟩ := List.cons_prefix_cons.mp hv
    rw [← (List.cons.inj ht).2] at hn
    refine Nat.succ_le_succ (prefix_run (fun c hc => decide_eq_true fun hcn => ?_) front)
    exact hn (hcn ▸ List.mem_append_left _ hc)

/-- The rest of a line without a closing quote is the beginning of a string. -/
theorem unclosed_begins (h : stringBody? quote r = none) :
    IsBeginning (quote :: r.takeWhile (· ≠ '\n')) := by
  have cut := List.takeWhile_append_dropWhile (p := fun c => decide (c ≠ '\n')) (l := r)
  have line := not_mem_takeWhile (p := fun c => decide (c ≠ '\n')) (x := '\n') (by decide) r
  have hs : quote ≠ '\\' := by rcases hq with rfl | rfl <;> decide
  have unclosed : stringBody? quote (r.takeWhile (· ≠ '\n')) = none := by
    rw [Option.eq_none_iff_forall_ne_some]
    rintro ⟨body, after⟩ closed
    obtain ⟨text, split, hb⟩ := stringBody?_encoded closed
    rw [← cut, split, List.append_assoc, List.cons_append, stringBody?_encodes hs hb] at h
    cases h
  obtain ⟨t, body, hb⟩ := exists_encodes_of_none line unclosed
  refine ⟨List.cons_ne_nil _ _, .inr ⟨t ++ [quote], ?_⟩⟩
  refine isMatch_quoted hq (mem_quoted.mpr ⟨body, _, hb, ?_⟩)
  rw [List.cons_append, List.append_assoc]

theorem unclosed_covers (h : stringBody? quote r = none) :
    (stray (quote :: r.takeWhile (· ≠ '\n'))).Covers (quote :: r)
      (quote :: r.takeWhile (· ≠ '\n')) := by
  refine ⟨fun v hv hm => ?_, ⟨⟨r.dropWhile (· ≠ '\n'), ?_⟩, unclosed_begins hq h,
    fun v hv hb => hb.within_line hq hv⟩, String.toList_ofList⟩
  · obtain ⟨_, _, h', _⟩ := string_front hq hv hm
    rw [h] at h'
    cases h'
  · rw [List.cons_append, List.takeWhile_append_dropWhile]

theorem string_covers (r : List Char) :
    ∃ w, quote :: r = w ++ (string quote r).2 ∧ (string quote r).1.Covers (quote :: r) w := by
  unfold string
  cases h : stringBody? quote r with
  | some found => exact closed_covers hq h
  | none =>
    refine ⟨_, ?_, unclosed_covers hq h⟩
    rw [List.cons_append, List.takeWhile_append_dropWhile]

end

/-! ## Words -/

theorem spelling_letter : ∀ f : Fixed, (Pattern.fixed f).opening = .letter → ∀ s ∈ f.spellings,
    IsIdentifier s.toList ∧ Fixed.keywords.lookup s = some f := by
  intro f
  cases f <;> decide

theorem Pattern.of_opening_letter {p : Pattern} {w : List Char} (h : p.opening = .letter)
    (hw : w ∈ p.language) : IsIdentifier w := by
  cases p with
  | name => exact mem_identifiers.mp hw
  | fixed f =>
    obtain ⟨s, hs, rfl⟩ := exists_spelling hw
    exact (spelling_letter f h s hs).1
  | _ => cases h

theorem identifier_front {v l ident after : List Char} (h : identifier? l = some (ident, after))
    (hv : v <+: l) (hi : IsIdentifier v) : v.length ≤ ident.length := by
  cases l with
  | nil => cases h
  | cons c r =>
    rw [identifier?] at h
    split at h
    · next hc =>
      cases h
      have run := prefix_run hi.rest hv
      rwa [List.takeWhile_cons_of_pos (isIdentRest_of_start hc)] at run
    · cases h

theorem isIdentifier_of_found {l ident after : List Char} (h : identifier? l = some (ident, after)) :
    IsIdentifier ident := by
  cases l with
  | nil => cases h
  | cons c r =>
    rw [identifier?] at h
    split at h
    · next hc =>
      cases h
      exact ⟨hc, fun d hd => List.all_eq_true.mp List.all_takeWhile d hd⟩
    · cases h

theorem word_hasText {w : List Char} (h : IsIdentifier w) : (word w).HasText w := by
  unfold word
  cases hl : Fixed.keywords.lookup (String.ofList w) with
  | some f =>
    simp only [hl]
    exact mem_spellings_of_lookup hl
  | none =>
    simp only [hl]
    refine ⟨mem_identifiers.mpr h, String.toList_ofList.symm, fun f hf => ?_⟩
    obtain ⟨c, r, rfl, hc⟩ := opening_of_mem hf
    rw [opening_letter h.1] at hc
    rw [(spelling_letter f hc.symm _ hf).2] at hl
    cases hl

theorem word_covers {l ident after : List Char} (h : identifier? l = some (ident, after)) :
    ∃ w, l = w ++ after ∧ (Item.token (word ident)).Covers l w := by
  obtain ⟨split, _, _⟩ := identifier?_splits h
  have hi := isIdentifier_of_found h
  refine ⟨ident, split, ⟨⟨_, split.symm⟩, ⟨.name, mem_identifiers.mpr hi⟩, fun v hv hm => ?_⟩,
    word_hasText hi⟩
  cases ident with
  | nil => exact hi.elim
  | cons c i =>
    rw [split, List.cons_append] at hv
    obtain ⟨p, hp, hm⟩ := hm.opens hv
    rw [← List.cons_append, ← split] at hv
    exact identifier_front h hv (Pattern.of_opening_letter (hp.trans (opening_letter hi.1)) hm)

/-! ## Marks -/

/-- A mark of two characters is always found whole. -/
theorem mark?_spelling {f : Fixed} (h : (Pattern.fixed f).opening ≠ .letter) {w : List Char}
    (hw : w ∈ (Pattern.fixed f).language) :
    w.length ≤ 1 ∨ ∀ t, mark? (w ++ t) = some (.token (.fixed f), t) := by
  obtain ⟨s, hs, rfl⟩ := exists_spelling hw
  cases f
  all_goals first
    | exact absurd rfl h
    | (rw [List.mem_singleton.mp hs]; first | exact .inl (by decide) | exact .inr fun t => rfl)

theorem mark?_fixed {x : List Char} {found : Item × List Char} (h : mark? x = some found) :
    ∃ f w, found.1 = .token (.fixed f) ∧ x = w ++ found.2 ∧ w ∈ (Pattern.fixed f).language := by
  unfold mark? at h
  split at h
  all_goals first
    | (obtain rfl := Option.some.inj h; exact ⟨_, [_, _], rfl, rfl, List.mem_singleton.mpr rfl⟩)
    | (obtain rfl := Option.some.inj h; exact ⟨_, [_], rfl, rfl, List.mem_singleton.mpr rfl⟩)
    | cases h

theorem mark?_opening {c : Char} {r : List Char} {found : Item × List Char}
    (h : mark? (c :: r) = some found) :
    Opening.of c = .mark ∨ c = ':' ∧ ∃ r', r = ':' :: r' := by
  generalize hx : c :: r = x at h
  unfold mark? at h
  split at h
  all_goals first
    | (cases hx; exact .inl rfl)
    | (cases hx; exact .inr ⟨rfl, _, rfl⟩)
    | cases h

theorem opening_ne_mark {c : Char} {r : List Char} (h : mark? (c :: r) = none) :
    Opening.of c ≠ .mark := by
  intro mark
  have mem : c ∈ Fixed.marks := by
    have := Opening.holds_of c
    rwa [mark] at this
  simp only [Fixed.marks, List.mem_cons, List.not_mem_nil, or_false] at mem
  unfold mark? at h
  split at h
  -- Of no mark, the text does not begin with a character of one.
  case h_27 =>
    repeat' rcases mem with rfl | mem
    all_goals solve_by_elim
  all_goals cases h

theorem Pattern.of_opening_colon {p : Pattern} {w : List Char} (h : p.opening = .colon)
    (hw : w ∈ p.language) : p = .fixed .doubleColon ∨ ∃ i, IsIdentifier i ∧ w = ':' :: i := by
  cases p with
  | symbol =>
    obtain ⟨i, hi, rfl⟩ := mem_exactly_mul.mp hw
    exact .inr ⟨i, mem_identifiers.mp hi, rfl⟩
  | fixed f => cases f <;> first | exact .inl rfl | cases h
  | _ => cases h

theorem Pattern.of_opening_mark {p : Pattern} (h : p.opening = .mark) : ∃ f, p = .fixed f := by
  cases p with
  | fixed f => exact ⟨f, rfl⟩
  | _ => cases h

theorem mark_covers {c : Char} {r : List Char} {found : Item × List Char}
    (h : mark? (c :: r) = some found) :
    ∃ w, c :: r = w ++ found.2 ∧ found.1.Covers (c :: r) w := by
  have fixed : ∀ v, v <+: c :: r → IsMatch v →
      ∃ f, (Pattern.fixed f).opening ≠ .letter ∧ v ∈ (Pattern.fixed f).language := by
    intro v hv hm
    obtain ⟨p, hp, hm⟩ := hm.opens hv
    rcases mark?_opening h with mark | ⟨rfl, r', rfl⟩
    · obtain ⟨f, rfl⟩ := Pattern.of_opening_mark (hp.trans mark)
      refine ⟨f, ?_, hm⟩
      rw [hp, mark]
      decide
    · rcases Pattern.of_opening_colon hp hm with rfl | ⟨i, hi, rfl⟩
      · exact ⟨.doubleColon, by decide, hm⟩
      -- A symbol does not go on with a colon.
      · cases i with
        | nil => exact hi.elim
        | cons d i =>
          obtain ⟨rfl, _⟩ := List.cons_prefix_cons.mp (List.cons_prefix_cons.mp hv).2
          exact absurd hi.1 (by decide)
  obtain ⟨f, w, item, split, hw⟩ := mark?_fixed h
  obtain ⟨d, s, rfl, _⟩ := opening_of_mem hw
  refine ⟨d :: s, split, ?_⟩
  rw [item]
  refine ⟨⟨⟨_, split.symm⟩, ⟨_, hw⟩, fun v hv hm => ?_⟩, hw⟩
  obtain ⟨g, hg, hm⟩ := fixed v hv hm
  rcases mark?_spelling hg hm with short | whole
  · exact Nat.le_trans short (Nat.succ_le_succ (Nat.zero_le _))
  · obtain ⟨t, ht⟩ := hv
    rw [← ht, whole t] at h
    obtain rfl := Option.some.inj h
    rw [← ht] at split
    exact Nat.le_of_eq (congrArg List.length (List.append_cancel_right split))

/-! ## Sigils and strays -/

theorem Pattern.of_opening_at {p : Pattern} {w : List Char} (h : p.opening = .atSign)
    (hw : w ∈ p.language) : ∃ i, IsIdentifier i ∧ (w = '@' :: i ∨ w = '@' :: '@' :: i) := by
  cases p with
  | instanceVar =>
    obtain ⟨i, hi, rfl⟩ := mem_exactly_mul.mp hw
    exact ⟨i, mem_identifiers.mp hi, .inl rfl⟩
  | classVar =>
    obtain ⟨i, hi, rfl⟩ := mem_exactly_mul.mp hw
    exact ⟨i, mem_identifiers.mp hi, .inr rfl⟩
  | fixed f => cases f <;> cases h
  | _ => cases h

theorem Pattern.of_opening_backslash {p : Pattern} {w : List Char} (h : p.opening = .backslash)
    (hw : w ∈ p.language) :
    w ∈ continuation.language ∧ (w = ['\\', '\n'] ∨ w = ['\\', '\r', '\n']) := by
  cases p with
  | continuation =>
    refine ⟨hw, ?_⟩
    rw [Pattern.language, mul_assoc] at hw
    obtain ⟨r, hr, rfl⟩ := mem_exactly_mul.mp hw
    obtain ⟨a, ha, b, rfl, rfl⟩ := Language.mem_mul.mp hr
    rcases ha with rfl | rfl
    · exact .inl rfl
    · exact .inr rfl
  | fixed f => cases f <;> cases h
  | _ => cases h

/-- Text is given up if no match begins with it and one more character. -/
theorem stray_covers {x w : List Char} (front : w <+: x) (begins : IsBeginning w)
    (max : ∀ v, v <+: x → IsBeginning v → v.length ≤ w.length)
    (no : ∀ v, v <+: x → ¬IsMatch v) : (stray w).Covers x w :=
  ⟨no, ⟨front, begins, max⟩, String.toList_ofList⟩

theorem identStart_of_none {d : Char} {l : List Char} (h : identifier? (d :: l) = none) :
    isIdentStart d = false := by
  rw [identifier?] at h
  split at h
  · cases h
  · next no => exact Bool.not_eq_true _ ▸ no

/-- No identifier has its beginning where none is found. -/
theorem not_identifier_of_none {i t l : List Char} (h : identifier? l = none) (hi : i <+: l)
    (hne : i ≠ []) : ¬IsIdentifier (i ++ t) := by
  intro hit
  obtain ⟨d, s, rfl⟩ := List.exists_cons_of_ne_nil hne
  obtain ⟨u, rfl⟩ := hi
  have no := identStart_of_none h
  rw [hit.1] at no
  cases no

/-- An identifier behind the sigil makes a token. Otherwise the sigil stands alone, if it is the
beginning of nothing else. -/
theorem sigil_covers {s r : List Char} {token : String → Token} (hs : s ≠ [])
    (text : ∀ i, IsIdentifier i → IsMatch (s ++ i) ∧ (token (String.ofList i)).HasText (s ++ i))
    (proper : ∀ v, v <+: s ++ r → IsMatch v → s.length < v.length)
    (only : ∀ v t, v <+: s ++ r → IsMatch (v ++ t) →
      v.length ≤ s.length ∨ ∃ i, i ≠ [] ∧ v = s ++ i ∧ IsIdentifier (i ++ t)) :
    ∃ w, s ++ r = w ++ (sigil s token r).2 ∧ (sigil s token r).1.Covers (s ++ r) w := by
  unfold sigil
  cases h : identifier? r with
  | some found =>
    obtain ⟨ident, after⟩ := found
    have hi := isIdentifier_of_found h
    obtain ⟨split, _, _⟩ := identifier?_splits h
    have all : s ++ r = (s ++ ident) ++ after := by rw [split, List.append_assoc]
    refine ⟨s ++ ident, all, ⟨⟨_, all.symm⟩, (text ident hi).1, fun v hv hm => ?_⟩, (text ident hi).2⟩
    rw [List.length_append]
    rcases only v [] hv (by rwa [List.append_nil]) with short | ⟨i, _, rfl, hi⟩
    · exact Nat.le_trans short (Nat.le_add_right _ _)
    · rw [List.append_nil] at hi
      rw [List.length_append]
      exact Nat.add_le_add_left
        (identifier_front h ((List.prefix_append_right_inj s).mp hv) hi) _
  | none =>
    -- No identifier, and so no match, goes beyond the sigil.
    have bound : ∀ v t, v <+: s ++ r → IsMatch (v ++ t) → v.length ≤ s.length := by
      intro v t hv hm
      rcases only v t hv hm with short | ⟨i, hne, rfl, hi⟩
      · exact short
      · exact absurd hi (not_identifier_of_none h ((List.prefix_append_right_inj s).mp hv) hne)
    refine ⟨s, rfl, stray_covers (List.prefix_append s r) ?_ (fun v hv hb => ?_) fun v hv hm => ?_⟩
    · exact ⟨hs, .inr ⟨['a'], (text ['a'] ⟨rfl, nofun⟩).1⟩⟩
    · obtain ⟨_, one | ⟨t, hm⟩⟩ := hb
      · rw [one]
        exact List.length_pos_iff.mpr hs
      · exact bound v t hv hm
    · exact Nat.not_lt.mpr (bound v [] hv (by rwa [List.append_nil])) (proper v hv hm)

/-- A sigil with an identifier behind it is the text of a token. -/
theorem sigil_text {p : Pattern} {s : String} {token : String → Token}
    (hp : p.language = exactly s * identifiers)
    (ht : ∀ n w, (token n).HasText w ↔ n.toList ∈ identifiers ∧ w = s.toList ++ n.toList)
    (i : List Char) (hi : IsIdentifier i) :
    IsMatch (s.toList ++ i) ∧ (token (String.ofList i)).HasText (s.toList ++ i) := by
  have mem := mem_identifiers.mpr hi
  refine ⟨⟨p, ?_⟩, (ht _ _).mpr ?_⟩
  · rw [hp, mem_exactly_mul]
    exact ⟨i, mem, rfl⟩
  · rw [String.toList_ofList]
    exact ⟨mem, rfl⟩

theorem colon_covers {r : List Char} (h : mark? (':' :: r) = none) :
    ∃ w, ':' :: r = w ++ (sigil [':'] .symbol r).2 ∧
      (sigil [':'] .symbol r).1.Covers (':' :: r) w := by
  have colons : ∀ w, w ∈ (Pattern.fixed .doubleColon).language → w = [':', ':'] := by
    intro w hw
    obtain ⟨_, hs, rfl⟩ := exists_spelling hw
    rw [List.mem_singleton.mp hs]
    rfl
  refine sigil_covers (s := [':']) (List.cons_ne_nil _ _)
    (sigil_text (p := .symbol) rfl fun _ _ => .rfl) (fun v hv hm => ?_) fun v t hv hm => ?_
  · obtain ⟨p, hp, hm⟩ := hm.opens hv
    rcases Pattern.of_opening_colon hp hm with rfl | ⟨i, hi, rfl⟩
    · rw [colons v hm]
      decide
    · exact Nat.succ_lt_succ (List.length_pos_iff.mpr hi.ne_nil)
  · match v with
    | [] => exact .inl (Nat.zero_le _)
    | [_] => exact .inl (Nat.le_refl 1)
    | c :: d :: v =>
      obtain ⟨p, hp, hm⟩ := exists_pattern (List.cons_ne_nil _ _) hv hm
      obtain ⟨rfl, front⟩ := List.cons_prefix_cons.mp hv
      refine .inr ⟨d :: v, List.cons_ne_nil _ _, rfl, ?_⟩
      rcases Pattern.of_opening_colon hp hm with rfl | ⟨i, hi, e⟩
      · obtain ⟨u, rfl⟩ := front
        obtain ⟨_, e⟩ := List.cons.inj (colons _ hm)
        obtain ⟨rfl, _⟩ := List.cons.inj e
        cases h
      · rw [← (List.cons.inj e).2] at hi
        exact hi

theorem instanceVar_covers {r : List Char} (h : ∀ d ∈ r.head?, d ≠ '@') :
    ∃ w, '@' :: r = w ++ (sigil ['@'] .instanceVar r).2 ∧
      (sigil ['@'] .instanceVar r).1.Covers ('@' :: r) w := by
  refine sigil_covers (s := ['@']) (List.cons_ne_nil _ _)
    (sigil_text (p := .instanceVar) rfl fun _ _ => .rfl) (fun v hv hm => ?_) fun v t hv hm => ?_
  · obtain ⟨p, hp, hm⟩ := hm.opens hv
    obtain ⟨i, hi, rfl | rfl⟩ := Pattern.of_opening_at hp hm
    · exact Nat.succ_lt_succ (List.length_pos_iff.mpr hi.ne_nil)
    · exact Nat.succ_lt_succ (Nat.succ_pos _)
  · match v with
    | [] => exact .inl (Nat.zero_le _)
    | [_] => exact .inl (Nat.le_refl 1)
    | c :: d :: v =>
      obtain ⟨p, hp, hm⟩ := exists_pattern (List.cons_ne_nil _ _) hv hm
      obtain ⟨rfl, front⟩ := List.cons_prefix_cons.mp hv
      refine .inr ⟨d :: v, List.cons_ne_nil _ _, rfl, ?_⟩
      obtain ⟨i, hi, e | e⟩ := Pattern.of_opening_at hp hm
      · rw [← (List.cons.inj e).2] at hi
        exact hi
      · obtain ⟨u, rfl⟩ := front
        obtain ⟨rfl, _⟩ := List.cons.inj (List.cons.inj e).2
        exact absurd rfl (h _ rfl)

theorem classVar_covers (r : List Char) :
    ∃ w, '@' :: '@' :: r = w ++ (sigil ['@', '@'] .classVar r).2 ∧
      (sigil ['@', '@'] .classVar r).1.Covers ('@' :: '@' :: r) w := by
  have no : ∀ s, ¬IsIdentifier ('@' :: s) := fun s h => absurd h.1 (by decide)
  refine sigil_covers (s := ['@', '@']) (List.cons_ne_nil _ _)
    (sigil_text (p := .classVar) rfl fun _ _ => .rfl) (fun v hv hm => ?_) fun v t hv hm => ?_
  · obtain ⟨p, hp, hm⟩ := hm.opens hv
    obtain ⟨i, hi, rfl | rfl⟩ := Pattern.of_opening_at hp hm
    · cases i with
      | nil => exact hi.elim
      | cons d i =>
        obtain ⟨rfl, _⟩ := List.cons_prefix_cons.mp (List.cons_prefix_cons.mp hv).2
        exact absurd hi (no i)
    · exact Nat.succ_lt_succ (Nat.succ_lt_succ (List.length_pos_iff.mpr hi.ne_nil))
  · match v with
    | [] => exact .inl (Nat.zero_le _)
    | [_] => exact .inl (Nat.le_succ 1)
    | [_, _] => exact .inl (Nat.le_refl 2)
    | a :: b :: d :: v =>
      obtain ⟨p, hp, hm⟩ := exists_pattern (List.cons_ne_nil _ _) hv hm
      obtain ⟨rfl, front⟩ := List.cons_prefix_cons.mp hv
      obtain ⟨rfl, _⟩ := List.cons_prefix_cons.mp front
      refine .inr ⟨d :: v, List.cons_ne_nil _ _, rfl, ?_⟩
      obtain ⟨i, hi, e | e⟩ := Pattern.of_opening_at hp hm
      · rw [← (List.cons.inj e).2] at hi
        exact absurd hi (no _)
      · rw [← (List.cons.inj (List.cons.inj e).2).2] at hi
        exact hi

/-- What begins with a backslash can only go on to join two lines, and does not do so here. -/
theorem joins_of_isMatch {r v t : List Char} (hx : AtItem ('\\' :: r)) (hne : v ≠ [])
    (hv : v <+: '\\' :: r) (h : IsMatch (v ++ t)) :
    t ≠ [] ∧ (v ++ t = ['\\', '\n'] ∨ v ++ t = ['\\', '\r', '\n']) := by
  obtain ⟨p, hp, hm⟩ := exists_pattern hne hv h
  obtain ⟨hm, e⟩ := Pattern.of_opening_backslash hp hm
  refine ⟨fun empty => ?_, e⟩
  rw [empty, List.append_nil] at hm
  exact (hx v hv).2.2 hm

/-- Without the text that joins lines, a backslash stands alone, or with a carriage return. -/
theorem backslash_covers {r : List Char} (hx : AtItem ('\\' :: r)) :
    ∃ w, '\\' :: r = w ++ (strayText '\\' r).2 ∧
      (strayText '\\' r).1.Covers ('\\' :: r) w := by
  have no : ∀ v, v <+: '\\' :: r → ¬IsMatch v := fun v hv hm =>
    (joins_of_isMatch (t := []) hx hm.ne_nil hv (by rwa [List.append_nil])).1 rfl
  unfold strayText
  split
  · next r' _ =>
    refine ⟨['\\', '\r'], rfl, stray_covers ⟨r', rfl⟩
      ⟨List.cons_ne_nil _ _, .inr ⟨['\n'], .continuation, continuation_mem (.inr rfl)⟩⟩ ?_ no⟩
    rintro v hv ⟨hne, one | ⟨t, hm⟩⟩
    · rw [one]
      decide
    · obtain ⟨ht, e⟩ := joins_of_isMatch hx hne hv hm
      have pos := List.length_pos_iff.mpr ht
      have le : (v ++ t).length ≤ 3 := by rcases e with e | e <;> rw [e] <;> decide
      rw [List.length_append] at le
      exact Nat.le_of_lt_succ (Nat.lt_of_lt_of_le (Nat.lt_add_of_pos_right pos) le)
  · next other =>
    refine ⟨['\\'], rfl, stray_covers ⟨_, rfl⟩
      ⟨List.cons_ne_nil _ _, .inl rfl⟩ ?_ no⟩
    rintro v hv ⟨_, one | ⟨t, hm⟩⟩
    · exact Nat.le_of_eq one
    · match v with
      | [] => exact Nat.zero_le 1
      | [_] => exact Nat.le_refl 1
      | c :: d :: v =>
        obtain ⟨ht, e⟩ := joins_of_isMatch hx (List.cons_ne_nil _ _) hv hm
        obtain ⟨rfl, u, rfl⟩ := List.cons_prefix_cons.mp hv
        rcases e with e | e
        · simp at e
          exact absurd e.2.2 ht
        · simp only [List.cons_append, List.cons.injEq, true_and] at e
          exact (other (v ++ u) rfl (by rw [List.cons_append, e.1])).elim

/-- No pattern has a match that begins with a character of no kind. -/
theorem strange_covers {c : Char} (r : List Char) (hc : Opening.of c = .other) :
    (stray [c]).Covers (c :: r) [c] := by
  have none : ∀ p : Pattern, p.opening ≠ Opening.of c := by
    intro p
    rw [hc]
    cases p with
    | fixed f => cases f <;> decide
    | _ => decide
  refine stray_covers ⟨r, rfl⟩ ⟨List.cons_ne_nil _ _, .inl rfl⟩ (fun v hv hb => ?_)
    fun v hv hm => ?_
  · rcases hb.opens hv with short | ⟨p, _, hp, _⟩
    · exact short
    · exact absurd hp (none p)
  · obtain ⟨p, hp, _⟩ := hm.opens hv
    exact none p hp

theorem strayText_covers {c : Char} {r : List Char} (hx : AtItem (c :: r))
    (kind : Opening.of c = .backslash ∨ Opening.of c = .other) :
    ∃ w, c :: r = w ++ (strayText c r).2 ∧ (strayText c r).1.Covers (c :: r) w := by
  rcases kind with backslash | other
  · obtain rfl : c = '\\' := by
      have holds := Opening.holds_of c
      rwa [backslash] at holds
    exact backslash_covers hx
  · have alone : strayText c r = (stray [c], r) := by
      unfold strayText
      split
      · cases other
      · rfl
    rw [alone]
    exact ⟨[c], rfl, strange_covers r other⟩

/-! ## Items -/

theorem itemAt_covers {c : Char} {r : List Char} (hx : AtItem (c :: r)) :
    ∃ w, c :: r = w ++ (itemAt c r).2 ∧ (itemAt c r).1.Covers (c :: r) w := by
  unfold itemAt
  split
  · next hd => exact number_covers hd
  split
  · next hq => exact string_covers hq r
  split
  · next ident after h => exact word_covers h
  next hd hq _ hi =>
  have hi := identStart_of_none hi
  split
  · next found h => exact mark_covers h
  next hm =>
  split
  · exact colon_covers hm
  · exact classVar_covers _
  · next no =>
    refine instanceVar_covers fun d hd e => ?_
    obtain ⟨r', hr⟩ := List.head?_eq_some_iff.mp hd
    exact no r' (hr.trans (by rw [e]))
  · next colon atSign _ =>
    have kind := Opening.holds_of c
    cases ho : Opening.of c with
    | backslash => exact strayText_covers hx (.inl ho)
    | other => exact strayText_covers hx (.inr ho)
    | mark => exact absurd ho (opening_ne_mark hm)
    | letter => rw [ho, Opening.Holds, hi] at kind; cases kind
    | digit => rw [ho] at kind; exact absurd kind hd
    | doubleQuote => rw [ho] at kind; exact absurd (.inl kind) hq
    | singleQuote => rw [ho] at kind; exact absurd (.inr kind) hq
    | colon => rw [ho] at kind; exact absurd kind colon
    | atSign => rw [ho] at kind; exact absurd kind atSign
    | blank =>
      rw [ho] at kind
      exact absurd (blank_mem kind) (hx [c] ⟨r, rfl⟩).1
    | hash =>
      rw [ho] at kind
      obtain rfl : c = '#' := kind
      exact absurd (comment_mem List.not_mem_nil) (hx ['#'] ⟨r, rfl⟩).2.1

end ObjectLang
