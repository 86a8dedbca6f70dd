import ObjectLang.Token.Scan

/-!
# Spellings of tokens

How tokens are written, and when the text behind a token cannot be taken as a
part of it. A token written in this way is read back from the front of the text,
and reading stops right behind it.
-/

namespace ObjectLang

open Scan

/-! ## Runs of characters -/

theorem takeWhile_run {p : Char → Bool} : ∀ {w rest : List Char}, (∀ c ∈ w, p c = true) →
    (∀ c ∈ rest.head?, p c = false) → (w ++ rest).takeWhile p = w
  | [], [], _, _ => rfl
  | [], d :: rest, _, hr => by
    rw [List.nil_append, List.takeWhile_cons, hr d (by simp)]; rfl
  | c :: w, rest, hw, hr => by
    rw [List.cons_append, List.takeWhile_cons, if_pos (hw c (by simp)),
      takeWhile_run (fun d hd => hw d (by simp [hd])) hr]

theorem dropWhile_run {p : Char → Bool} : ∀ {w rest : List Char}, (∀ c ∈ w, p c = true) →
    (∀ c ∈ rest.head?, p c = false) → (w ++ rest).dropWhile p = rest
  | [], [], _, _ => rfl
  | [], d :: rest, _, hr => by
    rw [List.nil_append, List.dropWhile_cons, hr d (by simp)]; rfl
  | c :: w, rest, hw, hr => by
    rw [List.cons_append, List.dropWhile_cons, if_pos (hw c (by simp)),
      dropWhile_run (fun d hd => hw d (by simp [hd])) hr]

/-! ## Identifiers -/

def IsIdentifier : List Char → Prop
  | [] => False
  | c :: r => isIdentStart c = true ∧ ∀ d ∈ r, isIdentRest d = true

instance : (w : List Char) → Decidable (IsIdentifier w)
  | [] => .isFalse id
  | c :: r => decidable_of_iff ((isIdentStart c && r.all isIdentRest) = true) (by
    rw [Bool.and_eq_true, List.all_eq_true, IsIdentifier])

theorem isIdentRest_of_start {c : Char} (h : isIdentStart c = true) : isIdentRest c = true := by
  simp only [isIdentStart, isIdentRest, Char.isAlphanum, Bool.or_eq_true] at h ⊢
  rcases h with h | h
  · exact .inl (.inl h)
  · exact .inr h

theorem IsIdentifier.rest {w : List Char} (h : IsIdentifier w) :
    ∀ c ∈ w, isIdentRest c = true := by
  cases w with
  | nil => exact h.elim
  | cons c r =>
    intro d hd
    rcases List.mem_cons.mp hd with e | hd
    · rw [e]; exact isIdentRest_of_start h.1
    · exact h.2 d hd

theorem IsIdentifier.ne_nil {w : List Char} (h : IsIdentifier w) : w ≠ [] := by
  intro e
  rw [e] at h
  exact h

theorem IsIdentifier.head_ne {w rest : List Char} {c : Char} (h : IsIdentifier w)
    (hc : isIdentStart c = false) : ∀ d ∈ (w ++ rest).head?, d ≠ c := by
  cases w with
  | nil => exact h.elim
  | cons b r =>
    intro d hd e
    cases hd
    rw [e, IsIdentifier, hc] at h
    exact absurd h.1 (by decide)

theorem identifier?_append {w rest : List Char} (h : IsIdentifier w)
    (hr : ∀ c ∈ rest.head?, isIdentRest c = false) : identifier? (w ++ rest) = some (w, rest) := by
  cases w with
  | nil => exact h.elim
  | cons c r =>
    rw [List.cons_append, identifier?, if_pos h.1, takeWhile_run h.2 hr, dropWhile_run h.2 hr]

/-! ## Contents of strings -/

/-- The text between the quotes of a string with the given content. Any character may stand
behind a backslash, if it stands for the right one; quotes, backslashes and ends of lines have to. -/
inductive Encodes (quote : Char) : List Char → List Char → Prop where
  | nil : Encodes quote [] []
  | plain {c : Char} {body text : List Char} : c ≠ quote → c ≠ '\n' → c ≠ '\\' →
      Encodes quote body text → Encodes quote (c :: body) (c :: text)
  | escaped {e : Char} {body text : List Char} : e ≠ '\n' → Encodes quote body text →
      Encodes quote (unescape e :: body) ('\\' :: e :: text)

theorem stringBody?_encodes {quote : Char} (hq : quote ≠ '\\') {body text : List Char}
    (h : Encodes quote body text) (rest : List Char) :
    stringBody? quote (text ++ quote :: rest) = some (body, rest) := by
  induction h with
  | nil =>
    rw [List.nil_append]
    unfold stringBody?
    simp
  | plain hc hn hb _ ih =>
    rw [List.cons_append]
    unfold stringBody?
    simp [hc, hn, hb, ih]
  | escaped he _ ih =>
    rw [List.cons_append, List.cons_append]
    unfold stringBody?
    simp [he, ih, Ne.symm hq]

theorem stringBody?_encoded {quote : Char} {l body after : List Char}
    (h : stringBody? quote l = some (body, after)) :
    ∃ text, l = text ++ quote :: after ∧ Encodes quote body text := by
  fun_induction stringBody? quote l generalizing body after with
  | case1 => cases h
  | case2 rest =>
    cases h
    exact ⟨[], rfl, .nil⟩
  | case3 => cases h
  | case4 => cases h
  | case5 => cases h
  | case6 e rest he _ _ ih =>
    obtain ⟨⟨b, a⟩, hs, e'⟩ := Option.map_eq_some_iff.mp h
    cases e'
    obtain ⟨text, rfl, ht⟩ := ih hs
    exact ⟨_ :: e :: text, rfl, .escaped he ht⟩
  | case7 c rest hq hn hb ih =>
    obtain ⟨⟨b, a⟩, hs, e'⟩ := Option.map_eq_some_iff.mp h
    cases e'
    obtain ⟨text, rfl, ht⟩ := ih hs
    exact ⟨c :: text, rfl, .plain hq hn hb ht⟩

theorem Encodes.not_mem {quote : Char} {body text : List Char} (h : Encodes quote body text) :
    '\n' ∉ text := by
  induction h with
  | nil => exact List.not_mem_nil
  | plain _ hn _ _ ih => exact fun h => (List.mem_cons.mp h).elim (Ne.symm hn) ih
  | escaped he _ ih =>
    intro h
    rcases List.mem_cons.mp h with e | h
    · exact absurd e (by decide)
    · exact (List.mem_cons.mp h).elim (Ne.symm he) ih

/-! ## Tokens -/

inductive Spelling : Token → List Char → Prop where
  | integer {n : Int64} {digits : List Char} : digits ≠ [] → (∀ c ∈ digits, c.isDigit = true) →
      Number.checked? (Decimal.digitsValue digits) = some n → Spelling (.integer n) digits
  | str {quote : Char} {body text : List Char} : quote = '"' ∨ quote = '\'' →
      Encodes quote body text → Spelling (.str (String.ofList body)) (quote :: text ++ [quote])
  | symbol {w : List Char} : IsIdentifier w → Spelling (.symbol (String.ofList w)) (':' :: w)
  | name {w : List Char} : IsIdentifier w → Fixed.keywords.lookup (String.ofList w) = none →
      Spelling (.name (String.ofList w)) w
  | instanceVar {w : List Char} : IsIdentifier w →
      Spelling (.instanceVar (String.ofList w)) ('@' :: w)
  | classVar {w : List Char} : IsIdentifier w →
      Spelling (.classVar (String.ofList w)) ('@' :: '@' :: w)
  | keyword {f : Fixed} {w : List Char} : IsIdentifier w →
      Fixed.keywords.lookup (String.ofList w) = some f → Spelling (.fixed f) w
  | mark {f : Fixed} : f.isKeyword = false → f ≠ .newline → Spelling (.fixed f) f.text.toList
  | newline : Spelling (.fixed .newline) ['\n']

theorem mem_of_lookup {s : String} {f : Fixed} (h : Fixed.keywords.lookup s = some f) :
    (s, f) ∈ Fixed.keywords := by
  obtain ⟨l, r, e, _⟩ := List.lookup_eq_some_iff.mp h
  rw [e]
  exact List.mem_append_right _ List.mem_cons_self

theorem isKeyword_of_lookup {s : String} {f : Fixed} (h : Fixed.keywords.lookup s = some f) :
    f.isKeyword = true := by
  rw [Fixed.isKeyword, List.any_eq_true]
  exact ⟨(s, f), mem_of_lookup h, decide_eq_true rfl⟩

/-- Whether `d` behind a token that ends in `c` could be taken as a part of it. -/
def sticks (c d : Char) : Bool :=
  (isIdentRest c && isIdentRest d) || (c = '=' && (d = '=' || d = '>')) ||
    ((c = '!' || c = '<' || c = '>') && d = '=') || (c = '.' && d = '.')

/-- No token that begins with `w` goes on into `rest`. -/
structure Apart (w rest : List Char) : Prop where
  sticks : ∀ c ∈ w.getLast?, ∀ d ∈ rest.head?, sticks c d = false
  point : (∀ c ∈ w, c.isDigit = true) → ∀ d r, rest = '.' :: d :: r → d.isDigit = false

theorem Apart.ident {a w rest : List Char} (h : Apart (a ++ w) rest) (hw : w ≠ [])
    (hi : ∀ c ∈ w, isIdentRest c = true) : ∀ d ∈ rest.head?, isIdentRest d = false := by
  intro d hd
  have last : (a ++ w).getLast? = some (w.getLast hw) := by
    rw [List.getLast?_append, List.getLast?_eq_some_getLast hw, Option.some_or]
  have hs := h.sticks _ last d hd
  simp only [ObjectLang.sticks, hi _ (List.getLast_mem hw), Bool.true_and, Bool.or_eq_false_iff] at hs
  exact hs.1.1.1

/-! ## Reading a token -/

theorem isDigit_of_identStart {c : Char} (h : isIdentStart c = true) : c.isDigit = false := by
  change ((decide ('A'.val ≤ c.val ∧ c.val ≤ 'Z'.val) ||
    (decide ('a'.val ≤ c.val) && decide (c.val ≤ 'z'.val))) || decide (c = '_')) = true at h
  change (decide ('0'.val ≤ c.val) && decide (c.val ≤ '9'.val)) = false
  simp only [Bool.or_eq_true, Bool.and_eq_true, decide_eq_true_eq, UInt32.le_iff_toNat_le] at h
  simp only [Bool.and_eq_false_iff, decide_eq_false_iff_not, UInt32.le_iff_toNat_le]
  rcases h with (h | h) | h
  · simp at h ⊢; omega
  · simp at h ⊢; omega
  · rw [h]; decide

theorem isIdentRest_of_isDigit {c : Char} (h : c.isDigit = true) : isIdentRest c = true := by
  simp [isIdentRest, Char.isAlphanum, h]

theorem number_digits {digits rest : List Char} (hd : ∀ c ∈ digits, c.isDigit = true)
    (hr : ∀ c ∈ rest.head?, c.isDigit = false)
    (hp : ∀ d r, rest = '.' :: d :: r → d.isDigit = false) :
    number (digits ++ rest) = (integerItem digits, rest) := by
  unfold number
  rw [takeWhile_run hd hr, dropWhile_run hd hr]
  split
  · next d r => rw [hp d r rfl]; rfl
  · rfl

theorem itemAt_ident {w rest : List Char} {c : Char} {r : List Char} (e : w = c :: r)
    (h : IsIdentifier w) (hr : ∀ d ∈ rest.head?, isIdentRest d = false) :
    itemAt c (r ++ rest) = (.token (word w), rest) := by
  subst e
  have hq : ¬(c = '"' ∨ c = '\'') := by
    intro hc
    rcases hc with e | e
    · rw [e] at h; exact absurd h.1 (by decide)
    · rw [e] at h; exact absurd h.1 (by decide)
  unfold itemAt
  rw [isDigit_of_identStart h.1, if_neg (by decide), if_neg hq]
  rw [show c :: (r ++ rest) = (c :: r) ++ rest from rfl, identifier?_append h hr]

theorem sigil_append (s : List Char) (token : String → Token) {w rest : List Char}
    (h : IsIdentifier w) (hr : ∀ d ∈ rest.head?, isIdentRest d = false) :
    sigil s token (w ++ rest) = (.token (token (String.ofList w)), rest) := by
  rw [sigil, identifier?_append h hr]

theorem itemAt_colon {x : List Char} (hx : ∀ d ∈ x.head?, d ≠ ':') :
    itemAt ':' x = sigil [':'] .symbol x := by
  cases x with
  | nil => rfl
  | cons d x =>
    have hd : d ≠ ':' := hx d rfl
    simp [itemAt, identifier?, show isIdentStart ':' = false from rfl, mark?, hd]

theorem itemAt_at {x : List Char} (hx : ∀ d ∈ x.head?, d ≠ '@') :
    itemAt '@' x = sigil ['@'] .instanceVar x := by
  cases x with
  | nil => rfl
  | cons d x =>
    have hd : d ≠ '@' := hx d rfl
    simp [itemAt, identifier?, show isIdentStart '@' = false from rfl, mark?, hd]

theorem itemAt_at_at (x : List Char) : itemAt '@' ('@' :: x) = sigil ['@', '@'] .classVar x := by
  simp [itemAt, identifier?, show isIdentStart '@' = false from rfl, mark?]

theorem itemAt_of_mark {c : Char} {x : List Char} {found : Item × List Char}
    (hd : c.isDigit = false) (hq : ¬(c = '"' ∨ c = '\'')) (hi : isIdentStart c = false)
    (hm : mark? (c :: x) = some found) : itemAt c x = found := by
  unfold itemAt
  rw [hd, if_neg (by decide), if_neg hq, identifier?, hi, if_neg (by decide), hm]

/-- A mark that is the beginning of longer ones needs to stand apart from what follows. -/
theorem mark?_text {f : Fixed} (hk : f.isKeyword = false) (hn : f ≠ .newline) {rest : List Char}
    (hs : ∀ z ∈ f.text.toList.getLast?, ∀ d ∈ rest.head?, sticks z d = false) :
    mark? (f.text.toList ++ rest) = some (.token (.fixed f), rest) := by
  cases rest with
  | nil => cases f <;> first | exact absurd hk (by decide) | exact absurd rfl hn | rfl
  | cons d rest =>
    have apart : ∀ z, f.text.toList.getLast? = some z → sticks z d = false :=
      fun z hz => hs z hz d rfl
    cases f
    case equals =>
      have h := apart '=' (by decide)
      simp [sticks, isIdentRest] at h
      simp [Fixed.text, mark?, h]
      rfl
    case bang =>
      have h := apart '!' (by decide)
      simp [sticks] at h
      simp [Fixed.text, mark?, h]
      rfl
    case less =>
      have h := apart '<' (by decide)
      simp [sticks] at h
      simp [Fixed.text, mark?, h]
      rfl
    case greater =>
      have h := apart '>' (by decide)
      simp [sticks] at h
      simp [Fixed.text, mark?, h]
      rfl
    case dot =>
      have h := apart '.' (by decide)
      simp [sticks] at h
      simp [Fixed.text, mark?, h]
      rfl
    all_goals first | exact absurd hk (by decide) | exact absurd rfl hn | rfl

theorem mark_starts : ∀ f : Fixed, f.isKeyword = false → f ≠ .newline →
    ∀ c ∈ f.text.toList.head?, c.isDigit = false ∧ ¬(c = '"' ∨ c = '\'') ∧
      isIdentStart c = false := by
  intro f hk hn c hc
  cases f
  all_goals first | exact absurd hk (by decide) | exact absurd rfl hn | (cases hc; exact ⟨rfl, by decide, rfl⟩)

/-- The token is read back, and reading stops right behind it. -/
theorem itemAt_spelling {t : Token} {w rest : List Char} {c : Char} {r : List Char}
    (e : w = c :: r) (h : Spelling t w) (ha : Apart w rest) :
    itemAt c (r ++ rest) = (.token t, rest) := by
  cases h with
  | @integer n _ _ hd hn =>
    subst e
    have hr := Apart.ident (a := []) ha (by simp) fun d hd' => isIdentRest_of_isDigit (hd d hd')
    have hr' : ∀ d ∈ rest.head?, d.isDigit = false := by
      intro d hd'
      cases e : d.isDigit with
      | false => rfl
      | true =>
        have no := hr d hd'
        rw [isIdentRest_of_isDigit e] at no
        exact no
    have hn' := number_digits hd hr' (ha.point hd)
    unfold itemAt
    rw [if_pos (hd c (by simp)), ← List.cons_append, hn', integerItem, hn]
  | @str quote body text hq hb =>
    rw [List.cons_append, List.cons.injEq] at e
    obtain ⟨rfl, rfl⟩ := e
    have hd : quote.isDigit = false := by rcases hq with rfl | rfl <;> rfl
    have hs : quote ≠ '\\' := by rcases hq with rfl | rfl <;> decide
    unfold itemAt
    rw [hd, if_neg (by decide), if_pos hq, string, List.append_assoc,
      List.singleton_append, stringBody?_encodes hs hb]
  | @symbol w hw =>
    rw [List.cons.injEq] at e
    obtain ⟨rfl, rfl⟩ := e
    have hr := ha.ident (a := [':']) hw.ne_nil hw.rest
    rw [itemAt_colon (hw.head_ne (by decide)), sigil_append _ _ hw hr]
  | @name w hw hk =>
    have hr := ha.ident (a := []) hw.ne_nil hw.rest
    rw [itemAt_ident e hw hr, word, hk]
  | @instanceVar w hw =>
    rw [List.cons.injEq] at e
    obtain ⟨rfl, rfl⟩ := e
    have hr := ha.ident (a := ['@']) hw.ne_nil hw.rest
    rw [itemAt_at (hw.head_ne (by decide)), sigil_append _ _ hw hr]
  | @classVar w hw =>
    rw [List.cons.injEq] at e
    obtain ⟨rfl, rfl⟩ := e
    have hr := ha.ident (a := ['@', '@']) hw.ne_nil hw.rest
    rw [List.cons_append, itemAt_at_at, sigil_append _ _ hw hr]
  | @keyword f w hw hk =>
    have hr := ha.ident (a := []) hw.ne_nil hw.rest
    rw [itemAt_ident e hw hr, word, hk]
  | @mark f hk hn =>
    have hc := mark_starts f hk hn c (by rw [e]; rfl)
    have hm := mark?_text hk hn ha.sticks
    rw [e] at hm
    exact itemAt_of_mark hc.1 hc.2.1 hc.2.2 hm
  | newline =>
    rw [List.cons.injEq] at e
    obtain ⟨rfl, rfl⟩ := e
    rfl

end ObjectLang
