import ObjectLang.Proofs.Token.Reading

/-!
# Writing tokens

Every token that a program can hold has a spelling, and tokens with blanks between
them make up a text that reads as these tokens.
-/

namespace ObjectLang

open Scan

/-! ## Spellings -/

theorem spelling_fixed (f : Fixed) : ∃ w, Spelling (.fixed f) w := by
  have word : ∀ w, IsIdentifier w → Fixed.keywords.lookup (String.ofList w) = some f →
      ∃ w, Spelling (.fixed f) w := fun w hw hf => ⟨w, .keyword hw hf⟩
  by_cases hk : f.isKeyword = true
  · refine word f.text.toList ?_ ?_
    · cases f <;> first | exact absurd hk (by decide) | decide
    · cases f <;> first | exact absurd hk (by decide) | rfl
  · rw [Bool.not_eq_true] at hk
    by_cases hn : f = .newline
    · rw [hn]
      exact ⟨_, .newline⟩
    · exact ⟨_, .mark hk hn⟩

theorem spelling_integer {n : Int64} (h : 0 ≤ n.toInt) :
    Spelling (.integer n) (Nat.toDigits 10 n.toInt.toNat) := by
  refine .integer Nat.toDigits_ne_nil ?_ ?_
  · intro c hc
    exact Nat.isDigit_of_mem_toDigits (by decide) (by decide) hc
  · have value : Decimal.digitsValue (Nat.toDigits 10 n.toInt.toNat) = n.toInt.toNat :=
      Nat.ofDigitChars_ten_toDigits
    have upper := n.toInt_lt
    have range : Number.smallest ≤ n.toInt ∧ n.toInt ≤ Number.largest := by
      rw [Number.smallest, Number.largest]
      omega
    rw [value, Int.toNat_of_nonneg h, Number.checked?, if_pos range, Int64.ofInt_toInt]

/-- A string between double quotes, with a backslash where one is needed. -/
theorem exists_encodes (body : List Char) : ∃ text, Encodes '"' body text := by
  induction body with
  | nil => exact ⟨[], .nil⟩
  | cons c body ih =>
    obtain ⟨text, h⟩ := ih
    by_cases hq : c = '"'
    · rw [hq]
      exact ⟨_, .escaped (e := '"') (by decide) h⟩
    · by_cases hn : c = '\n'
      · rw [hn]
        exact ⟨_, .escaped (e := 'n') (by decide) h⟩
      · by_cases hb : c = '\\'
        · rw [hb]
          exact ⟨_, .escaped (e := '\\') (by decide) h⟩
        · exact ⟨_, .plain hq hn hb h⟩

theorem spelling_str (s : String) : ∃ w, Spelling (.str s) w := by
  obtain ⟨text, h⟩ := exists_encodes s.toList
  rw [← String.ofList_toList (s := s)]
  exact ⟨_, .str (.inl rfl) h⟩

/-! ## Names -/

def IsName (n : String) : Prop :=
  IsIdentifier n.toList ∧ Fixed.keywords.lookup n = none

/-- A name that a method can be called by. Keywords qualify, but `elsif` is not told from `elif`. -/
def IsMethodName (n : String) : Prop :=
  IsIdentifier n.toList ∧ n ≠ "elsif"

theorem spelling_name {n : String} (h : IsName n) : Spelling (.name n) n.toList := by
  have := Spelling.name h.1 (by rw [String.ofList_toList]; exact h.2)
  rwa [String.ofList_toList] at this

theorem spelling_symbol {n : String} (h : IsIdentifier n.toList) :
    Spelling (.symbol n) (':' :: n.toList) := by
  have := Spelling.symbol h
  rwa [String.ofList_toList] at this

theorem spelling_instanceVar {n : String} (h : IsIdentifier n.toList) :
    Spelling (.instanceVar n) ('@' :: n.toList) := by
  have := Spelling.instanceVar h
  rwa [String.ofList_toList] at this

theorem spelling_classVar {n : String} (h : IsIdentifier n.toList) :
    Spelling (.classVar n) ('@' :: '@' :: n.toList) := by
  have := Spelling.classVar h
  rwa [String.ofList_toList] at this

theorem text_of_lookup {n : String} {f : Fixed} (h : Fixed.keywords.lookup n = some f)
    (hn : n ≠ "elsif") : f.text = n := by
  have all : ∀ x ∈ Fixed.keywords, x.1 ≠ "elsif" → x.2.text = x.1 := by decide
  exact all _ (mem_of_lookup h) hn

theorem exists_methodName {n : String} (h : IsMethodName n) :
    ∃ t, t.methodName? = some n ∧ Spelling t n.toList := by
  cases hl : Fixed.keywords.lookup n with
  | none => exact ⟨.name n, rfl, spelling_name ⟨h.1, hl⟩⟩
  | some f =>
    refine ⟨.fixed f, ?_, .keyword h.1 (by rw [String.ofList_toList]; exact hl)⟩
    rw [Token.methodName?, if_pos (isKeyword_of_lookup hl), text_of_lookup hl h.2]

/-! ## Texts with blanks -/

theorem apart_of {a : List Char} {c d : Char} {rest : List Char} (hs : sticks c d = false)
    (hd : d ≠ '.' ∨ c.isDigit = false) : Apart (a ++ [c]) (d :: rest) := by
  refine ⟨fun x hx y hy => ?_, fun all _ _ e => ?_⟩
  · rw [List.getLast?_append, List.getLast?_singleton, Option.some_or] at hx
    cases hx
    cases hy
    exact hs
  · cases e
    rcases hd with hd | hd
    · exact absurd rfl hd
    · rw [all c (by simp)] at hd
      cases hd

/-- The text does not go on with a character that a token in front of it could take. -/
def Loose (text : List Char) : Prop :=
  ∀ d ∈ text.head?, d = ' ' ∨ d = '(' ∨ d = '['

theorem Loose.apart {text : List Char} (h : Loose text) (w : List Char) : Apart w text := by
  refine ⟨fun c _ d hd => ?_, fun _ d r e => ?_⟩
  · rcases h d hd with rfl | rfl | rfl <;> simp [sticks, isIdentRest]
  · rw [e] at h
    rcases h '.' rfl with e | e | e <;> exact absurd e (by decide)

/-- The pieces can be written in front of any text that follows them loosely. -/
def Writable (ps : List Piece) : Prop :=
  ∀ qs rest, Reads rest qs → Loose rest → ∃ text, Reads text (ps ++ qs) ∧ Loose text

theorem writable_nil : Writable [] :=
  fun _ rest h hl => ⟨rest, h, hl⟩

theorem Writable.append {ps qs : List Piece} (hp : Writable ps) (hq : Writable qs) :
    Writable (ps ++ qs) := by
  intro rs rest h hl
  obtain ⟨text, h', hl'⟩ := hq rs rest h hl
  rw [List.append_assoc]
  exact hp _ text h' hl'

theorem Writable.cons {p : Piece} {ps : List Piece} (hp : Writable [p]) (hq : Writable ps) :
    Writable (p :: ps) :=
  hp.append hq

theorem Writable.text {ps : List Piece} (h : Writable ps) : ∃ text, Reads text ps := by
  obtain ⟨text, h', _⟩ := h [] [] (.done .nil (.inl rfl)) (by intro d hd; cases hd)
  rw [List.append_nil] at h'
  exact ⟨text, h'⟩

theorem writable_token {t : Token} {w : List Char} (h : Spelling t w) : Writable [⟨t, false⟩] := by
  intro qs rest hr hl
  refine ⟨' ' :: (w ++ rest), ?_, ?_⟩
  · exact .piece (g := [' ']) (k := []) (.char (.inl rfl) .nil) (.inl rfl) (by intro e; cases e rfl)
      (by intro e; cases e) h (hl.apart w) hr
  · intro d hd
    cases hd
    exact .inl rfl

theorem writable_fixed (f : Fixed) : Writable [⟨.fixed f, false⟩] := by
  obtain ⟨w, h⟩ := spelling_fixed f
  exact writable_token h

theorem writable_touching {f : Fixed} (h : f = .lparen ∨ f = .lbracket) :
    Writable [⟨.fixed f, true⟩] := by
  intro qs rest hr hl
  have hs : Spelling (.fixed f) f.text.toList := by
    rcases h with rfl | rfl
    · exact .mark (by decide) (by decide)
    · exact .mark (by decide) (by decide)
  refine ⟨f.text.toList ++ rest, ?_, ?_⟩
  · exact .piece (g := []) (k := []) .nil (.inl rfl) (by intro e; cases e rfl)
      (fun _ => ⟨rfl, rfl⟩) hs (hl.apart _) hr
  · intro d hd
    rcases h with rfl | rfl
    · cases hd
      exact .inr (.inl rfl)
    · cases hd
      exact .inr (.inr rfl)

theorem sticks_equals {c : Char} (h : isIdentRest c = true) : sticks c '=' = false := by
  have ne : ∀ x, isIdentRest x = false → c ≠ x := by
    intro x hx e
    rw [e, hx] at h
    cases h
  have equals : isIdentRest '=' = false := rfl
  simp [sticks, equals, ne '=' rfl, ne '!' rfl, ne '<' rfl, ne '>' rfl, ne '.' rfl]

theorem writable_setter {t : Token} {w : List Char} (h : Spelling t w) (hw : IsIdentifier w) :
    Writable [⟨t, false⟩, ⟨.fixed .equals, true⟩] := by
  intro qs rest hr hl
  have equals : Reads ('=' :: rest) (⟨.fixed .equals, true⟩ :: qs) :=
    .piece (g := []) (k := []) (w := ['=']) .nil (.inl rfl) (by intro e; cases e rfl)
      (fun _ => ⟨rfl, rfl⟩) (.mark (f := .equals) (by decide) (by decide)) (hl.apart _) hr
  have apart : Apart w ('=' :: rest) := by
    refine ⟨fun c hc d hd => ?_, fun _ d r e => by cases e⟩
    cases hd
    exact sticks_equals (hw.rest c (List.mem_of_getLast? hc))
  refine ⟨' ' :: (w ++ '=' :: rest), ?_, ?_⟩
  · exact .piece (g := [' ']) (k := []) (.char (.inl rfl) .nil) (.inl rfl) (by intro e; cases e rfl)
      (by intro e; cases e) h apart equals
  · intro d hd
    cases hd
    exact .inl rfl

end ObjectLang
