import Mathlib.Computability.Language
import ObjectLang.Proofs.Token.Spelling

/-!
# Patterns of tokens

The texts that tokens can have, and those that may stand between tokens, are regular languages,
one for each kind. The first character of a text leaves only a few of the kinds.
-/

namespace ObjectLang

open Scan Computability

/-! ## Languages -/

def oneOf (p : Char → Bool) : Language Char := {w | ∃ c, p c = true ∧ w = [c]}

def exactly (s : String) : Language Char := {s.toList}

/-- Digits, at least one. -/
def digits : Language Char :=
  oneOf Char.isDigit * (oneOf Char.isDigit)∗

def identifiers : Language Char :=
  oneOf isIdentStart * (oneOf isIdentRest)∗

/-- A character between quotes, or a backslash with the character behind it. -/
def quotedChar (quote : Char) : Language Char :=
  oneOf (fun c => c ≠ quote && c ≠ '\n' && c ≠ '\\') + oneOf (· = '\\') * oneOf (· ≠ '\n')

def quoted (quote : Char) : Language Char :=
  oneOf (· = quote) * (quotedChar quote)∗ * oneOf (· = quote)

def Fixed.spellings : Fixed → List String
  | elifWord => ["elif", "elsif"]
  | newline => ["\n"]
  | f => [f.text]

/-- The characters that operators, brackets and separators begin with, and the end of a line. -/
def Fixed.marks : List Char :=
  ['+', '-', '*', '/', '=', '!', '<', '>', '(', ')', '[', ']', '{', '}', ',', ';', '.', '|', '\n']

def isBlank (c : Char) : Bool := c = ' ' || c = '\t' || c = '\r' || c = '\x0c'

/-- A kind of token, or of text that is passed over. -/
inductive Pattern where
  | real | integer | doubleQuoted | singleQuoted | symbol | name | instanceVar | classVar
  | fixed (f : Fixed)
  | comment | continuation | blanks

def Pattern.language : Pattern → Language Char
  | real => digits * exactly "." * digits
  | integer => digits
  | doubleQuoted => quoted '"'
  | singleQuoted => quoted '\''
  | symbol => exactly ":" * identifiers
  | name => identifiers
  | instanceVar => exactly "@" * identifiers
  | classVar => exactly "@@" * identifiers
  | fixed f => {w | String.ofList w ∈ f.spellings}
  | comment => exactly "#" * (oneOf (· ≠ '\n'))∗
  | continuation => exactly "\\" * (1 + exactly "\r") * exactly "\n"
  | blanks => oneOf isBlank * (oneOf isBlank)∗

/-- The text matches one of the patterns. -/
def IsMatch (w : List Char) : Prop :=
  ∃ p : Pattern, w ∈ p.language

/-- The text between two tokens. -/
def IsGap (g : List Char) : Prop :=
  g ∈ (Pattern.blanks.language + Pattern.comment.language + Pattern.continuation.language)∗

/-! ## Members -/

theorem mem_oneOf_star {p : Char → Bool} {w : List Char} :
    w ∈ (oneOf p)∗ ↔ ∀ c ∈ w, p c = true := by
  rw [Language.mem_kstar]
  refine ⟨?_, fun h => ⟨w.map fun c => [c], ?_, ?_⟩⟩
  · rintro ⟨L, rfl, hL⟩ c hc
    obtain ⟨v, hv, hc⟩ := List.mem_flatten.mp hc
    obtain ⟨d, hd, rfl⟩ := hL v hv
    rw [List.mem_singleton.mp hc]
    exact hd
  · rw [← List.flatMap_def, List.flatMap_singleton']
  · intro v hv
    obtain ⟨c, hc, rfl⟩ := List.mem_map.mp hv
    exact ⟨c, h c hc, rfl⟩

/-- One character and then a run of others. -/
theorem mem_oneOf_mul {p : Char → Bool} {l : Language Char} {w : List Char} :
    w ∈ oneOf p * l ↔ ∃ c r, w = c :: r ∧ p c = true ∧ r ∈ l := by
  rw [Language.mem_mul]
  constructor
  · rintro ⟨_, ⟨c, hc, rfl⟩, r, hr, rfl⟩
    exact ⟨c, r, rfl, hc, hr⟩
  · rintro ⟨c, r, rfl, hc, hr⟩
    exact ⟨[c], ⟨c, hc, rfl⟩, r, hr, rfl⟩

theorem mem_exactly_mul {s : String} {l : Language Char} {w : List Char} :
    w ∈ exactly s * l ↔ ∃ r ∈ l, w = s.toList ++ r := by
  rw [Language.mem_mul]
  constructor
  · rintro ⟨_, rfl, r, hr, rfl⟩
    exact ⟨r, hr, rfl⟩
  · rintro ⟨r, hr, rfl⟩
    exact ⟨s.toList, rfl, r, hr, rfl⟩

theorem mem_digits {w : List Char} : w ∈ digits ↔ w ≠ [] ∧ ∀ c ∈ w, c.isDigit = true := by
  rw [digits, mem_oneOf_mul]
  constructor
  · rintro ⟨c, r, rfl, hc, hr⟩
    exact ⟨List.cons_ne_nil _ _, List.forall_mem_cons.mpr ⟨hc, mem_oneOf_star.mp hr⟩⟩
  · rintro ⟨hne, hw⟩
    obtain ⟨c, r, rfl⟩ := List.exists_cons_of_ne_nil hne
    obtain ⟨hc, hr⟩ := List.forall_mem_cons.mp hw
    exact ⟨c, r, rfl, hc, mem_oneOf_star.mpr hr⟩

theorem mem_identifiers {w : List Char} : w ∈ identifiers ↔ IsIdentifier w := by
  rw [identifiers, mem_oneOf_mul]
  constructor
  · rintro ⟨c, r, rfl, hc, hr⟩
    exact ⟨hc, mem_oneOf_star.mp hr⟩
  · intro h
    cases w with
    | nil => exact h.elim
    | cons c r => exact ⟨c, r, rfl, h.1, mem_oneOf_star.mpr h.2⟩

theorem mem_real {w : List Char} : w ∈ Pattern.real.language ↔
    ∃ whole ∈ digits, ∃ fraction ∈ digits, w = whole ++ '.' :: fraction := by
  rw [Pattern.language, mul_assoc, Language.mem_mul]
  constructor
  · rintro ⟨whole, hw, r, hr, rfl⟩
    obtain ⟨fraction, hf, rfl⟩ := mem_exactly_mul.mp hr
    exact ⟨whole, hw, fraction, hf, rfl⟩
  · rintro ⟨whole, hw, fraction, hf, rfl⟩
    exact ⟨whole, hw, _, mem_exactly_mul.mpr ⟨fraction, hf, rfl⟩, rfl⟩

theorem blank_mem {c : Char} (h : isBlank c = true) : [c] ∈ Pattern.blanks.language :=
  mem_oneOf_mul.mpr ⟨c, [], rfl, h, Language.nil_mem_kstar _⟩

theorem comment_mem {r : List Char} (h : '\n' ∉ r) : '#' :: r ∈ Pattern.comment.language :=
  mem_exactly_mul.mpr ⟨r, mem_oneOf_star.mpr fun _ hc => decide_eq_true fun e => h (e ▸ hc), rfl⟩

theorem continuation_mem {w : List Char} (h : w = ['\\', '\n'] ∨ w = ['\\', '\r', '\n']) :
    w ∈ Pattern.continuation.language := by
  rcases h with rfl | rfl
  · exact Language.append_mem_mul (a := ['\\']) (b := ['\n'])
      (Language.append_mem_mul (a := ['\\']) (b := []) rfl (.inl rfl)) rfl
  · exact Language.append_mem_mul (a := ['\\', '\r']) (b := ['\n'])
      (Language.append_mem_mul (a := ['\\']) (b := ['\r']) rfl (.inr rfl)) rfl

/-! ### Strings -/

/-- The content of a string, its backslashes resolved from left to right. -/
def resolved : List Char → List Char
  | '\\' :: e :: text => unescape e :: resolved text
  | c :: text => c :: resolved text
  | [] => []

theorem Encodes.resolved {quote : Char} {body text : List Char} (h : Encodes quote body text) :
    body = resolved text := by
  induction h with
  | nil => rfl
  | plain _ _ hb _ ih =>
    rw [ObjectLang.resolved.eq_2 _ _ fun _ _ e _ => hb e, ← ih]
  | escaped _ _ ih => rw [ObjectLang.resolved, ← ih]

theorem append_mem_star {l : Language Char} {a b : List Char} (ha : a ∈ l) (hb : b ∈ l∗) :
    a ++ b ∈ l∗ :=
  Set.mem_of_mem_of_subset (Language.append_mem_mul ha hb) (mul_kstar_le_kstar (a := l))

theorem mem_quotedChar_star {quote : Char} {text : List Char} :
    text ∈ (quotedChar quote)∗ ↔ ∃ body, Encodes quote body text := by
  constructor
  · intro h
    obtain ⟨L, rfl, hL⟩ := Language.mem_kstar.mp h
    clear h
    induction L with
    | nil => exact ⟨[], .nil⟩
    | cons a L ih =>
      obtain ⟨ha, hL⟩ := List.forall_mem_cons.mp hL
      obtain ⟨body, hb⟩ := ih hL
      rcases ha with ⟨c, hc, rfl⟩ | ha
      · simp only [Bool.and_eq_true, decide_eq_true_eq] at hc
        exact ⟨_, .plain hc.1.1 hc.1.2 hc.2 hb⟩
      · obtain ⟨_, _, rfl, hs, e, he, rfl⟩ := mem_oneOf_mul.mp ha
        rw [of_decide_eq_true hs]
        exact ⟨_, .escaped (of_decide_eq_true he) hb⟩
  · rintro ⟨body, h⟩
    induction h with
    | nil => exact Language.nil_mem_kstar _
    | @plain c body text hq hn hb _ ih =>
      exact append_mem_star (a := [c]) (.inl ⟨c, by simp [hq, hn, hb], rfl⟩) ih
    | @escaped e body text he _ ih =>
      refine append_mem_star (a := ['\\', e]) (.inr (mem_oneOf_mul.mpr ?_)) ih
      exact ⟨'\\', [e], rfl, rfl, e, decide_eq_true he, rfl⟩

/-- What stands between the quotes is the encoding of some content. -/
theorem mem_quoted {quote : Char} {w : List Char} :
    w ∈ quoted quote ↔ ∃ body text, Encodes quote body text ∧ w = quote :: (text ++ [quote]) := by
  rw [quoted, mul_assoc, mem_oneOf_mul]
  constructor
  · rintro ⟨c, r, rfl, hc, hr⟩
    obtain ⟨text, ht, _, ⟨d, hd, rfl⟩, rfl⟩ := Language.mem_mul.mp hr
    obtain ⟨body, hb⟩ := mem_quotedChar_star.mp ht
    rw [of_decide_eq_true hc, of_decide_eq_true hd]
    exact ⟨body, text, hb, rfl⟩
  · rintro ⟨body, text, hb, rfl⟩
    have ht := mem_quotedChar_star.mpr ⟨body, hb⟩
    exact ⟨quote, _, rfl, decide_eq_true rfl, Language.append_mem_mul ht ⟨quote, decide_eq_true rfl, rfl⟩⟩

/-! ## First characters -/

inductive Opening where
  | letter | digit | blank | mark | doubleQuote | singleQuote | colon | atSign | hash | backslash
  | other
  deriving DecidableEq

def Opening.of (c : Char) : Opening :=
  if isIdentStart c then .letter
  else if c.isDigit then .digit
  else if isBlank c then .blank
  else match c with
    | '"' => .doubleQuote
    | '\'' => .singleQuote
    | ':' => .colon
    | '@' => .atSign
    | '#' => .hash
    | '\\' => .backslash
    | c => if Fixed.marks.contains c then .mark else .other

def Pattern.opening : Pattern → Opening
  | real | integer => .digit
  | doubleQuoted => .doubleQuote
  | singleQuoted => .singleQuote
  | symbol => .colon
  | name => .letter
  | instanceVar | classVar => .atSign
  | fixed f => if f.isKeyword then .letter else if f = .doubleColon then .colon else .mark
  | comment => .hash
  | continuation => .backslash
  | blanks => .blank

/-- What the characters have in common that open alike. -/
def Opening.Holds (c : Char) : Opening → Prop
  | letter => isIdentStart c = true
  | digit => c.isDigit = true
  | blank => isBlank c = true
  | mark => c ∈ Fixed.marks
  | doubleQuote => c = '"'
  | singleQuote => c = '\''
  | colon => c = ':'
  | atSign => c = '@'
  | hash => c = '#'
  | backslash => c = '\\'
  | other => True

theorem Opening.holds_of (c : Char) : (Opening.of c).Holds c := by
  unfold Opening.of
  repeat' split
  all_goals first | assumption | rfl | trivial | exact List.contains_iff_mem.mp (by assumption)

theorem opening_letter {c : Char} (h : isIdentStart c = true) : Opening.of c = .letter := by
  unfold Opening.of
  exact if_pos h

theorem opening_digit {c : Char} (h : c.isDigit = true) : Opening.of c = .digit := by
  have no : ¬isIdentStart c = true := by
    intro hs
    rw [isDigit_of_identStart hs] at h
    cases h
  unfold Opening.of
  rw [if_neg no, if_pos h]

theorem opening_blank {c : Char} (h : isBlank c = true) : Opening.of c = .blank := by
  simp only [isBlank, Bool.or_eq_true, decide_eq_true_eq] at h
  rcases h with ((rfl | rfl) | rfl) | rfl <;> rfl

theorem exists_spelling {f : Fixed} {w : List Char} (h : w ∈ (Pattern.fixed f).language) :
    ∃ s ∈ f.spellings, w = s.toList :=
  ⟨_, h, String.toList_ofList.symm⟩

theorem mem_spellings_of_lookup {s : String} {f : Fixed}
    (h : Fixed.keywords.lookup s = some f) : s ∈ f.spellings := by
  have all : ∀ x ∈ Fixed.keywords, x.1 ∈ x.2.spellings := by decide
  exact all _ (mem_of_lookup h)

theorem opening_spelling : ∀ f : Fixed, ∀ s ∈ f.spellings,
    s.toList.head?.map Opening.of = some (Pattern.fixed f).opening := by
  intro f
  cases f <;> decide

/-- A text that matches a pattern begins as this pattern does. -/
theorem opening_of_mem {p : Pattern} {w : List Char} (h : w ∈ p.language) :
    ∃ c r, w = c :: r ∧ Opening.of c = p.opening := by
  have digit : ∀ {w : List Char}, w ∈ digits → ∃ c r, w = c :: r ∧ Opening.of c = .digit := by
    intro w hw
    obtain ⟨c, r, rfl, hc, _⟩ := mem_oneOf_mul.mp hw
    exact ⟨c, r, rfl, opening_digit hc⟩
  cases p with
  | integer => exact digit h
  | real =>
    obtain ⟨whole, hw, fraction, _, rfl⟩ := mem_real.mp h
    obtain ⟨c, r, rfl, hc⟩ := digit hw
    exact ⟨c, _, rfl, hc⟩
  | doubleQuoted | singleQuoted =>
    obtain ⟨_, text, _, rfl⟩ := mem_quoted.mp h
    exact ⟨_, _, rfl, rfl⟩
  | symbol | instanceVar | classVar | comment =>
    obtain ⟨r, _, rfl⟩ := mem_exactly_mul.mp h
    exact ⟨_, _, rfl, rfl⟩
  | continuation =>
    rw [Pattern.language, mul_assoc] at h
    obtain ⟨r, _, rfl⟩ := mem_exactly_mul.mp h
    exact ⟨_, _, rfl, rfl⟩
  | name =>
    obtain ⟨c, r, rfl, hc, _⟩ := mem_oneOf_mul.mp h
    exact ⟨c, r, rfl, opening_letter hc⟩
  | blanks =>
    obtain ⟨c, r, rfl, hc, _⟩ := mem_oneOf_mul.mp h
    exact ⟨c, r, rfl, opening_blank hc⟩
  | fixed f =>
    obtain ⟨s, hs, rfl⟩ := exists_spelling h
    obtain ⟨c, hc, e⟩ := Option.map_eq_some_iff.mp (opening_spelling f s hs)
    obtain ⟨r, hr⟩ := List.head?_eq_some_iff.mp hc
    exact ⟨c, r, hr, e⟩

end ObjectLang
