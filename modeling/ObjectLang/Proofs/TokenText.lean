import ObjectLang.Proofs.Data.Text
import ObjectLang.Proofs.Parse.Paired

/-!
# The texts of tokens

Tokens shown one behind the other with spaces between them are read again as they were. A string is
among them unless a character of it is shown by its number or is a carriage return, for these two
are escapes that reading does not know.
-/

namespace ObjectLang

open Scan

/-! ## Tokens that are read again -/

/-- The token can stand within a line, has no minus in front of it, and its payload is one that the
reader can find. -/
inductive Restorable : Token → Prop where
  | integer {n : Int64} : 0 ≤ n.toInt → Restorable (.integer n)
  | str {s : String} : (∀ c ∈ s.toList, Readable c) → Restorable (.str s)
  | symbol {s : String} : IsIdentifier s.toList → Restorable (.symbol s)
  | name {s : String} : IsName s → Restorable (.name s)
  | instanceVar {s : String} : IsIdentifier s.toList → Restorable (.instanceVar s)
  | classVar {s : String} : IsIdentifier s.toList → Restorable (.classVar s)
  | fixed {f : Fixed} : f ≠ .newline → Restorable (.fixed f)

theorem spelling_fixed_text {f : Fixed} (h : f ≠ .newline) :
    Spelling (.fixed f) f.text.toList := by
  by_cases word : f.isKeyword = true
  · refine .keyword ?_ ?_
    · cases f <;> first | exact absurd word (by decide) | decide
    · cases f <;> first | exact absurd word (by decide) | rfl
  · exact .mark (Bool.not_eq_true _ ▸ word) h

theorem toList_quote (s : String) :
    (Text.quote s).toList = '"' :: s.toList.flatMap Text.escapeChar ++ ['"'] :=
  String.toList_ofList

theorem Restorable.spelling {t : Token} (h : Restorable t) : Spelling t t.text.toList := by
  cases h with
  | @integer n nonneg =>
    obtain ⟨m, hm⟩ := Int.eq_ofNat_of_zero_le nonneg
    have digits : (toString n.toInt).toList = Nat.toDigits 10 n.toInt.toNat := by
      rw [hm]
      exact Nat.toList_repr
    rw [Token.text, digits]
    exact spelling_integer nonneg
  | @str s readable =>
    have quoted := Spelling.str (.inl rfl) (encodes_escapes readable)
    rw [String.ofList_toList] at quoted
    rw [Token.text, toList_quote]
    exact quoted
  | symbol ident =>
    rw [Token.text, String.toList_append]
    exact spelling_symbol ident
  | name ident => exact spelling_name ident
  | instanceVar ident =>
    rw [Token.text, String.toList_append]
    exact spelling_instanceVar ident
  | classVar ident =>
    rw [Token.text, String.toList_append]
    exact spelling_classVar ident
  | fixed within => exact spelling_fixed_text within

theorem Restorable.within {t : Token} (h : Restorable t) : t ≠ .fixed .newline := by
  cases h with
  | fixed within => exact fun e => within (Token.fixed.inj e)
  | _ => nofun

/-! ## Texts on one line -/

namespace TokenStream

variable {t : Token} {w rest : List Char}

theorem lineAfter_within (line : Nat) (h : t ≠ .fixed .newline) :
    lineAfter line (.token t) = line := by
  unfold lineAfter
  split
  · next e => exact absurd (Item.token.inj e) h
  · rfl

/-- A token is read on its line, and counts as spaced if there is a space. -/
theorem next_spelling (line : Nat) (h : Spelling t w) (within : t ≠ .fixed .newline)
    (apart : Apart w rest) :
    next ⟨w ++ rest, line, []⟩ = (.ok (some ⟨t, line, false⟩), ⟨rest, line, []⟩) ∧
    next ⟨' ' :: (w ++ rest), line, []⟩ = (.ok (some ⟨t, line, true⟩), ⟨rest, line, []⟩) := by
  obtain ⟨c, r, e, begins⟩ := h.begins
  have front (b : Bool) : skip line b (w ++ rest) = ⟨c :: (r ++ rest), line, b⟩ := by
    rw [e, List.cons_append, skip_token begins]
  have spaced : skip line false (' ' :: (w ++ rest)) = ⟨c :: (r ++ rest), line, true⟩ := by
    rw [skip, front]
  have item := itemAt_spelling e h apart
  constructor
  · have reads := read_token (s := ⟨w ++ rest, line, []⟩) (congrArg Gap.rest (front false)) item
    rwa [front, lineAfter_within line within] at reads
  · have reads := read_token (s := ⟨' ' :: (w ++ rest), line, []⟩) (congrArg Gap.rest spaced) item
    rwa [spaced, lineAfter_within line within] at reads

theorem loose_spaced (ts : List Token) : Loose (ts.flatMap fun t => ' ' :: t.text.toList) := by
  intro d hd
  cases ts with
  | nil => cases hd
  | cons _ _ => exact .inl (Option.some.inj hd).symm

theorem lists_spaced (line : Nat) : ∀ ts : List Token, (∀ t ∈ ts, Restorable t) →
    Lists ⟨ts.flatMap fun t => ' ' :: t.text.toList, line, []⟩ (ts.map (⟨·, line, true⟩))
  | [], _ => ⟨_, rfl⟩
  | t :: ts, h => by
    have here := h t List.mem_cons_self
    exact ⟨_, (next_spelling line here.spelling here.within ((loose_spaced ts).apart _)).2,
      lists_spaced line ts fun u hu => h u (List.mem_cons_of_mem _ hu)⟩

end TokenStream

/-- Lexemes of tokens on the first line with spaces between them. -/
def onOneLine : List Token → List Lexeme
  | [] => []
  | t :: ts => ⟨t, 1, false⟩ :: ts.map (⟨·, 1, true⟩)

theorem toList_spaced (w : String) (ws : List String) :
    (" ".intercalate (w :: ws)).toList = w.toList ++ ws.flatMap fun v => ' ' :: v.toList := by
  rw [String.toList_intercalate]
  induction ws generalizing w with
  | nil => simp
  | cons v ws ih =>
    rw [List.map_cons, List.map_cons, List.intercalate_cons_cons, ← List.map_cons, ih v,
      List.flatMap_cons, List.append_assoc]
    rfl

theorem lists_texts {ts : List Token} (h : ∀ t ∈ ts, Restorable t) :
    (TokenStream.ofString (" ".intercalate (ts.map Token.text))).Lists (onOneLine ts) := by
  cases ts with
  | nil => exact ⟨_, rfl⟩
  | cons t ts =>
    have here := h t List.mem_cons_self
    have others := TokenStream.lists_spaced 1 ts fun u hu => h u (List.mem_cons_of_mem _ hu)
    have first := (TokenStream.next_spelling 1 here.spelling here.within
      ((TokenStream.loose_spaced ts).apart _)).1
    rw [TokenStream.ofString, List.map_cons, toList_spaced, List.flatMap_map]
    exact ⟨_, first, others⟩

/-! ## Strings in general -/

/-- What the text of a character within quotes is read as. -/
def reread (c : Char) : List Char :=
  if Text.escapeChar c = ['\\', 'r'] then ['r']
  else if Text.escapeChar c = Text.numberEscape c then (Text.numberEscape c).tail
  else [c]

section
variable {c : Char} {body text w : List Char}

theorem reread_readable (h : Readable c) : reread c = [c] := by
  rw [reread, if_neg h.1, if_neg h.2]

theorem reread_cons (c : Char) : ∃ d r, reread c = d :: r := by
  unfold reread
  split
  · exact ⟨_, _, rfl⟩
  split
  · exact ⟨_, _, rfl⟩
  · exact ⟨_, _, rfl⟩

theorem mem_toDigits {b n : Nat} (hb : 1 < b) (h : c ∈ b.toDigits n) :
    ∃ d, c = Nat.digitChar d := by
  induction n using Nat.strongRecOn with
  | ind n ih =>
    rw [Nat.toDigits_eq_if hb] at h
    split at h
    · exact ⟨n, List.mem_singleton.mp h⟩
    · next large =>
      rcases List.mem_append.mp h with h | h
      · exact ih (n / b) (Nat.div_lt_self (by omega) hb) h
      · exact ⟨_, List.mem_singleton.mp h⟩

theorem encodes_plain (plain : ∀ c ∈ w, c ≠ '"' ∧ c ≠ '\n' ∧ c ≠ '\\')
    (h : Encodes '"' body text) : Encodes '"' (w ++ body) (w ++ text) := by
  induction w with
  | nil => exact h
  | cons c w ih =>
    obtain ⟨quote, line, back⟩ := plain c List.mem_cons_self
    exact .plain quote line back (ih fun d hd => plain d (List.mem_cons_of_mem _ hd))

theorem encodes_numberEscape (c : Char) (h : Encodes '"' body text) :
    Encodes '"' ((Text.numberEscape c).tail ++ body) (Text.numberEscape c ++ text) := by
  have digits : ∀ d ∈ Nat.toDigits 16 c.toNat, d ≠ '"' ∧ d ≠ '\n' ∧ d ≠ '\\' := by
    intro d hd
    obtain ⟨n, rfl⟩ := mem_toDigits (by decide) hd
    exact ⟨Nat.digitChar_ne _ rfl, Nat.digitChar_ne _ rfl, Nat.digitChar_ne _ rfl⟩
  have inner := encodes_plain (w := '{' :: (Nat.toDigits 16 c.toNat ++ ['}'])) (by
    intro d hd
    simp only [List.mem_cons, List.mem_append, List.not_mem_nil, or_false] at hd
    rcases hd with rfl | hd | rfl
    · decide
    · exact digits d hd
    · decide) h
  exact .escaped (e := 'u') (by decide) inner

theorem encodes_reread (c : Char) (h : Encodes '"' body text) :
    Encodes '"' (reread c ++ body) (Text.escapeChar c ++ text) := by
  by_cases carriage : Text.escapeChar c = ['\\', 'r']
  · rw [reread, if_pos carriage, carriage]
    exact .escaped (e := 'r') (by decide) h
  by_cases numbered : Text.escapeChar c = Text.numberEscape c
  · rw [reread, if_neg carriage, if_pos numbered, numbered]
    exact encodes_numberEscape c h
  · rw [reread_readable ⟨carriage, numbered⟩]
    exact encodes_escapeChar ⟨carriage, numbered⟩ h

theorem encodes_rereads (cs : List Char) :
    Encodes '"' (cs.flatMap reread) (cs.flatMap Text.escapeChar) := by
  induction cs with
  | nil => exact .nil
  | cons c cs ih => exact encodes_reread c ih

/-- An escape that is not known begins with a letter that would have been shown as it is. -/
theorem readable_of_head (h : (reread c).head? = some c) : Readable c := by
  by_cases carriage : Text.escapeChar c = ['\\', 'r']
  · rw [reread, if_pos carriage] at h
    rw [← Option.some.inj h] at carriage
    exact absurd carriage (by decide)
  by_cases numbered : Text.escapeChar c = Text.numberEscape c
  · rw [reread, if_neg carriage, if_pos numbered] at h
    rw [← Option.some.inj h] at numbered
    exact absurd numbered (by decide)
  · exact ⟨carriage, numbered⟩

theorem rereads_eq_iff {cs : List Char} :
    cs.flatMap reread = cs ↔ ∀ c ∈ cs, Readable c := by
  induction cs with
  | nil => simp
  | cons c cs ih =>
    rw [List.flatMap_cons, List.forall_mem_cons]
    constructor
    · intro e
      have head : (reread c).head? = some c := by
        obtain ⟨d, r, hr⟩ := reread_cons c
        rw [hr] at e ⊢
        exact congrArg some (List.cons.inj e).1
      have readable := readable_of_head head
      rw [reread_readable readable] at e
      exact ⟨readable, ih.mp (List.cons.inj e).2⟩
    · rintro ⟨here, others⟩
      rw [reread_readable here, ih.mpr others]
      rfl

end

/-- The text of a string is read as one string. -/
theorem lists_quote (s : String) :
    (TokenStream.ofString (Token.str s).text).Lists
      [⟨.str (String.ofList (s.toList.flatMap reread)), 1, false⟩] := by
  have spelling := Spelling.str (.inl rfl) (encodes_rereads s.toList)
  have nothing : Loose [] := nofun
  have reads := (TokenStream.next_spelling 1 spelling nofun (nothing.apart _)).1
  rw [List.append_nil] at reads
  rw [TokenStream.ofString, Token.text, toList_quote]
  exact ⟨_, reads, _, rfl⟩

/-- The texts of tokens with spaces between them are read as these tokens. A string within its
quotes is always read as one string, which is the same one if no character of it is shown as `\r`
or by its number. -/
theorem texts_lex_back :
    (∀ ts : List Token, (∀ t ∈ ts, Restorable t) →
      (TokenStream.ofString (" ".intercalate (ts.map Token.text))).Lists (onOneLine ts)) ∧
    ∀ s : String, ∃ p, (TokenStream.ofString (Token.str s).text).Lists [⟨.str p, 1, false⟩] ∧
      (p = s ↔ ∀ c ∈ s.toList, Readable c) := by
  refine ⟨fun ts h => lists_texts h, fun s => ⟨_, lists_quote s, ?_⟩⟩
  rw [← String.toList_inj, String.toList_ofList]
  exact rereads_eq_iff

/-- Two signs that could be one are kept apart. -/
theorem texts_lex_back_signs :
    (∀ t ∈ [Token.fixed .equals, .fixed .equalEqual], Restorable t) ∧
    (TokenStream.ofString "= ==").Lists
      [⟨.fixed .equals, 1, false⟩, ⟨.fixed .equalEqual, 1, true⟩] :=
  have restorable : ∀ t ∈ [Token.fixed .equals, .fixed .equalEqual], Restorable t := by
    intro t ht
    rw [List.mem_cons, List.mem_singleton] at ht
    rcases ht with rfl | rfl
    · exact .fixed (by decide)
    · exact .fixed (by decide)
  ⟨restorable, texts_lex_back.1 _ restorable⟩

end ObjectLang
