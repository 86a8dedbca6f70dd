import ObjectLang.Proofs.Data.Datum
import ObjectLang.Proofs.Parse.Inverse
import ObjectLang.Proofs.Token.Writing

/-!
# The text of data is read and parsed

The text of a datum consists of its tokens wherever it stands in other data, and the
tokens are parsed to its expression.
-/

namespace ObjectLang

open Parse Grammar Scan

/-! ## Reading -/

/-- What stands behind a datum: the end of the text, or what separates data. -/
def Ends (rest : List Char) : Prop :=
  ∀ c ∈ rest.head?, c = ',' ∨ c = ']' ∨ c = '}' ∨ c = '='

theorem Ends.apart {w rest : List Char} (h : Ends rest)
    (hw : ∀ c ∈ w.getLast?, sticks c '=' = false) : Apart w rest := by
  refine ⟨fun c hc d hd => ?_, fun _ d r e => ?_⟩
  · rcases h d hd with rfl | rfl | rfl | rfl
    · simp [sticks, isIdentRest]
    · simp [sticks, isIdentRest]
    · simp [sticks, isIdentRest]
    · exact hw c hc
  · rw [e] at h
    rcases h '.' rfl with e | e | e | e <;> exact absurd e (by decide)

/-- A text of the pieces, wherever data may stand. -/
structure Legible (text : List Char) (ps : List Piece) : Prop where
  reads : ∀ {rest : List Char} {qs : List Piece}, Reads rest qs → Ends rest →
    Reads (text ++ rest) (ps ++ qs)
  begins : ∃ p qs, ps = p :: qs ∧ p.glued = false
  head : ∃ c r, text = c :: r ∧ c ≠ '='

theorem reads_token {t : Token} {w rest : List Char} {qs : List Piece} (hw : Spelling t w)
    (ha : Apart w rest) (h : Reads rest qs) : Reads (w ++ rest) (tok t :: qs) :=
  .piece (g := []) (k := []) .nil (.inl rfl) (fun e => absurd rfl e) (fun e => by cases e) hw ha h

theorem reads_blank {text : List Char} {ps : List Piece} (h : Reads text ps)
    (hp : ∃ p qs, ps = p :: qs ∧ p.glued = false) : Reads (' ' :: text) ps := by
  obtain ⟨p, qs, rfl, hp⟩ := hp
  cases h with
  | @piece g k w rest _ _ hg hk hkn _ hw ha hr =>
    refine .piece (g := ' ' :: g) (.char (.inl rfl) hg) hk hkn ?_ hw ha hr
    intro e
    rw [hp] at e
    cases e

theorem legible_token {t : Token} {w : List Char} (hw : Spelling t w)
    (hl : ∀ c ∈ w.getLast?, sticks c '=' = false) (hh : ∃ c r, w = c :: r ∧ c ≠ '=') :
    Legible w [tok t] where
  reads h he := reads_token hw (he.apart hl) h
  begins := ⟨_, _, rfl, rfl⟩
  head := hh

theorem legible_ident {t : Token} {w : List Char} (hs : Spelling t w) (hw : IsIdentifier w) :
    Legible w [tok t] := by
  refine legible_token hs (fun c hc => sticks_equals (hw.rest c (List.mem_of_getLast? hc))) ?_
  cases w with
  | nil => exact hw.elim
  | cons c r =>
    refine ⟨c, r, rfl, ?_⟩
    intro e
    rw [e] at hw
    exact absurd hw.1 (by decide)

/-! ### Strings -/

theorem encodes_escapeChar {c : Char} {body text : List Char} (hc : Readable c)
    (h : Encodes '"' body text) : Encodes '"' (c :: body) (Text.escapeChar c ++ text) := by
  obtain ⟨hr, hu⟩ := hc
  unfold Text.escapeChar at hr hu ⊢
  by_cases h0 : c = '\x00'
  · rw [if_pos h0, h0]
    exact .escaped (e := '0') (by decide) h
  rw [if_neg h0] at hr hu ⊢
  by_cases ht : c = '\t'
  · rw [if_pos ht, ht]
    exact .escaped (e := 't') (by decide) h
  rw [if_neg ht] at hr hu ⊢
  by_cases hcr : c = '\r'
  · rw [if_pos hcr] at hr
    exact absurd rfl hr
  rw [if_neg hcr] at hr hu ⊢
  by_cases hn : c = '\n'
  · rw [if_pos hn, hn]
    exact .escaped (e := 'n') (by decide) h
  rw [if_neg hn] at hr hu ⊢
  by_cases hb : c = '\\'
  · rw [if_pos hb, hb]
    exact .escaped (e := '\\') (by decide) h
  rw [if_neg hb] at hr hu ⊢
  by_cases hq : c = '"'
  · rw [if_pos hq, hq]
    exact .escaped (e := '"') (by decide) h
  rw [if_neg hq] at hr hu ⊢
  by_cases hs : Text.isShown c = true
  · rw [if_pos hs]
    exact .plain hq hn hb h
  · rw [if_neg hs] at hu
    exact absurd rfl hu

theorem encodes_escapes {cs : List Char} (h : ∀ c ∈ cs, Readable c) :
    Encodes '"' cs (cs.flatMap Text.escapeChar) := by
  induction cs with
  | nil => exact .nil
  | cons c cs ih =>
    rw [List.flatMap_cons]
    exact encodes_escapeChar (h c List.mem_cons_self)
      (ih fun d hd => h d (List.mem_cons_of_mem _ hd))

theorem legible_str {s : String} (h : ∀ c ∈ s.toList, Readable c) :
    Legible (Datum.str s).text (Datum.str s).pieces := by
  have spelling := Spelling.str (.inl rfl) (encodes_escapes h)
  rw [String.ofList_toList] at spelling
  refine legible_token spelling ?_ ⟨_, _, rfl, by decide⟩
  intro c hc
  rw [Datum.str, Text.quoteChars, List.getLast?_append, List.getLast?_singleton,
    Option.some_or] at hc
  cases hc
  rfl

/-! ### Integers and ranges -/

theorem spelling_digits {n : Int64} (h : 0 ≤ n.toInt) :
    Spelling (.integer n) (Nat.toDigits 10 n.toInt.natAbs) := by
  have e : n.toInt.natAbs = n.toInt.toNat := by omega
  rw [e]
  exact spelling_integer h

theorem toInt_negated {n : Int64} (h : n ≠ Int64.minValue) :
    (Int64.ofInt (-n.toInt)).toInt = -n.toInt := by
  have upper := n.toInt_lt
  have lower := n.le_toInt
  have ne : n.toInt ≠ -2 ^ 63 := by
    intro e
    exact h (Int64.toInt.inj e)
  exact Int64.toInt_ofInt_of_le (by omega) (by omega)

theorem reads_int {n : Int64} (hn : n ≠ Int64.minValue) {rest : List Char} {qs : List Piece}
    (h : Reads rest qs) (ha : ∀ w, (∀ c ∈ w, c.isDigit = true) → Apart w rest) :
    Reads ((Datum.int n).text ++ rest) ((Datum.int n).pieces ++ qs) := by
  have digits : ∀ c ∈ Nat.toDigits 10 n.toInt.natAbs, c.isDigit = true :=
    fun c hc => Nat.isDigit_of_mem_toDigits (by decide) (by decide) hc
  rw [Datum.int]
  by_cases h0 : 0 ≤ n.toInt
  · rw [if_pos h0]
    exact reads_token (spelling_digits h0) (ha _ digits) h
  · rw [if_neg h0]
    have value := toInt_negated hn
    have spelling := spelling_digits (n := Int64.ofInt (-n.toInt)) (by omega)
    rw [value, Int.natAbs_neg] at spelling
    have minus : Spelling (.fixed .minus) ['-'] := .mark (f := .minus) (by decide) (by decide)
    have apart : Apart ['-'] (Nat.toDigits 10 n.toInt.natAbs ++ rest) := by
      refine ⟨?_, ?_⟩
      · intro c hc d _
        cases hc
        simp [sticks, isIdentRest]
      · intro all
        exact absurd (all '-' List.mem_cons_self) (by decide)
    show Reads (['-'] ++ (Nat.toDigits 10 n.toInt.natAbs ++ rest))
      (mark .minus :: tok (.integer (Int64.ofInt (-n.toInt))) :: qs)
    exact reads_token minus apart (reads_token spelling (ha _ digits) h)

theorem sticks_of_digits {w : List Char} (h : ∀ c ∈ w, c.isDigit = true) :
    ∀ c ∈ w.getLast?, sticks c '=' = false :=
  fun c hc => sticks_equals (isIdentRest_of_isDigit (h c (List.mem_of_getLast? hc)))

theorem begins_int (n : Int64) : ∃ p qs, (Datum.int n).pieces = p :: qs ∧ p.glued = false := by
  rw [Datum.int]
  split
  · exact ⟨_, _, rfl, rfl⟩
  · exact ⟨_, _, rfl, rfl⟩

theorem head_int (n : Int64) :
    ∃ c r, (Datum.int n).text = c :: r ∧ (c.isDigit = true ∨ c = '-') := by
  rw [Datum.int]
  split
  · cases e : Nat.toDigits 10 n.toInt.natAbs with
    | nil => exact absurd e Nat.toDigits_ne_nil
    | cons c r =>
      have mem : c ∈ Nat.toDigits 10 n.toInt.natAbs := by
        rw [e]
        exact List.mem_cons_self
      exact ⟨c, r, rfl, .inl (Nat.isDigit_of_mem_toDigits (by decide) (by decide) mem)⟩
  · exact ⟨'-', _, rfl, .inr rfl⟩

theorem head_int_ne {c d : Char} (h : c.isDigit = true ∨ c = '-') (hd : d.isDigit = false)
    (hm : d ≠ '-') : c ≠ d := by
  intro e
  subst e
  rcases h with h | h
  · rw [hd] at h
    cases h
  · exact hm h

theorem legible_int {n : Int64} (h : n ≠ Int64.minValue) :
    Legible (Datum.int n).text (Datum.int n).pieces where
  reads hr he := reads_int h hr fun _ hw => he.apart (sticks_of_digits hw)
  begins := begins_int n
  head := by
    obtain ⟨c, r, e, hc⟩ := head_int n
    exact ⟨c, r, e, head_int_ne hc (by decide) (by decide)⟩

/-- Two points do not continue a number, and neither a digit nor a minus continues them. -/
theorem legible_range {a b : Int64} (ha : a ≠ Int64.minValue) (hb : b ≠ Int64.minValue) :
    Legible (Datum.range a b).text (Datum.range a b).pieces where
  reads {rest qs} hr he := by
    have upper := (legible_int hb).reads hr he
    have dots : Spelling (.fixed .dotDot) ['.', '.'] :=
      .mark (f := .dotDot) (by decide) (by decide)
    have behind : Apart ['.', '.'] ((Datum.int b).text ++ rest) := by
      obtain ⟨c, r, e, hc⟩ := head_int b
      have ne : c ≠ '.' := head_int_ne hc (by decide) (by decide)
      rw [e]
      exact apart_of (a := ['.']) (by simp [sticks, isIdentRest, ne]) (.inl ne)
    have before : ∀ w : List Char, (∀ c ∈ w, c.isDigit = true) →
        Apart w (['.', '.'] ++ ((Datum.int b).text ++ rest)) := by
      intro w hw
      refine ⟨fun c hc d hd => ?_, fun _ d r e => ?_⟩
      · cases hd
        have digit := hw c (List.mem_of_getLast? hc)
        have ne : c ≠ '.' := by
          intro e
          subst e
          cases digit
        simp [sticks, isIdentRest, ne]
      · cases e
        rfl
    have lower := reads_int ha (reads_token dots behind upper) before
    simp only [Datum.range, List.append_assoc, List.cons_append]
    exact lower
  begins := by
    obtain ⟨p, qs, e, hp⟩ := begins_int a
    rw [Datum.range, e]
    exact ⟨p, _, rfl, hp⟩
  head := by
    obtain ⟨c, r, e, hc⟩ := head_int a
    rw [Datum.range, e]
    exact ⟨c, _, rfl, head_int_ne hc (by decide) (by decide)⟩

/-! ### Collections -/

theorem apart_opening {a : Char} (h : a = '[' ∨ a = '{' ∨ a = ',') (rest : List Char) :
    Apart [a] rest := by
  refine ⟨fun c hc d _ => ?_, fun all => ?_⟩
  · cases hc
    rcases h with rfl | rfl | rfl <;> simp [sticks, isIdentRest]
  · have := all a List.mem_cons_self
    rcases h with rfl | rfl | rfl <;> cases this

theorem separated_cons (p : List Piece) (parts : List (List Piece)) :
    ∃ rest, Datum.separated (p :: parts) = p ++ rest := by
  cases parts with
  | nil => exact ⟨[], by simp [Datum.separated]⟩
  | cons q parts => exact ⟨_, List.intercalate_cons_cons.trans (List.append_assoc ..)⟩

theorem reads_joined {xs : List (List Char × List Piece)} (h : ∀ x ∈ xs, Legible x.1 x.2)
    {rest : List Char} {qs : List Piece} (hr : Reads rest qs) (he : Ends rest) :
    Reads (Datum.joined (xs.map (·.1)) ++ rest) (Datum.separated (xs.map (·.2)) ++ qs) := by
  induction xs with
  | nil => exact hr
  | cons x xs ih =>
    have first := h x List.mem_cons_self
    have others := ih fun y hy => h y (List.mem_cons_of_mem _ hy)
    cases xs with
    | nil =>
      have one := first.reads hr he
      simpa [Datum.joined, Datum.separated] using one
    | cons y xs =>
      have begins : ∃ p ps, Datum.separated ((y :: xs).map (·.2)) ++ qs = p :: ps ∧
          p.glued = false := by
        obtain ⟨p, ps, e, hp⟩ := (h y (by simp)).begins
        obtain ⟨more, e'⟩ := separated_cons y.2 (xs.map (·.2))
        refine ⟨p, ps ++ (more ++ qs), ?_, hp⟩
        rw [List.map_cons, e', e]
        simp
      have comma : Spelling (.fixed .comma) [','] := .mark (f := .comma) (by decide) (by decide)
      have behind := reads_token comma (apart_opening (.inr (.inr rfl)) _)
        (reads_blank others begins)
      have ends : Ends ([','] ++ ' ' :: (Datum.joined ((y :: xs).map (·.1)) ++ rest)) := by
        intro c hc
        cases hc
        exact .inl rfl
      have whole := first.reads behind ends
      simpa [Datum.joined, Datum.separated] using whole

theorem legible_listed {f g : Fixed} {a b : Char} (hf : Spelling (.fixed f) [a])
    (hg : Spelling (.fixed g) [b]) (ha : a = '[' ∨ a = '{') (hb : b = ']' ∨ b = '}')
    {xs : List (List Char × List Piece)} (h : ∀ x ∈ xs, Legible x.1 x.2) :
    Legible (a :: (Datum.joined (xs.map (·.1)) ++ [b]))
      (mark f :: (Datum.separated (xs.map (·.2)) ++ [mark g])) where
  reads {rest qs} hr he := by
    have last : ∀ c ∈ [b].getLast?, sticks c '=' = false := by
      intro c hc
      cases hc
      rcases hb with rfl | rfl <;> rfl
    have ends : Ends ([b] ++ rest) := by
      intro c hc
      cases hc
      rcases hb with rfl | rfl
      · exact .inr (.inl rfl)
      · exact .inr (.inr (.inl rfl))
    have inner := reads_joined h (reads_token hg (he.apart last) hr) ends
    have apart : Apart [a] (Datum.joined (xs.map (·.1)) ++ ([b] ++ rest)) :=
      apart_opening (by rcases ha with rfl | rfl <;> simp) _
    have whole := reads_token hf apart inner
    simpa using whole
  begins := ⟨_, _, rfl, rfl⟩
  head := ⟨_, _, rfl, by rcases ha with rfl | rfl <;> decide⟩

theorem legible_entry {x : Datum × Datum} (hk : Legible x.1.text x.1.pieces)
    (hv : Legible x.2.text x.2.pieces) : Legible (Datum.entryText x) (Datum.entryPieces x) where
  reads {rest qs} hr he := by
    obtain ⟨c, r, e, ne⟩ := hv.head
    have arrow : Spelling (.fixed .fatArrow) ['=', '>'] :=
      .mark (f := .fatArrow) (by decide) (by decide)
    have apart : Apart ['=', '>'] (x.2.text ++ rest) := by
      rw [e]
      exact apart_of (a := ['=']) (by simp [sticks, isIdentRest, ne]) (.inr rfl)
    have behind := reads_token arrow apart (hv.reads hr he)
    have ends : Ends (['=', '>'] ++ (x.2.text ++ rest)) := by
      intro c hc
      cases hc
      exact .inr (.inr (.inr rfl))
    have whole := hk.reads behind ends
    simpa [Datum.entryText, Datum.entryPieces] using whole
  begins := by
    obtain ⟨p, qs, e, hp⟩ := hk.begins
    rw [Datum.entryPieces, e]
    exact ⟨p, _, rfl, hp⟩
  head := by
    obtain ⟨c, r, e, hc⟩ := hk.head
    rw [Datum.entryText, e]
    exact ⟨c, _, rfl, hc⟩

section
variable {s : Store} {v : Value} {d : Datum}

theorem Holds.legible (h : Holds s v d) : Legible d.text d.pieces := by
  induction h with
  | nil => exact legible_ident (.keyword (by decide) rfl) (by decide)
  | bool b =>
    cases b with
    | true => exact legible_ident (.keyword (by decide) rfl) (by decide)
    | false => exact legible_ident (.keyword (by decide) rfl) (by decide)
  | int hn => exact legible_int hn
  | str ht => exact legible_str ht
  | @symbol t ht =>
    refine legible_token (spelling_symbol ht) ?_ ⟨_, _, rfl, by decide⟩
    intro c hc
    rw [Datum.symbol, List.getLast?_cons, List.getLast?_eq_some_getLast ht.ne_nil] at hc
    cases hc
    exact sticks_equals (ht.rest _ (List.getLast_mem ht.ne_nil))
  | range ha hb => exact legible_range ha hb
  | @array a items xs _ _ _ ih =>
    have each : ∀ x ∈ (xs.map (·.2)).map fun d => (d.text, d.pieces), Legible x.1 x.2 := by
      intro x hx
      rw [List.map_map] at hx
      obtain ⟨y, hy, rfl⟩ := List.mem_map.mp hx
      exact ih y hy
    have left : Spelling (.fixed .lbracket) ['['] := .mark (f := .lbracket) (by decide) (by decide)
    have right : Spelling (.fixed .rbracket) [']'] := .mark (f := .rbracket) (by decide) (by decide)
    have whole := legible_listed left right (.inl rfl) (.inl rfl) each
    simp only [List.map_map] at whole
    simp only [Datum.array, List.map_map]
    exact whole
  | @hash h t xs _ _ _ _ _ _ ihk ihv =>
    have each : ∀ x ∈ (xs.map fun x => (x.1.2, x.2.2)).map fun x =>
        (Datum.entryText x, Datum.entryPieces x), Legible x.1 x.2 := by
      intro x hx
      rw [List.map_map] at hx
      obtain ⟨y, hy, rfl⟩ := List.mem_map.mp hx
      exact legible_entry (ihk y hy) (ihv y hy)
    have left : Spelling (.fixed .lbrace) ['{'] := .mark (f := .lbrace) (by decide) (by decide)
    have right : Spelling (.fixed .rbrace) ['}'] := .mark (f := .rbrace) (by decide) (by decide)
    have whole := legible_listed left right (.inr rfl) (.inr rfl) each
    simp only [List.map_map] at whole
    simp only [Datum.hash, List.map_map]
    exact whole

end

end ObjectLang
