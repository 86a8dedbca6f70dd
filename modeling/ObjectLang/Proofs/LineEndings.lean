import Mathlib
import ObjectLang.Proofs.Parse.Correspondence
import ObjectLang.Proofs.Token.Tiles

/-!
# Ends of lines and comments

A carriage return in front of the end of a line is one more blank, or belongs to a joined line or a
comment, and a comment ends where its line ends. So texts that differ in these have the same tokens
on the same lines. Only whether something stands in front of the end of a line can change with
them, and no rule of the grammar asks for that.
-/

namespace ObjectLang

open Scan Parse

/-- The second text has carriage returns in front of some ends of lines of the first. -/
inductive Returned : List Char → List Char → Prop where
  | nil : Returned [] []
  | keep (c : Char) {l l' : List Char} : Returned l l' → Returned (c :: l) (c :: l')
  | carriage {l l' : List Char} : Returned l l' → Returned ('\n' :: l) ('\r' :: '\n' :: l')

/-- The second text is the first without some of its comments. Comments stand between tokens, which
are taken one after the other from the front, so a `#` in a string begins none. -/
inductive Uncommented : List Char → List Char → Prop where
  | done {g k k' : List Char} : Blank g → Comment k → k' = k ∨ k' = [] →
      Uncommented (g ++ k) (g ++ k')
  | line {g k k' l l' : List Char} : Blank g → Comment k → k' = k ∨ k' = [] → Uncommented l l' →
      Uncommented (g ++ (k ++ '\n' :: l)) (g ++ (k' ++ '\n' :: l'))
  | token {g r w l l' : List Char} {c : Char} {t : Token} : Blank g → itemAt c r = (.token t, l) →
      t ≠ .fixed .newline → c :: r = w ++ l → Uncommented l l' →
      Uncommented (g ++ (w ++ l)) (g ++ (w ++ l'))

/-! ## Carriage returns -/

section
variable {a a' b g k l l' : List Char}

theorem Returned.append_inv : ∀ {a l' : List Char}, Returned (a ++ b) l' →
    ∃ a' b', l' = a' ++ b' ∧ Returned a a' ∧ Returned b b'
  | [], l', h => ⟨[], l', rfl, .nil, h⟩
  | c :: a, _, .keep _ h => by
    obtain ⟨a', b', rfl, ha, hb⟩ := h.append_inv
    exact ⟨c :: a', b', rfl, .keep c ha, hb⟩
  | _ :: a, _, .carriage h => by
    obtain ⟨a', b', rfl, ha, hb⟩ := h.append_inv
    exact ⟨'\r' :: '\n' :: a', b', rfl, .carriage ha, hb⟩

theorem Returned.eq_self (h : Returned a a') (line : '\n' ∉ a) : a' = a := by
  induction h with
  | nil => rfl
  | keep c _ ih => rw [ih fun mem => line (List.mem_cons_of_mem c mem)]
  | carriage => exact absurd List.mem_cons_self line

theorem Returned.count (h : Returned a a') : a'.count '\n' = a.count '\n' := by
  induction h with
  | nil => rfl
  | keep c _ ih => simp [List.count_cons, ih]
  | carriage _ ih => simp [ih]

theorem Returned.isEmpty (h : Returned a a') : a'.isEmpty = a.isEmpty := by
  cases h <;> rfl

theorem Blank.append (h : Blank g) (hb : Blank b) : Blank (g ++ b) := by
  induction h with
  | nil => exact hb
  | char hc _ ih => exact .char hc ih
  | line _ ih => exact .line ih
  | carriage _ ih => exact .carriage ih

theorem Returned.blank (h : Blank g) (free : '\r' ∉ g) : ∀ {g' : List Char}, Returned g g' →
    Blank g' := by
  induction h with
  | nil =>
    intro g' h
    cases h
    exact .nil
  | @char c g hc _ ih =>
    intro g' h
    cases h with
    | keep _ h => exact .char hc (ih (fun mem => free (List.mem_cons_of_mem c mem)) h)
    | carriage => exact absurd hc (by decide)
  | line _ ih =>
    intro g' h
    -- The carriage return can only stand behind the backslash.
    cases h with
    | keep _ h =>
      cases h with
      | keep _ h => exact .line (ih (fun mem => free (by simp [mem])) h)
      | carriage h => exact .carriage (ih (fun mem => free (by simp [mem])) h)
  | carriage => exact absurd (by simp) free

theorem Comment.line_not_mem (h : Comment k) : '\n' ∉ k := by
  rcases h with rfl | ⟨r, rfl, hr⟩
  · exact List.not_mem_nil
  · simpa using hr

/-- A carriage return in front of the end of a line goes to the comment there, or to the blanks. -/
theorem Returned.line_inv (hg : Blank g) (hk : Comment k) (free : '\r' ∉ g)
    (h : Returned (g ++ (k ++ '\n' :: b)) l') : ∃ g' k' b', l' = g' ++ (k' ++ '\n' :: b') ∧
      Blank g' ∧ Comment k' ∧ g'.count '\n' = g.count '\n' ∧ Returned b b' := by
  obtain ⟨g', _, rfl, hg', behind⟩ := h.append_inv
  obtain ⟨k', _, rfl, hk', line⟩ := behind.append_inv
  have blank := Returned.blank hg free hg'
  rw [hk'.eq_self hk.line_not_mem]
  cases line with
  | keep _ rest => exact ⟨g', k, _, rfl, blank, hk, hg'.count, rest⟩
  | @carriage _ b' rest =>
    rcases hk with rfl | ⟨r, rfl, hr⟩
    · have more : Blank (g' ++ ['\r']) := blank.append (.char (by simp) .nil)
      exact ⟨g' ++ ['\r'], [], b', by simp, more, .inl rfl, by simp [hg'.count], rest⟩
    · exact ⟨g', '#' :: (r ++ ['\r']), b', by simp, blank, .inr ⟨_, rfl, by simp [hr]⟩,
        hg'.count, rest⟩

end

/-! ## Tokens in front of a fence -/

section
variable {c quote : Char} {a u body : List Char} {t : Token}

theorem stringBody?_behind (hq : quote ≠ '\\') (x : List Char) :
    stringBody? quote (u ++ x) = some (body, a ++ x) ↔ stringBody? quote u = some (body, a) := by
  constructor
  · intro h
    obtain ⟨text, e, encodes⟩ := stringBody?_encoded h
    rw [← List.cons_append, ← List.append_assoc] at e
    rw [List.append_cancel_right e]
    exact stringBody?_encodes hq encodes a
  · intro h
    obtain ⟨text, rfl, encodes⟩ := stringBody?_encoded h
    rw [List.append_assoc]
    exact stringBody?_encodes hq encodes (a ++ x)

theorem string_token {r after : List Char} : string quote r = (.token t, after) ↔
    ∃ body, stringBody? quote r = some (body, after) ∧ t = .str (String.ofList body) := by
  unfold string
  cases stringBody? quote r with
  | none => simp [stray]
  | some found =>
    obtain ⟨body, behind⟩ := found
    simp [and_comm, eq_comm]

theorem itemAt_quote (hq : c = '"' ∨ c = '\'') (r : List Char) : itemAt c r = string c r := by
  rcases hq with rfl | rfl <;> rfl

theorem itemAt_gap (hc : beginsGap c = true) (r : List Char) : itemAt c r = strayText c r := by
  simp only [beginsGap, Bool.or_eq_true, decide_eq_true_eq] at hc
  rcases hc with ((((rfl | rfl) | rfl) | rfl) | rfl) | rfl <;> cases r <;> rfl

theorem strayText_ne_token (c : Char) (r after : List Char) :
    strayText c r ≠ (.token t, after) := by
  unfold strayText
  split <;> simp [stray]

theorem strayText_of_ne (hc : c ≠ '\\') (r : List Char) : strayText c r = (stray [c], r) := by
  unfold strayText
  split
  · exact absurd rfl hc
  · rfl

theorem beginsGap_of_token {r after : List Char} (h : itemAt c r = (.token t, after)) :
    beginsGap c = false := by
  by_contra gap
  rw [itemAt_gap (Bool.of_not_eq_false gap)] at h
  exact strayText_ne_token c r after h

/-- Reading a token that ends in front of a fence does not look behind it. -/
theorem itemAt_fence {x : List Char} (hx : Fence x) :
    itemAt c (u ++ x) = (.token t, a ++ x) ↔ itemAt c u = (.token t, a) := by
  by_cases hq : c = '"' ∨ c = '\''
  · have escape : c ≠ '\\' := by rcases hq with rfl | rfl <;> decide
    simp only [itemAt_quote hq, string_token, stringBody?_behind escape]
  by_cases hb : c = '\\'
  · subst hb
    simp [itemAt_gap (c := '\\') rfl, strayText_ne_token]
  have stray : strayText c (u ++ x) = ((strayText c u).1, (strayText c u).2 ++ x) := by
    rw [strayText_of_ne hb, strayText_of_ne hb]
  rw [itemAt_bounded (.inr hx) (fun h => absurd h hq) stray]
  cases itemAt c u with
  | mk item after => simp

end

/-! ## Texts with the same items up to a fence -/

/-- The texts are the same up to places where no token goes on. -/
inductive UpToFence : List Char → List Char → Prop where
  | fence {l l' : List Char} : Fence l → Fence l' → UpToFence l l'
  | cons (c : Char) {l l' : List Char} : UpToFence l l' → UpToFence (c :: l) (c :: l')

section
variable {g k k' l l' : List Char}

theorem UpToFence.append (h : UpToFence l l') : ∀ a : List Char, UpToFence (a ++ l) (a ++ l')
  | [] => h
  | c :: a => .cons c (h.append a)

theorem UpToFence.trans (h : UpToFence l l') : ∀ {l''}, UpToFence l' l'' → UpToFence l l'' := by
  induction h with
  | fence h h' =>
    intro l'' b
    cases b with
    | fence _ h'' => exact .fence h h''
    | cons c _ => exact .fence h fun d hd => h' d hd
  -- Where one of the two comes to a fence, so does the other, by its first character.
  | cons c _ ih =>
    intro l'' b
    cases b with
    | fence h h' => exact .fence (fun d hd => h d hd) h'
    | cons _ b => exact .cons c (ih b)

theorem UpToFence.split (h : UpToFence l l') :
    ∃ p x x', l = p ++ x ∧ l' = p ++ x' ∧ Fence x ∧ Fence x' := by
  induction h with
  | @fence l l' h h' => exact ⟨[], l, l', rfl, rfl, h, h'⟩
  | cons c _ ih =>
    obtain ⟨p, x, x', rfl, rfl, h, h'⟩ := ih
    exact ⟨c :: p, x, x', rfl, rfl, h, h'⟩

theorem UpToFence.item (h : UpToFence l l') {c : Char} {v : List Char} {t : Token}
    (item : itemAt c (v ++ l) = (.token t, l)) : itemAt c (v ++ l') = (.token t, l') := by
  obtain ⟨p, x, x', rfl, rfl, hx, hx'⟩ := h.split
  rw [← List.append_assoc] at item ⊢
  exact (itemAt_fence hx').mpr ((itemAt_fence hx).mp item)

theorem Returned.upToFence (h : Returned l l') : UpToFence l l' := by
  induction h with
  | nil => exact .fence nofun nofun
  | keep c _ ih => exact .cons c ih
  | carriage _ _ =>
    refine .fence (fun c hc => ?_) fun c hc => ?_
    all_goals
      cases hc
      rfl

theorem Comment.fence (hk : Comment k) (hl : Fence l) : Fence (k ++ l) := by
  rcases hk with rfl | ⟨r, rfl, _⟩
  · exact hl
  · intro c hc
    cases hc
    rfl

theorem Comment.less (hk : Comment k) (hk' : k' = k ∨ k' = []) : Comment k' := by
  rcases hk' with rfl | rfl
  · exact hk
  · exact .inl rfl

theorem Uncommented.upToFence (h : Uncommented l l') : UpToFence l l' := by
  have line : ∀ l, Fence ('\n' :: l) := by
    intro l c hc
    cases hc
    rfl
  induction h with
  | @done g k k' _ hk hk' =>
    have fence := hk.fence (l := []) nofun
    have fence' := (hk.less hk').fence (l := []) nofun
    rw [List.append_nil] at fence fence'
    exact .append (.fence fence fence') g
  | @line g k k' l l' _ hk hk' _ _ =>
    exact .append (.fence (hk.fence (line l)) ((hk.less hk').fence (line l'))) g
  | @token g r w l l' c t _ _ _ _ _ ih => exact (ih.append w).append g

end

/-! ## Streams -/

namespace TokenStream

/-- The streams give the same tokens on the same lines, behind the same gaps but for those in front
of ends of lines, and both end, on the same line. -/
inductive Mirrors : TokenStream → TokenStream → Prop where
  | ended {s s' u u' : TokenStream} : s.next = (.ok none, u) → s'.next = (.ok none, u') →
      s.lineHere = s'.lineHere → u.lineHere = u'.lineHere → Mirrors s s'
  | token {s s' u u' : TokenStream} {l l' : Lexeme} : s.next = (.ok (some l), u) →
      s'.next = (.ok (some l'), u') → SameLexeme l l' → l.line = l'.line → Mirrors u u' → Mirrors s s'

variable {s s' : TokenStream} {ls : List Lexeme}

theorem Mirrors.lineHere (h : Mirrors s s') : s.lineHere = s'.lineHere := by
  cases h with
  | ended _ _ same _ => exact same
  | token h h' _ same _ => rw [lineHere_next h, lineHere_next h', same]

theorem Mirrors.lists (h : Mirrors s s') (hs : s.Lists ls) :
    ∃ ls', s'.Lists ls' ∧ List.Forall₂ (fun l l' => SameLexeme l l' ∧ l.line = l'.line) ls ls' := by
  induction h generalizing ls with
  | ended h h' _ _ =>
    obtain rfl : ls = [] := hs.unique ⟨_, h⟩
    exact ⟨[], ⟨_, h'⟩, .nil⟩
  | @token s s' u u' l l' h h' alike same _ ih =>
    cases ls with
    | nil =>
      obtain ⟨_, e⟩ := hs
      cases h.symm.trans e
    | cons m ls =>
      obtain ⟨_, e, rest⟩ := hs
      cases h.symm.trans e
      obtain ⟨ls', rest', all⟩ := ih rest
      exact ⟨l' :: ls', ⟨u', h', rest'⟩, .cons ⟨alike, same⟩ all⟩

end TokenStream

open TokenStream (Mirrors)

def Correspondence.mirrored : Correspondence where
  rel := Mirrors
  lexeme l l' := SameLexeme l l' ∧ l.line = l'.line
  line := Eq
  halt e _ e' _ := e = e'
  alike same := same.1
  atLine same := same.2
  meets := by
    intro s s' h
    cases h with
    | ended h h' _ same =>
      rw [h, h']
      exact .ended (.ended (next_again h) (next_again h') same same)
    | token h h' alike same rest =>
      rw [h, h']
      exact .token ⟨alike, same⟩ rest
  pushes h same := .token rfl rfl same.1 same.2 h
  lines h := .inl h.lineHere
  fails fault _ _ _ same := by rw [same]

/-! ## Reading restyled texts -/

section
variable {g k l : List Char} {c : Char} {t : Token}

theorem TokenStream.next_of_end (hg : Blank g) (hk : Comment k) (line : Nat) :
    TokenStream.next ⟨g ++ k, line, []⟩ = (.ok none, ⟨[], line + g.count '\n', []⟩) := by
  obtain ⟨b, e⟩ := skip_to_end hg hk line
  refine (read_end (congrArg Gap.rest e)).trans ?_
  rw [e]

theorem TokenStream.next_of_line (hg : Blank g) (hk : Comment k) (l : List Char) (line : Nat) :
    ∃ b, TokenStream.next ⟨g ++ (k ++ '\n' :: l), line, []⟩ =
      (.ok (some ⟨.fixed .newline, line, b⟩), ⟨l, line + g.count '\n' + 1, []⟩) := by
  obtain ⟨b, e⟩ := skip_to_line hg hk l line
  refine ⟨b, (read_token (congrArg Gap.rest e) (t := .fixed .newline) rfl).trans ?_⟩
  rw [e]
  rfl

theorem TokenStream.next_of_token (hg : Blank g) {r : List Char}
    (item : itemAt c r = (.token t, l)) (line : Nat) :
    TokenStream.next ⟨g ++ c :: r, line, []⟩ =
      (.ok (some ⟨t, line, !g.isEmpty⟩), ⟨l, lineAfter (line + g.count '\n') (.token t), []⟩) := by
  have e := skip_to_token hg (beginsGap_of_token item) r line
  refine (read_token (congrArg Gap.rest e) item).trans ?_
  rw [e]

theorem lineAfter_of_ne (ht : t ≠ .fixed .newline) (line : Nat) :
    TokenStream.lineAfter line (.token t) = line := by
  unfold TokenStream.lineAfter
  split
  · next e => cases e; exact absurd rfl ht
  · rfl

/-- The text of a token other than the end of a line holds no end of a line. -/
theorem token_text {r w : List Char} (item : itemAt c r = (.token t, l)) (ht : t ≠ .fixed .newline)
    (split : c :: r = w ++ l) : ∃ v, w = c :: v ∧ r = v ++ l ∧ '\n' ∉ w := by
  obtain ⟨v, some, taken, lines⟩ := itemAt_consumes c r
  rw [item] at taken lines
  obtain rfl : w = v := List.append_cancel_right (split.symm.trans taken)
  rw [lineAfter_of_ne ht] at lines
  cases w with
  | nil => exact absurd rfl some
  | cons d v =>
    obtain ⟨rfl, rfl⟩ := List.cons.inj split
    exact ⟨v, rfl, rfl, List.count_eq_zero.mp lines⟩

theorem mirrors_of_uncommented {m l' : List Char} (h : Uncommented l m) (free : '\r' ∉ l)
    (returned : Returned m l') (line : Nat) : Mirrors ⟨l, line, []⟩ ⟨l', line, []⟩ := by
  induction h generalizing l' line with
  | @done g k k' hg hk hk' =>
    obtain ⟨g', k'', rfl, hg', behind⟩ := returned.append_inv
    have blank := Returned.blank hg (fun mem => free (by simp [mem])) hg'
    have comment := hk.less hk'
    rw [behind.eq_self comment.line_not_mem]
    have same : line + g.count '\n' = line + g'.count '\n' := by rw [hg'.count]
    exact .ended (TokenStream.next_of_end hg hk line) (TokenStream.next_of_end blank comment line)
      rfl same
  | @line g k k' l m hg hk hk' _ ih =>
    obtain ⟨g', k'', m', rfl, blank, comment, count, behind⟩ :=
      returned.line_inv hg (hk.less hk') fun mem => free (by simp [mem])
    obtain ⟨b, next⟩ := TokenStream.next_of_line hg hk l line
    obtain ⟨b', next'⟩ := TokenStream.next_of_line blank comment m' line
    rw [count] at next'
    have rest := ih (fun mem => free (by simp [mem])) behind (line + g.count '\n' + 1)
    exact .token next next' ⟨rfl, .inl rfl⟩ rfl rest
  | @token g r w l m c t hg item ht split uncommented ih =>
    obtain ⟨g', _, rfl, hg', behind⟩ := returned.append_inv
    obtain ⟨w', m', rfl, hw', hm⟩ := behind.append_inv
    have blank := Returned.blank hg (fun mem => free (by simp [mem])) hg'
    obtain ⟨v, rfl, rfl, lines⟩ := token_text item ht split
    rw [hw'.eq_self lines]
    have next := TokenStream.next_of_token hg item line
    have next' := TokenStream.next_of_token blank
      ((uncommented.upToFence.trans hm.upToFence).item item) line
    rw [hg'.count, hg'.isEmpty] at next'
    rw [lineAfter_of_ne ht] at next next'
    have rest := ih (fun mem => free (by simp [mem])) hm (line + g.count '\n')
    exact .token next next' ⟨rfl, .inr rfl⟩ rfl rest

end

/-! ## Finding comments -/

theorem skip_parts (line : Nat) (b : Bool) (l : List Char) :
    ∃ g k, l = g ++ (k ++ (skip line b l).rest) ∧ Blank g ∧ Comment k ∧
      (k ≠ [] → ∀ d ∈ (skip line b l).rest.head?, d = '\n') := by
  have step : ∀ {w r : List Char} {gap : Gap}, Blank w →
      (∃ g k, r = g ++ (k ++ gap.rest) ∧ Blank g ∧ Comment k ∧
        (k ≠ [] → ∀ d ∈ gap.rest.head?, d = '\n')) →
      ∃ g k, w ++ r = g ++ (k ++ gap.rest) ∧ Blank g ∧ Comment k ∧
        (k ≠ [] → ∀ d ∈ gap.rest.head?, d = '\n') := by
    rintro w r gap hw ⟨g, k, e, hg, hk, hline⟩
    exact ⟨w ++ g, k, by rw [List.append_assoc, ← e], hw.append hg, hk, hline⟩
  fun_induction skip line b l with
  | case1 line b r ih | case2 line b r ih | case3 line b r ih | case4 line b r ih =>
    exact step (w := [_]) (.char (by simp) .nil) ih
  | case5 line b r ih => exact step (w := ['\\', '\n']) (.line .nil) ih
  | case6 line b r ih => exact step (w := ['\\', '\r', '\n']) (.carriage .nil) ih
  | case7 line b r =>
    have free := not_mem_takeWhile (p := fun c => decide (c ≠ '\n')) (x := '\n') (by decide) r
    refine ⟨[], '#' :: r.takeWhile fun c => decide (c ≠ '\n'), ?_, .nil, .inr ⟨_, rfl, free⟩,
      fun _ => front_dropWhile_line r⟩
    rw [List.nil_append, List.cons_append, List.takeWhile_append_dropWhile]
  | case8 => exact ⟨[], [], rfl, .nil, .inl rfl, fun no => absurd rfl no⟩

theorem lineAfter_mark {c : Char} (hc : c ≠ '\n') {r : List Char} {found : Item × List Char}
    (h : mark? (c :: r) = some found) : TokenStream.lineAfter 0 found.1 = 0 := by
  unfold mark? at h
  split at h
  all_goals first
    | (obtain rfl := Option.some.inj h; rfl)
    | (next e => exact absurd (List.cons.inj e).1 hc)
    | cases h

theorem lineAfter_itemAt {c : Char} (hc : c ≠ '\n') (r : List Char) :
    TokenStream.lineAfter 0 (itemAt c r).1 = 0 := by
  have sigil : ∀ (w : List Char) {token : String → Token} (l : List Char),
      (∀ n, TokenStream.lineAfter 0 (.token (token n)) = 0) →
      TokenStream.lineAfter 0 (sigil w token l).1 = 0 := by
    intro w token l zero
    unfold Scan.sigil
    split
    · exact zero _
    · rfl
  unfold itemAt
  split
  · unfold number
    split
    · split
      · rfl
      · exact lineAfter_integerItem _
    · exact lineAfter_integerItem _
  split
  · unfold string
    split <;> rfl
  split
  · exact lineAfter_word _
  split
  · next h => exact lineAfter_mark hc h
  split
  · exact sigil _ _ fun _ => rfl
  · exact sigil _ _ fun _ => rfl
  · exact sigil _ _ fun _ => rfl
  · unfold strayText
    split <;> rfl

theorem itemAt_newline {c : Char} {r after : List Char}
    (h : itemAt c r = (.token (.fixed .newline), after)) : c = '\n' := by
  by_contra hc
  have none := lineAfter_itemAt hc r
  rw [h] at none
  cases none

namespace TokenStream

variable {s s' u : TokenStream} {l : Lexeme} {ls : List Lexeme}

/-- Comments are taken from a text behind its first token and in front of it independently. -/
theorem uncommented_next (unpushed : s.pushed = []) (h : s.next = (.ok (some l), u)) :
    u.pushed = [] ∧ ∃ front, s.rest = front ++ u.rest ∧
      ∀ m, Uncommented u.rest m → Uncommented s.rest (front ++ m) := by
  obtain ⟨g, k, e, hg, hk, hline⟩ := skip_parts s.line false s.rest
  have read : s.read = (.ok (some l), u) := (next_unpushed unpushed).symm.trans h
  cases hr : (skip s.line false s.rest).rest with
  | nil =>
    rw [read_end hr] at read
    cases read
  | cons c r =>
    rw [hr] at e hline
    rw [read_item hr] at read
    obtain ⟨w, _, split, _⟩ := itemAt_consumes c r
    cases hi : itemAt c r with
    | mk i after =>
      rw [hi] at read split
      cases i with
      | fault f => cases read
      | token t =>
        cases read
        refine ⟨unpushed, g ++ (k ++ w), ?_, fun m hm => ?_⟩
        · rw [e, split]
          simp
        by_cases line : c = '\n'
        · subst line
          cases hi
          obtain rfl : w = ['\n'] := List.append_cancel_right split.symm
          rw [e, List.append_assoc, List.append_assoc]
          exact .line hg hk (.inl rfl) hm
        · obtain rfl : k = [] := by
            by_contra some
            exact line (hline some c rfl)
          rw [e, List.nil_append, split, List.nil_append, List.append_assoc]
          refine .token hg hi (fun newline => line ?_) split hm
          rw [newline] at hi
          exact itemAt_newline hi

theorem uncommented_self : ∀ {ls : List Lexeme} {s : TokenStream}, s.pushed = [] → s.Lists ls →
    Uncommented s.rest s.rest
  | [], s, unpushed, ⟨u, h⟩ => by
    obtain ⟨g, k, e, hg, hk, _⟩ := skip_parts s.line false s.rest
    cases hr : (skip s.line false s.rest).rest with
    | nil =>
      rw [hr, List.append_nil] at e
      rw [e]
      exact .done hg hk (.inl rfl)
    | cons c r =>
      rw [next_unpushed unpushed, read_item hr] at h
      cases hi : (itemAt c r).1 <;> rw [hi] at h <;> cases h
  | l :: ls, s, unpushed, ⟨u, h, rest⟩ => by
    obtain ⟨unpushed', front, e, more⟩ := uncommented_next unpushed h
    have self := more _ (uncommented_self unpushed' rest)
    rwa [← e] at self

section
variable {g r x : List Char} (hg : Blank g) (hr : '\n' ∉ r) (hx : ∀ d ∈ x.head?, d = '\n')
include hg hr hx

theorem uncommented_here (unpushed : s.pushed = []) (here : s.rest = g ++ ('#' :: r ++ x))
    (h : s.Lists ls) : Uncommented s.rest (g ++ x) := by
  have comment : Comment ('#' :: r) := .inr ⟨r, rfl, hr⟩
  obtain ⟨rest, line, pushed⟩ := s
  obtain rfl : pushed = [] := unpushed
  obtain rfl : rest = _ := here
  cases x with
  | nil =>
    rw [List.append_nil]
    exact .done hg comment (.inr rfl)
  | cons d y =>
    obtain rfl := hx d rfl
    obtain ⟨b, e⟩ := next_of_line hg comment y line
    refine .line hg comment (.inr rfl) ?_
    cases ls with
    | nil =>
      obtain ⟨_, h⟩ := h
      cases e.symm.trans h
    | cons l ls =>
      obtain ⟨_, h, behind⟩ := h
      cases e.symm.trans h
      exact uncommented_self rfl behind

/-- Each comment that is met where a token is looked for can be taken away. -/
theorem uncommented_at (here : s'.rest = g ++ ('#' :: r ++ x)) (hs : s'.Lists ls)
    (path : Relation.ReflTransGen (fun s u => ∃ l, s.next = (.ok (some l), u)) s s') :
    s.pushed = [] →
      ∃ front, s.rest = front ++ s'.rest ∧ Uncommented s.rest (front ++ (g ++ x)) := by
  induction path using Relation.ReflTransGen.head_induction_on with
  | refl =>
    intro unpushed
    refine ⟨[], rfl, ?_⟩
    rw [List.nil_append]
    exact uncommented_here hg hr hx unpushed here hs
  | head step _ ih =>
    intro unpushed
    obtain ⟨l, h⟩ := step
    obtain ⟨unpushed', front, e, more⟩ := uncommented_next unpushed h
    obtain ⟨front', e', less⟩ := ih unpushed'
    refine ⟨front ++ front', by rw [e, e', List.append_assoc], ?_⟩
    rw [List.append_assoc]
    exact more _ less

end

end TokenStream

/-! ## Programs -/

/-- A text without carriage returns is read without an error. Putting carriage returns in front of
ends of its lines and taking comments from it keeps the tokens and their lines, and whether anything
stands in front of a token other than the end of a line. So both texts are parsed to the same
program, or with the same error. -/
theorem line_ends_and_comments {source : String} {ls : List Lexeme} (free : '\r' ∉ source.toList)
    (lexes : (TokenStream.ofString source).Lists ls) :
    Uncommented source.toList source.toList ∧
    ∀ bare source', Uncommented source.toList bare → Returned bare source'.toList →
      (∃ ls', (TokenStream.ofString source').Lists ls' ∧
        List.Forall₂ (fun l l' => l.token = l'.token ∧ l.line = l'.line ∧
          (l.token ≠ .fixed .newline → l.spaced = l'.spaced)) ls ls') ∧
      ∃ r, (parseProgram source).answer = some r ∧ (parseProgram source').answer = some r := by
  refine ⟨TokenStream.uncommented_self rfl lexes, fun bare source' less returned => ?_⟩
  have mirrors : Mirrors (.ofString source) (.ofString source') :=
    mirrors_of_uncommented less free returned 1
  obtain ⟨ls', lexes', same⟩ := mirrors.lists lexes
  refine ⟨⟨ls', lexes', same.imp fun l l' h => ⟨h.1.token, h.2, h.1.spaced.resolve_left⟩⟩, ?_⟩
  obtain ⟨r, given⟩ := (Parser.ofString source).exists_gives
  obtain ⟨r', given'⟩ := (Parser.ofString source').exists_gives
  have side : Correspondence.mirrored.Side (.ofString source) (.ofString source') := ⟨mirrors, rfl⟩
  refine ⟨r, given, ?_⟩
  cases Correspondence.answers_program _ side given given' with
  | value cs => exact given'
  | error halt =>
    rw [show _ = _ from halt]
    exact given'

/-- The string stays, the comment goes, and the joined lines stay joined. -/
theorem line_ends_and_comments_quoted :
    '\r' ∉ "p '#' # c\n\\\nq\n".toList ∧
    (TokenStream.ofString "p '#' # c\n\\\nq\n").Lists [⟨.name "p", 1, false⟩, ⟨.str "#", 1, true⟩,
      ⟨.fixed .newline, 1, true⟩, ⟨.name "q", 2, true⟩, ⟨.fixed .newline, 3, false⟩] ∧
    Uncommented "p '#' # c\n\\\nq\n".toList "p '#' \n\\\nq\n".toList ∧
    Returned "p '#' \n\\\nq\n".toList "p '#' \r\n\\\r\nq\r\n".toList ∧
    ∃ r, (parseProgram "p '#' # c\n\\\nq\n").answer = some r ∧
      (parseProgram "p '#' \r\n\\\r\nq\r\n").answer = some r := by
  have free : '\r' ∉ "p '#' # c\n\\\nq\n".toList := by decide
  have lexes : (TokenStream.ofString "p '#' # c\n\\\nq\n").Lists [⟨.name "p", 1, false⟩,
      ⟨.str "#", 1, true⟩, ⟨.fixed .newline, 1, true⟩, ⟨.name "q", 2, true⟩,
      ⟨.fixed .newline, 3, false⟩] :=
    ⟨⟨" '#' # c\n\\\nq\n".toList, 1, []⟩, by cbv, ⟨" # c\n\\\nq\n".toList, 1, []⟩, by cbv,
      ⟨"\\\nq\n".toList, 2, []⟩, by cbv, ⟨"\n".toList, 3, []⟩, by cbv, ⟨[], 4, []⟩, by cbv,
      _, rfl⟩
  have last : Uncommented ['\\', '\n', 'q', '\n'] ['\\', '\n', 'q', '\n'] :=
    .token (g := ['\\', '\n']) (w := ['q']) (t := .name "q") (.line .nil) rfl (by simp) rfl <|
    .line (g := []) (k := []) .nil (.inl rfl) (.inl rfl) <|
    .done (g := []) (k := []) .nil (.inl rfl) (.inl rfl)
  have text : "p '#' # c\n\\\nq\n".toList = ['p', ' ', '\'', '#', '\'', ' ', '#', ' ', 'c', '\n',
      '\\', '\n', 'q', '\n'] := rfl
  have bare : "p '#' \n\\\nq\n".toList = ['p', ' ', '\'', '#', '\'', ' ', '\n', '\\', '\n', 'q',
      '\n'] := rfl
  have less : Uncommented "p '#' # c\n\\\nq\n".toList "p '#' \n\\\nq\n".toList := by
    rw [text, bare]
    exact .token (g := []) (w := ['p']) (t := .name "p") .nil rfl (by simp) rfl <|
      .token (g := [' ']) (w := ['\'', '#', '\'']) (t := .str "#") (.char (.inl rfl) .nil) rfl
        (by simp) rfl <|
      .line (g := [' ']) (k := ['#', ' ', 'c']) (.char (.inl rfl) .nil)
        (.inr ⟨[' ', 'c'], rfl, by decide⟩) (.inr rfl) last
  have returned : Returned "p '#' \n\\\nq\n".toList "p '#' \r\n\\\r\nq\r\n".toList :=
    .keep _ <| .keep _ <| .keep _ <| .keep _ <| .keep _ <| .keep _ <| .carriage <| .keep _ <|
    .carriage <| .keep _ <| .carriage .nil
  exact ⟨free, lexes, less, returned, ((line_ends_and_comments free lexes).2 _ _ less returned).2⟩

end ObjectLang
