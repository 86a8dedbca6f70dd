import ObjectLang.Proofs.Parse.Arguments
import ObjectLang.Proofs.Parse.Paired

/-!
# Lists up to the end of a line and in parentheses

Items with commas between them that end at the end of a line are the items of the same tokens in
parentheses.
-/

namespace ObjectLang

open Parse Grammar

section
variable {T ms ls : List Lexeme} {n m x a a' : Lexeme} {p q u : Parser} {s s' : TokenStream}
  {lines fuel : Nat} {args : List Expr} {noDo : Bool}

/-- Nothing but the end of the line is left, so it has not been taken. -/
theorem not_overrun (hu : u.tokens.Lists [x]) : ¬Overrun [n] u :=
  fun beyond => List.cons_ne_nil _ _ (hu.unique beyond.ended)

theorem Parse.Paired.last (h : Paired T [n] (m :: ms) u q) (hu : u.tokens.Lists [x]) :
    q.tokens.Lists (m :: ms) := by
  obtain ⟨⟨ls, ls', _, alike, hls, hls'⟩, _⟩ := h
  cases alike with
  | nil => exact hls'
  | @cons l _ ms _ _ _ =>
    have same := hu.unique hls
    cases ms <;> cases same

theorem Parse.Paired.looked {o : Option Lexeme} {v : Parser} (h : Paired T [n] (m :: ms) p q)
    (hv : peek q = .ok o v) : Paired T [n] (m :: ms) p v := by
  obtain ⟨⟨ls, ls', suffix, alike, hp, hq⟩, _⟩ := h
  exact ⟨⟨ls, ls', suffix, alike, hp, lists_of_peek hq hv⟩, nofun⟩

section
variable {α : Type} {item : Parse α}

/-- An item that is read in one place begins with no closing parenthesis in the other. -/
theorem nextIs_rparen (hb : Behind T [n] (m :: ms)) (refuses : ∀ g, Halts g → Refuses g item)
    (paired : Paired T [n] (m :: ms) p q) (faces : ∃ o, Faces p o) {v : α}
    (h : item p = .ok v u) :
    ∃ q', nextIs .rparen q = .ok false q' ∧ Paired T [n] (m :: ms) p q' := by
  obtain ⟨o, faces⟩ := faces
  have ne_halt : ∀ {g : Fixed} {l : Lexeme} {s : TokenStream}, Halts g →
      p.tokens.next = (.ok (some l), s) → l.token ≠ .fixed g := by
    intro g l s hg next hl
    obtain ⟨rfl, same⟩ := Parsed.ok.inj (faces.symm.trans (peek_token next))
    rw [same] at h
    exact refuses g hg s l p.noDo hl v u h
  cases paired.meets hb with
  | ended _ hq _ => exact ⟨_, bind_ok (peek_end hq), paired.looked (peek_end hq)⟩
  | @token l l' _ _ hp hq alike _ _ _ =>
    have other : l'.token.isFixed .rparen = false := by
      rw [← alike.token]
      cases hl : l.token.isFixed .rparen with
      | false => rfl
      | true => exact absurd (eq_of_isFixed hl) (ne_halt (.inr rfl) hp)
    refine ⟨_, (bind_ok (peek_token hq)).trans ?_, paired.looked (peek_token hq)⟩
    rw [Option.any_some, other]
    rfl
  | closed hp _ hn _ _ _ => exact absurd hn (ne_halt (.inl rfl) hp)

section
variable (hb : Behind T [n] (m :: ms)) (keeps : Keeps T [n] (m :: ms) item item)
include hb keeps

theorem keeps_commaThen : Keeps T [n] (m :: ms)
    (commaThen (skipNewlines lines >>= fun _ => item))
    (commaThen (skipNewlines lines >>= fun _ => item)) := by
  have c := keeps_congruence hb
  exact commaThen_congr c (g := .firm) (keeps_bind (skipNewlines_congr c) fun _ => keeps)

theorem keeps_commas (rounds : Nat) : Keeps T [n] (m :: ms)
    (collect (commaThen (skipNewlines lines >>= fun _ => item)) rounds)
    (collect (commaThen (skipNewlines lines >>= fun _ => item)) rounds) :=
  collect_congr (keeps_congruence hb) (g := .firm) (by decide) (keeps_commaThen hb keeps) rounds

variable (refuses : ∀ g, Halts g → Refuses g item)
include refuses

/-- Behind a comma both lists take an item. -/
theorem moreItems_comma {rounds : Nat} {rest : List α} {l l' : Lexeme}
    (hp : p.tokens.next = (.ok (some l), s)) (hq : q.tokens.next = (.ok (some l'), s'))
    (comma : l.token.isFixed .comma = true) (alike : SameLexeme l l')
    (after : Paired T [n] (m :: ms) { p with tokens := s } { q with tokens := s' })
    (h : collect (commaThen (skipNewlines (lines + 1) >>= fun _ => item)) (rounds + 1) p =
      .ok rest u) (hu : u.tokens.Lists [x]) :
    ∃ a rest' p' q', rest = a :: rest' ∧ Paired T [n] (m :: ms) p' q' ∧
      collect (commaThen (skipNewlines (lines + 1) >>= fun _ => item)) rounds p' = .ok rest' u ∧
      ∀ k first found v, moreItems .rparen item (lines + 1) k a q' = .ok found v →
        moreItems .rparen item (lines + 1) (k + 1) first q = .ok (first :: found) v := by
  have taken : accept .comma p = .ok true { p with tokens := s } := by
    rw [accept_token _ hp, if_pos comma]
  -- The comma, the ends of lines and the item in front of the end of the line.
  obtain ⟨_, p₁, ho, h⟩ := exists_of_bind_ok h
  obtain ⟨a, _, ha, ho⟩ := exists_of_bind_ok ((bind_ok taken).symm.trans ho)
  cases ho
  obtain ⟨_, p₂, hskip, hitem⟩ := exists_of_bind_ok ha
  obtain ⟨rest', _, hrest, h⟩ := exists_of_bind_ok h
  cases h
  have no : ¬Overrun [n] p₁ := fun beyond =>
    not_overrun hu ((keeps_commas hb keeps rounds).overrun beyond hrest)
  have skips : Keeps T [n] (m :: ms) (skipNewlines (lines + 1)) (skipNewlines (lines + 1)) :=
    skipNewlines_congr (keeps_congruence hb)
  -- The same ones in front of the closing parenthesis.
  rcases skips.paired after hskip with beyond | ⟨q₂, hq₂, paired₂⟩
  · exact absurd (keeps.overrun beyond hitem) no
  obtain ⟨q₃, hq₃, paired₃⟩ := nextIs_rparen hb refuses paired₂ (skipNewlines_faces hskip) hitem
  rcases keeps.paired paired₃ hitem with beyond | ⟨q₄, hq₄, paired₄⟩
  · exact absurd beyond no
  refine ⟨a, rest', p₁, q₄, rfl, paired₄, hrest, fun k first found v hv => ?_⟩
  rw [alike.token] at comma
  have ne_newline : l'.token.isFixed .newline = false := by
    rw [eq_of_isFixed comma]
    rfl
  refine (bind_ok (skipNewlines_stop (peek_token hq) ne_newline)).trans ?_
  refine (accept_takes comma s' q.noDo).trans ((bind_ok hq₂).trans ?_)
  rw [items_succ]
  exact bind_ok ((bind_ok hq₃).trans ((bind_ok hq₄).trans hv))

/-- At the end of the line the other list ends too, and behind a comma both go on. -/
theorem moreItems_step {rounds : Nat} {rest : List α} (paired : Paired T [n] (m :: ms) p q)
    (h : collect (commaThen (skipNewlines (lines + 1) >>= fun _ => item)) (rounds + 1) p =
      .ok rest u) (hu : u.tokens.Lists [x]) :
    (rest = [] ∧ ∃ v, v.tokens.Lists (m :: ms) ∧ ∀ k first,
      moreItems .rparen item (lines + 1) k first q = .ok [first] v) ∨
    ∃ a rest' p' q', rest = a :: rest' ∧ Paired T [n] (m :: ms) p' q' ∧
      collect (commaThen (skipNewlines (lines + 1) >>= fun _ => item)) rounds p' = .ok rest' u ∧
      ∀ k first found v, moreItems .rparen item (lines + 1) k a q' = .ok found v →
        moreItems .rparen item (lines + 1) (k + 1) first q = .ok (first :: found) v := by
  cases paired.meets hb with
  | ended hp _ _ =>
    cases (collect_stop (peek_end hp) rfl _).symm.trans h
    exact absurd (hu.unique (TokenStream.lists_end hp)) (List.cons_ne_nil _ _)
  | @closed n' m' s s' hp hq hn hm _ back =>
    have ne_comma : n'.token.isFixed .comma = false := by rw [hn]; rfl
    have ne_newline : m'.token.isFixed .newline = false := by rw [hm]; rfl
    cases (collect_stop (peek_token hp) ne_comma _).symm.trans h
    refine .inl ⟨rfl, _, back.last hu, fun k first => ?_⟩
    refine (bind_ok (skipNewlines_stop (peek_token hq) ne_newline)).trans ?_
    exact accept_passes (faces_push s' m' q.noDo) (by rw [Option.any_some, hm]; rfl)
  | @token l l' s s' hp hq alike _ after _ =>
    cases comma : l.token.isFixed .comma with
    | true => exact .inr (moreItems_comma hb keeps refuses hp hq comma alike after h hu)
    | false =>
      -- The other list cannot end in front of one of the common tokens.
      cases (collect_stop (peek_token hp) comma _).symm.trans h
      obtain ⟨⟨ls, _, _, _, hs, _⟩, _⟩ := after
      have same : [x] = l :: (ls ++ [n]) := hu.unique (hs.push l)
      simp at same

/-- Items behind commas up to the end of a line are the items up to a closing parenthesis. -/
theorem moreItems_of_collect (hu : u.tokens.Lists [x]) :
    ∀ {rounds : Nat} {p q : Parser} {rest : List α}, Paired T [n] (m :: ms) p q →
      collect (commaThen (skipNewlines (lines + 1) >>= fun _ => item)) (rounds + 1) p =
        .ok rest u → ∀ first,
      ∃ v, moreItems .rparen item (lines + 1) rounds first q = .ok (first :: rest) v ∧
        v.tokens.Lists (m :: ms) := by
  intro rounds p q rest paired h first
  induction rounds generalizing p q rest first with
  | zero =>
    rcases moreItems_step hb keeps refuses paired h hu with
      ⟨rfl, v, hv, stop⟩ | ⟨_, _, _, _, _, _, h, _⟩
    · exact ⟨v, stop 0 first, hv⟩
    · cases h
  | succ rounds ih =>
    rcases moreItems_step hb keeps refuses paired h hu with
      ⟨rfl, v, hv, stop⟩ | ⟨a, rest, p', q', rfl, paired', h', more⟩
    · exact ⟨v, stop _ first, hv⟩
    · obtain ⟨v, hv, listed⟩ := ih paired' h' a
      exact ⟨v, more rounds first _ v hv, listed⟩

end

end

/-- What has been read as arguments up to the end of a line is read in parentheses as well. -/
theorem parenArguments_of_bare {r : TokenStream} (hb : Behind T [n] (m :: ms))
    (hm : m.token = .fixed .rparen)
    (paired : Paired T [n] (m :: ms) ⟨s.push a, true⟩ ⟨s'.push a', false⟩)
    (ne_newline : a'.token.isFixed .newline = false) (ne_rparen : a'.token.isFixed .rparen = false)
    (next : r.next = (.ok (some a'), s'))
    (h : bareArguments (parse (fuel + 1)) (fuel + 1) ⟨s.push a, noDo⟩ = .ok args u)
    (hu : u.tokens.Lists [x]) :
    ∃ v : TokenStream,
      parenArguments (parse (fuel + 1)) (fuel + 1) ⟨r, false⟩ = .ok args ⟨v, false⟩ ∧
        v.Lists ms := by
  have keeps : Keeps T [n] (m :: ms) (parse (fuel + 1) .expression)
      (parse (fuel + 1) .expression) := parse_congr (keeps_congruence hb) (fuel + 1) .expression
  have refuses : ∀ g, Halts g → Refuses g (parse (fuel + 1) .expression) :=
    fun g hg => refuses_parse hg (fuel + 1)
  obtain ⟨u', inner, rfl⟩ := exists_of_restricted_ok h
  obtain ⟨first, p, hfirst, inner⟩ := exists_of_bind_ok inner
  obtain ⟨rest, _, hrest, inner⟩ := exists_of_bind_ok inner
  cases inner
  have hu : u'.tokens.Lists [x] := hu
  rcases keeps.paired paired hfirst with beyond | ⟨q, hq, behind⟩
  · exact absurd ((keeps_commas hb keeps (fuel + 1)).overrun beyond hrest) (not_overrun hu)
  obtain ⟨v, more, w, close, listed⟩ := moreItems_of_collect hb keeps refuses hu behind hrest first
  have skipped : skipNewlines (fuel + 1) ⟨r, false⟩ = .ok () ⟨s'.push a', false⟩ :=
    skipNewlines_stop (peek_token next) ne_newline
  have opened : nextIs .rparen ⟨s'.push a', false⟩ = .ok false ⟨s'.push a', false⟩ := by
    refine (bind_ok (faces_push s' a' false)).trans ?_
    rw [Option.any_some, ne_rparen]
    rfl
  have found : items .rparen (parse (fuel + 1) .expression) (fuel + 1) (fuel + 1)
      ⟨s'.push a', false⟩ = .ok (first :: rest) v := by
    rw [items_succ]
    exact (bind_ok opened).trans ((bind_ok hq).trans more)
  refine ⟨w, ?_, listed⟩
  refine restricted_ok (p := ⟨r, false⟩) (q := { v with tokens := w }) ?_
  exact (bind_ok skipped).trans ((bind_ok found).trans (bind_ok (expect_token close hm)))

end

end ObjectLang
