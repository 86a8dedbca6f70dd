import ObjectLang.Proofs.Parse.Prints

/-!
# Printed terms are parsed back

What it means that a printed form is parsed back: the rule of the grammar that belongs
to it takes the form and gives the tree, if the bound on nesting exceeds the number of
pieces. Expressions in parentheses can stand at every level.
-/

namespace ObjectLang

open Parse Grammar

/-- What the rule for the form does with the pieces, whatever may follow them. -/
def Parses : Form → List Piece → Prop
  | .expr nd e, ps => Begins ps ∧ ∀ k, ps.length ≤ k → ∀ B, Stops nd B →
      Takes nd (expression (parse k) k) (ps ++ B) e B
  | .group e, ps => (∃ qs, ps = mark .lparen :: qs) ∧ ∀ k, ps.length ≤ k → ∀ nd B,
      Takes nd (term (parse k) k) (ps ++ B) e B
  | .entry x, ps => Begins ps ∧ ∀ k, ps.length < k → ∀ B, Stops false B →
      Takes false (hashEntry (parse k) k) (ps ++ B) x B
  | .body nd e, ps => (∀ B, headIs B .pipe = false → headIs (ps ++ B) .pipe = false) ∧
      ∃ es, e = .ofBody es ∧ ∀ k, ps.length < k → ∀ closing B, Closes closing B →
        Takes nd (commandList (parse k) closing k) (ps ++ B) es B
  | .branches nd c t o, ps => ∀ k depth, ps.length < k → ps.length < depth → ∀ B,
      Takes nd (ifConstruct (parse k) k depth) (ps ++ B) (.ifElse c t o) B
  | .block closing e, ps => (Token.fixed closing).closesBody = true → ∀ k, ps.length < k → ∀ nd B,
      Takes nd (blockBody (parse k) closing k) (ps ++ B) e B
  | .arguments nd args, ps => ∀ k, ps.length < k → ∀ B, EndsCall nd B → ∃ given C,
      Takes nd (parenArguments (parse k) k) (ps ++ B) given C ∧
        Takes nd (withBlock (parse k) given k) C args B

section
variable {nd : Bool} {k : Nat} {A B C : List Piece} {e : Expr} {ps : List Piece}

/-! ## Nested rules -/

theorem takes_expression (h : Parses (.expr nd e) ps) (hk : ps.length < k) (hB : Stops nd B) :
    Takes nd (parse k .expression) (ps ++ B) e B := by
  cases k with
  | zero => exact absurd hk (Nat.not_lt_zero _)
  | succ k => exact h.2 k (Nat.le_of_lt_succ hk) B hB

theorem takes_group (h : Parses (.group e) ps) (hk : ps.length ≤ k) :
    Takes nd (term (parse k) k) (ps ++ B) e B :=
  h.2 k hk nd B

theorem group_begins (h : Parses (.group e) ps) : Begins ps := by
  obtain ⟨⟨qs, rfl⟩, _⟩ := h
  exact ⟨mark .lparen, qs, rfl, rfl, rfl⟩

theorem group_plain (h : Parses (.group e) ps) : Plain (ps ++ B) := by
  obtain ⟨⟨qs, rfl⟩, _⟩ := h
  exact ⟨rfl, rfl, rfl⟩

theorem group_pos (h : Parses (.group e) ps) (hk : ps.length ≤ k) : 0 < k :=
  Nat.lt_of_lt_of_le (group_begins h).length_pos hk

theorem group_unary (h : Parses (.group e) ps) (hk : ps.length ≤ k) (hB : Looser 5 B) {depth : Nat}
    (hd : 0 < depth) : Takes nd (unary (parse k) k depth) (ps ++ B) e B :=
  unary_of_suffixed (suffixed_of_term (takes_group h hk) hB (group_pos h hk)) (group_plain h) hd

theorem group_range (h : Parses (.group e) ps) (hk : ps.length ≤ k) (hB : Looser 1 B) :
    Takes nd (range (parse k) k) (ps ++ B) e B :=
  range_of_suffixed (suffixed_of_term (takes_group h hk) (hB.mono (by decide)) (group_pos h hk))
    (group_plain h) hB (group_pos h hk)

theorem group_nested (h : Parses (.group e) ps) (hk : ps.length < k) (hB : Stops nd B) :
    Takes nd (parse k .expression) (ps ++ B) e B := by
  cases k with
  | zero => exact absurd hk (Nat.not_lt_zero _)
  | succ k =>
    exact expression_of_range (group_range h (Nat.le_of_lt_succ hk) (hB.looser (by decide))) hB

/-! ## Terms -/

theorem parses_of_range (hb : Begins ps) (h : ∀ k, ps.length ≤ k → ∀ B, Stops nd B →
    Takes nd (range (parse k) k) (ps ++ B) e B) : Parses (.expr nd e) ps :=
  ⟨hb, fun k hk B hB => expression_of_range (h k hk B hB) hB⟩

theorem group_expression (h : Parses (.group e) ps) : Parses (.expr nd e) ps :=
  parses_of_range (group_begins h) fun _ hk _ hB => group_range h hk (hB.looser (by decide))

theorem parses_of_unary (hb : Begins ps) (h : ∀ k, ps.length ≤ k → ∀ B, Stops nd B →
    Takes nd (unary (parse k) k k) (ps ++ B) e B) : Parses (.expr nd e) ps := by
  refine parses_of_range hb fun k hk B hB => ?_
  have pos : 0 < k := Nat.lt_of_lt_of_le hb.length_pos hk
  exact range_of_comparison (comparison_of_unary (h k hk B hB) (hB.looser (by decide)) pos)
    (hB.looser (by decide))

theorem parses_of_suffixed (hb : Begins ps) (hp : ∀ B, Plain (ps ++ B))
    (h : ∀ k, ps.length ≤ k → ∀ B, Stops nd B →
      Takes nd (suffixed (parse k) k) (ps ++ B) e B) : Parses (.expr nd e) ps := by
  refine parses_of_range hb fun k hk B hB => ?_
  have pos : 0 < k := Nat.lt_of_lt_of_le hb.length_pos hk
  exact range_of_suffixed (h k hk B hB) (hp B) (hB.looser (by decide)) pos

/-- A token begins a term, and is no prefix operator. -/
def beginsTerm (t : Token) : Bool :=
  !stops true t && !t.isFixed .pipe && !t.isFixed .minus && !t.isFixed .plus && !t.isFixed .bang

theorem begins_of_beginsTerm {p : Piece} (h : beginsTerm p.token = true) : Begins (p :: A) := by
  simp only [beginsTerm, Bool.and_eq_true, Bool.not_eq_true'] at h
  exact ⟨p, A, rfl, h.1.1.1.1, h.1.1.1.2⟩

theorem plain_of_beginsTerm {p : Piece} (h : beginsTerm p.token = true) : Plain (p :: A) := by
  simp only [beginsTerm, Bool.and_eq_true, Bool.not_eq_true'] at h
  exact ⟨h.1.1.2, h.1.2, h.2⟩

theorem parses_of_term {p : Piece} (hp : beginsTerm p.token = true)
    (h : ∀ k, ps.length < k → ∀ B, Stops nd B → Takes nd (term (parse k) k) (p :: (ps ++ B)) e B) :
    Parses (.expr nd e) (p :: ps) := by
  refine parses_of_suffixed (begins_of_beginsTerm hp) (fun B => plain_of_beginsTerm hp) ?_
  intro k hk B hB
  exact suffixed_of_term (h k hk B hB) (hB.looser (by decide)) (Nat.zero_lt_of_lt hk)

theorem takes_fixedTerm {r : Nested} {f : Fixed}
    (h : ∀ line, Takes nd (fixedTerm r k f line) A e B) :
    Takes nd (term r k) (mark f :: A) e B := by
  refine takes_lineHere fun line => takes_next fun l hl _ => ?_
  simp only [hl]
  exact h l.line

theorem takes_literal {r : Nested} {l : Literal} {t : Token} (h : literalToken? l = some t) :
    Takes nd (term r k) (tok t :: B) (.literal l) B := by
  refine takes_lineHere fun line => takes_next fun x hx _ => ?_
  cases l with
  | bool b => cases b <;> cases h <;> simp only [hx] <;> exact takes_pure _
  | real x => cases h
  | _ => cases h; simp only [hx]; exact takes_pure _

theorem beginsTerm_literal {l : Literal} {t : Token} (h : literalToken? l = some t) :
    beginsTerm t = true := by
  cases l with
  | bool b => cases b <;> cases h <;> rfl
  | _ => cases h; try rfl

theorem parses_literal {l : Literal} {t : Token} (h : literalToken? l = some t) :
    Parses (.expr nd (.literal l)) [tok t] :=
  parses_of_term (beginsTerm_literal h) fun _ _ _ _ => takes_literal h

theorem takes_name {r : Nested} (n : String) (hB : headIs B .lparen = false) :
    Takes nd (term r k) (tok (.name n) :: B) (.name n) B := by
  refine takes_lineHere fun line => takes_next fun x hx _ => ?_
  simp only [hx]
  refine (takes_not_acceptTouching hB).bind ?_
  rw [if_neg (by decide)]
  exact takes_pure _

theorem takes_instanceVar {r : Nested} (n : String) :
    Takes nd (term r k) (tok (.instanceVar n) :: B) (.instanceVar n) B := by
  refine takes_lineHere fun line => takes_next fun x hx _ => ?_
  simp only [hx]
  exact takes_pure _

theorem takes_classVar {r : Nested} (n : String) :
    Takes nd (term r k) (tok (.classVar n) :: B) (.classVar n) B := by
  refine takes_lineHere fun line => takes_next fun x hx _ => ?_
  simp only [hx]
  exact takes_pure _

theorem parses_name (n : String) : Parses (.expr nd (.name n)) [tok (.name n)] :=
  parses_of_term rfl fun _ _ _ hB => takes_name n (hB.headIs rfl)

theorem parses_instanceVar (n : String) :
    Parses (.expr nd (.instanceVar n)) [tok (.instanceVar n)] :=
  parses_of_term rfl fun _ _ _ _ => takes_instanceVar n

theorem parses_classVar (n : String) : Parses (.expr nd (.classVar n)) [tok (.classVar n)] :=
  parses_of_term rfl fun _ _ _ _ => takes_classVar n

theorem parses_selfRef : Parses (.expr nd .selfRef) [mark .selfWord] :=
  parses_of_term rfl fun _ _ _ _ => takes_fixedTerm fun _ => takes_pure _

theorem parses_group {a b : List Piece} (ha : Separators a) (h : Parses (.expr false e) ps)
    (hb : Separators b) : Parses (.group e) (mark .lparen :: (a ++ (ps ++ (b ++ [mark .rparen])))) := by
  refine ⟨⟨_, rfl⟩, fun k hk nd B => ?_⟩
  simp only [List.length_append, List.length_cons, List.length_nil] at hk
  simp only [List.cons_append, List.append_assoc, List.nil_append]
  have begins := h.1.append (b ++ mark .rparen :: B)
  have inner := takes_expression (k := k) (B := b ++ mark .rparen :: B) h (by omega)
    (stops_run hb (stops_mark rfl))
  have within : Takes false (do
      skipSeparators k
      let e ← parse k .expression
      skipSeparators k
      pure e) (a ++ (ps ++ (b ++ mark .rparen :: B))) e (mark .rparen :: B) := by
    refine (takes_skipSeparators ha (begins.headIs rfl) (begins.headIs rfl) (by omega)).bind ?_
    exact inner.bind ((takes_skipSeparators hb rfl rfl (by omega)).bind (takes_pure e))
  refine takes_fixedTerm fun line => ?_
  exact (takes_restricted within).bind ((takes_expect .rparen).bind (takes_pure e))

end

end ObjectLang
