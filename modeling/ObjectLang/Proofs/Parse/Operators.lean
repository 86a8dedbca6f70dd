import ObjectLang.Proofs.Parse.Terms

/-!
# Operands of operators

An operand of an operator stands without parentheses where its own operator binds tightly enough.
A tier of operators groups to the left: behind its first operand it takes one operator after the
other. So a tree of the tier can be continued like the operand that it begins with.
-/

namespace ObjectLang

open Parse Grammar

/-! ## Tiers -/

def tierOp? : Nat → Token → Option (Expr → Expr → Expr)
  | 2 => compareOp?
  | 3 => additiveOp?
  | 4 => multiplicativeOp?
  | _ => fun _ => none

/-- The rule of a tier. The tightest one is that of prefix operators and terms, with a bound of
its own on the number of prefix operators. -/
def tierRule (k depth : Nat) : Nat → Parse Expr
  | 2 => comparison (parse k) k
  | 3 => additive (parse k) k
  | 4 => multiplicative (parse k) k
  | _ => unary (parse k) k depth

section
variable {n k depth : Nat} {nd : Bool} {A B C : List Piece}

theorem tierRule_eq (h : 2 ≤ n) (h' : n ≤ 4) :
    tierRule k depth n = tier (tierOp? n) (tierRule k k (n + 1)) k := by
  obtain rfl | rfl | rfl : n = 2 ∨ n = 3 ∨ n = 4 := by omega
  all_goals rfl

/-- No operator of the tier or of a tighter one follows, and no parenthesis, which could open the
arguments of a call. -/
def EndsOperand (n : Nat) (B : List Piece) : Prop :=
  Looser n B ∧ headIs B .lparen = false

theorem EndsOperand.mono {m : Nat} (h : EndsOperand m B) (le : m ≤ n) : EndsOperand n B :=
  ⟨h.1.mono le, h.2⟩

theorem arith_tightness (op : ArithOp) : 2 ≤ tightness (.fixed (arithMark op)) ∧
    tightness (.fixed (arithMark op)) ≤ 4 := by
  cases op <;> decide

theorem EndsOperand.tierOp? (h : EndsOperand n B) : ∀ p ∈ B.head?, tierOp? n p.token = none := by
  unfold ObjectLang.tierOp?
  split
  · exact h.1.compare
  · exact h.1.additive
  · exact h.1.multiplicative
  · exact fun _ _ => rfl

theorem endsOperand_of_stops (h : Stops nd B) (hn : 0 < n) : EndsOperand n B :=
  ⟨h.looser hn, h.headIs rfl⟩

theorem endsOperand_mark {f : Fixed} (h : tightness (.fixed f) < n) (paren : f ≠ .lparen) :
    EndsOperand n (mark f :: B) := by
  constructor
  · rintro p ⟨⟩
    exact h
  · refine headIs_eq_false ?_
    rintro p ⟨⟩ e
    cases e
    exact paren rfl

end

/-! ## Operands -/

/-- The rule of the tier takes the pieces for the tree. -/
def Stands (n : Nat) (e : Expr) (ps : List Piece) : Prop :=
  ∀ k depth, ps.length ≤ k → ps.length ≤ depth → ∀ nd B, EndsOperand n B →
    Takes nd (tierRule k depth n) (ps ++ B) e B

/-- The rule of the tier comes to the tree behind the pieces, and goes on from there. -/
def Opens (n : Nat) (e : Expr) (ps : List Piece) : Prop :=
  ∀ k, ps.length ≤ k → ∀ nd B result C, EndsOperand (n + 1) B →
    (∀ rounds, k < rounds + ps.length →
      Takes nd (iterate (operation (tierOp? n) (tierRule k k (n + 1))) rounds e) B result C) →
    Takes nd (tier (tierOp? n) (tierRule k k (n + 1)) k) (ps ++ B) result C

structure OperandAt (n : Nat) (e : Expr) (ps : List Piece) : Prop where
  low : 2 ≤ n
  high : n ≤ 5
  begins : Begins ps
  stands : Stands n e ps
  opens : n ≤ 4 → Opens n e ps

section
variable {m n : Nat} {e left right : Expr} {ps l r : List Piece}

theorem Stands.opens (h : Stands (n + 1) e ps) (begins : Begins ps) : Opens n e ps := by
  intro k hk nd B result C hB goes
  have pos := begins.length_pos
  exact (h k k hk hk nd B hB).bind (goes k (by omega))

theorem Opens.stands (h : Opens n e ps) (low : 2 ≤ n) (high : n ≤ 4) : Stands n e ps := by
  intro k depth hk _ nd B hB
  rw [tierRule_eq low high]
  refine h k hk nd B e B (hB.mono (Nat.le_succ n)) fun rounds hr => ?_
  exact takes_iterate_stop (by omega) (takes_operation_stop hB.tierOp?)

theorem operand_of_opens (begins : Begins ps) (h : Opens n e ps) (low : 2 ≤ n) (high : n ≤ 4) :
    OperandAt n e ps :=
  ⟨low, Nat.le_succ_of_le high, begins, h.stands low high, fun _ => h⟩

theorem OperandAt.mono (h : OperandAt n e ps) (low : 2 ≤ m) (le : m ≤ n) : OperandAt m e ps := by
  induction le with
  | refl => exact h
  | @step n le ih =>
    have opens := h.stands.opens h.begins
    exact ih (operand_of_opens h.begins opens (Nat.le_trans low le) (Nat.le_of_succ_le_succ h.high))

/-- An operator between an operand of its tier and one of the next tighter tier. -/
theorem OperandAt.binary {f : Fixed} {combine : Expr → Expr → Expr} (hl : OperandAt n left l)
    (hr : OperandAt (n + 1) right r) (op : tierOp? n (.fixed f) = some combine)
    (tight : tightness (.fixed f) = n) : OperandAt n (combine left right) (l ++ mark f :: r) := by
  have low := hl.low
  have high : n ≤ 4 := Nat.le_of_succ_le_succ hr.high
  have paren : f ≠ .lparen := by
    rintro rfl
    change 0 = n at tight
    omega
  refine operand_of_opens (hl.begins.append _) (fun k hk nd B result C hB goes => ?_) low high
  simp only [List.length_append, List.length_cons] at hk goes
  rw [List.append_assoc, List.cons_append]
  refine hl.opens high k (by omega) nd _ result C
    (endsOperand_mark (tight ▸ Nat.lt_succ_self _) paren) fun rounds hrounds => ?_
  -- One round takes the operator and its right operand, and the others are those behind it.
  have one : Takes nd (operation (tierOp? n) (tierRule k k (n + 1)) left) (mark f :: (r ++ B))
      (some (combine left right)) B := by
    refine takes_peek fun x hx _ => ?_
    simp only [Option.bind_some, hx, op]
    exact takes_next fun _ _ _ =>
      (hr.stands k k (by omega) (by omega) nd B hB).bind (takes_pure _)
  cases rounds with
  | zero => omega
  | succ rounds => exact takes_iterate_step one (goes rounds (by omega))

theorem OperandAt.arith (op : ArithOp)
    (hl : OperandAt (tightness (.fixed (arithMark op))) left l)
    (hr : OperandAt (tightness (.fixed (arithMark op)) + 1) right r) :
    OperandAt (tightness (.fixed (arithMark op))) (.arith op left right)
      (l ++ mark (arithMark op) :: r) :=
  hl.binary hr (by cases op <;> rfl) rfl

theorem OperandAt.compare (op : CompareOp) (hl : OperandAt 2 left l) (hr : OperandAt 3 right r) :
    OperandAt 2 (.compare op left right) (l ++ mark (compareMark op) :: r) :=
  hl.binary hr (by cases op <;> rfl) (by cases op <;> rfl)

/-! ## Prefix operators and terms -/

theorem operand_of_stands (begins : Begins ps) (h : Stands 5 e ps) : OperandAt 5 e ps :=
  ⟨by decide, Nat.le_refl 5, begins, h, fun high => absurd high (by decide)⟩

theorem operand_of_term {p : Piece} (hp : beginsTerm p.token = true)
    (h : ∀ k nd B, headIs B .lparen = false → Takes nd (term (parse k) k) (p :: B) e B) :
    OperandAt 5 e [p] := by
  refine operand_of_stands (begins_of_beginsTerm hp) fun k depth hk hd nd B hB => ?_
  exact unary_of_suffixed (suffixed_of_term (h k nd B hB.2) hB.1 hk) (plain_of_beginsTerm hp) hd

theorem operand_literal {l : Literal} {t : Token} (h : literalToken? l = some t) :
    OperandAt 5 (.literal l) [tok t] :=
  operand_of_term (beginsTerm_literal h) fun _ _ _ _ => takes_literal h

theorem operand_of_group (h : Parses (.group e) ps) : OperandAt 5 e ps := by
  refine operand_of_stands (group_begins h) fun k depth hk hd nd B hB => ?_
  exact group_unary h hk hB.1 (group_pos h hd)

theorem OperandAt.negative (h : OperandAt 5 e ps) :
    OperandAt 5 (.negative e) (mark .minus :: ps) := by
  refine operand_of_stands ⟨_, _, rfl, rfl, rfl⟩ fun k depth hk hd nd B hB => ?_
  rw [List.length_cons] at hk hd
  cases depth with
  | zero => omega
  | succ depth =>
    refine (takes_accept .minus).bind ?_
    rw [if_pos rfl]
    exact (h.stands k depth (by omega) (by omega) nd B hB).bind (takes_pure _)

/-! ## Whole expressions -/

variable {nd : Bool}

theorem OperandAt.comparison (h : OperandAt n e ps) {k : Nat} {B : List Piece}
    (hk : ps.length ≤ k) (hB : EndsOperand 2 B) :
    Takes nd (comparison (parse k) k) (ps ++ B) e B :=
  (h.mono (Nat.le_refl 2) h.low).stands k k hk hk nd B hB

theorem OperandAt.parses (h : OperandAt n e ps) : Parses (.expr nd e) ps := by
  refine parses_of_range h.begins fun k hk B hB => ?_
  exact range_of_comparison (h.comparison hk (endsOperand_of_stops hB (by decide)))
    (hB.looser (by decide))

theorem OperandAt.parses_negation (h : OperandAt n e ps) :
    Parses (.expr nd (.negation e)) (mark .bang :: ps) := by
  refine parses_of_unary ⟨_, _, rfl, rfl, rfl⟩ fun k hk B hB => ?_
  rw [List.length_cons] at hk
  cases k with
  | zero => omega
  | succ k =>
    refine (takes_not_accept rfl).bind ?_
    rw [if_neg (by decide)]
    refine (takes_not_accept rfl).bind ?_
    rw [if_neg (by decide)]
    refine (takes_accept .bang).bind ?_
    rw [if_pos rfl]
    have inner : Takes nd (parse (k + 1) .comparison) (ps ++ B) e B :=
      h.comparison (Nat.le_of_succ_le_succ hk) (endsOperand_of_stops hB (by decide))
    exact inner.bind (takes_pure _)

theorem OperandAt.parses_range (hl : OperandAt m left l) (hr : OperandAt n right r) :
    Parses (.expr nd (.range left right)) (l ++ mark .dotDot :: r) := by
  refine parses_of_range (hl.begins.append _) fun k hk B hB => ?_
  simp only [List.length_append, List.length_cons] at hk
  rw [List.append_assoc, List.cons_append]
  have lower : Takes nd (Grammar.comparison (parse k) k) (l ++ mark .dotDot :: (r ++ B)) left _ :=
    hl.comparison (by omega) (endsOperand_mark (by decide) (by decide))
  have upper : Takes nd (Grammar.comparison (parse k) k) (r ++ B) right B :=
    hr.comparison (by omega) (endsOperand_of_stops hB (by decide))
  refine lower.bind ((takes_accept .dotDot).bind ?_)
  rw [if_pos rfl]
  exact upper.bind (takes_pure _)

/-! ## Operands in parentheses -/

theorem parses_compare (op : CompareOp) (hl : Parses (.group left) l)
    (hr : Parses (.group right) r) :
    Parses (.expr nd (.compare op left right)) (l ++ mark (compareMark op) :: r) :=
  (((operand_of_group hl).mono (by decide) (by decide)).compare op
    ((operand_of_group hr).mono (by decide) (by decide))).parses

theorem parses_arith (op : ArithOp) (hl : Parses (.group left) l) (hr : Parses (.group right) r) :
    Parses (.expr nd (.arith op left right)) (l ++ mark (arithMark op) :: r) := by
  obtain ⟨low, high⟩ := arith_tightness op
  exact (((operand_of_group hl).mono low (by omega)).arith op
    ((operand_of_group hr).mono (by omega) (by omega))).parses

end

end ObjectLang
