import ObjectLang.Proofs.Parse.Inverse
import ObjectLang.Proofs.Parse.WellFormed

/-!
# Precedence

Trees of operators are printed with parentheses only where an operand binds less tightly than its
place asks for. The text is parsed back to the tree: no operand is split or taken by another
operator, and no name becomes a call.
-/

namespace ObjectLang

open Parse Grammar

/-! ## Trees of operators -/

inductive IsOperation : Expr → Prop where
  | literal {l : Literal} : l.WellFormed → IsOperation (.literal l)
  | name {n : String} : IsName n → IsOperation (.name n)
  | selfRef : IsOperation .selfRef
  | instanceVar {n : String} : IsIdentifier n.toList → IsOperation (.instanceVar n)
  | classVar {n : String} : IsIdentifier n.toList → IsOperation (.classVar n)
  | arith (op : ArithOp) {left right : Expr} : IsOperation left → IsOperation right →
      IsOperation (.arith op left right)
  | compare (op : CompareOp) {left right : Expr} : IsOperation left → IsOperation right →
      IsOperation (.compare op left right)
  | range {lower upper : Expr} : IsOperation lower → IsOperation upper →
      IsOperation (.range lower upper)
  | negative {e : Expr} : IsOperation e → IsOperation (.negative e)
  | negation {e : Expr} : IsOperation e → IsOperation (.negation e)

/-- How tightly the outermost operator of a tree binds. A `!` takes a whole comparison, so that
as an operand it is always put in parentheses. -/
def Expr.rank : Expr → Nat
  | .negation _ => 0
  | .range _ _ => 1
  | .compare _ _ _ => 2
  | .arith op _ _ => tightness (.fixed (arithMark op))
  | .negative _ => 5
  | _ => 6

/-- An operand in a place where nothing below the rank `n` can stand without parentheses. -/
def placed (n : Nat) (e : Expr) (ps : List Piece) : List Piece :=
  if n ≤ e.rank then ps else mark .lparen :: (ps ++ [mark .rparen])

/-- The tokens of a tree of operators, with no more parentheses than its operands need. -/
def operationPieces : Expr → List Piece
  | .literal l => (literalToken? l).toList.map tok
  | .name n => [tok (.name n)]
  | .selfRef => [mark .selfWord]
  | .instanceVar n => [tok (.instanceVar n)]
  | .classVar n => [tok (.classVar n)]
  | .arith op left right =>
    let n := tightness (.fixed (arithMark op))
    placed n left (operationPieces left) ++
      mark (arithMark op) :: placed (n + 1) right (operationPieces right)
  | .compare op left right =>
    placed 2 left (operationPieces left) ++
      mark (compareMark op) :: placed 3 right (operationPieces right)
  | .range lower upper =>
    placed 2 lower (operationPieces lower) ++ mark .dotDot :: placed 2 upper (operationPieces upper)
  | .negative e => mark .minus :: placed 5 e (operationPieces e)
  | .negation e => mark .bang :: placed 2 e (operationPieces e)
  | _ => []

/-! ## The text of a tree -/

theorem writable_placed {n : Nat} {e : Expr} {ps : List Piece} (h : Writable ps) :
    Writable (placed n e ps) := by
  unfold placed
  split
  · exact h
  · exact (writable_fixed .lparen).cons (h.append (writable_fixed .rparen))

theorem writable_operation {e : Expr} (h : IsOperation e) : Writable (operationPieces e) := by
  induction h with
  | literal h =>
    obtain ⟨t, ht, hw⟩ := exists_literalToken h
    rw [operationPieces, ht]
    exact hw
  | name h => exact writable_token (spelling_name h)
  | selfRef => exact writable_fixed .selfWord
  | instanceVar h => exact writable_token (spelling_instanceVar h)
  | classVar h => exact writable_token (spelling_classVar h)
  | arith op _ _ hl hr =>
    exact (writable_placed hl).append ((writable_fixed _).cons (writable_placed hr))
  | compare op _ _ hl hr =>
    exact (writable_placed hl).append ((writable_fixed _).cons (writable_placed hr))
  | range _ _ hl hu =>
    exact (writable_placed hl).append ((writable_fixed _).cons (writable_placed hu))
  | negative _ h => exact (writable_fixed .minus).cons (writable_placed h)
  | negation _ h => exact (writable_fixed .bang).cons (writable_placed h)

/-! ## Reading it back -/

/-- The pieces are parsed to the tree by themselves, and as an operand where its rank allows. -/
structure ParsesOperation (e : Expr) (ps : List Piece) : Prop where
  parses : Parses (.expr false e) ps
  operand : 2 ≤ e.rank → OperandAt (min e.rank 5) e ps

section
variable {e left right : Expr} {ps l r : List Piece}

theorem parsesOperation_of_operand {n : Nat} (h : OperandAt n e ps) (hn : min e.rank 5 = n) :
    ParsesOperation e ps :=
  ⟨h.parses, fun _ => hn ▸ h⟩

theorem ParsesOperation.placed (h : ParsesOperation e ps) {n : Nat} (low : 2 ≤ n) (high : n ≤ 5) :
    OperandAt n e (placed n e ps) := by
  unfold ObjectLang.placed
  split
  · exact (h.operand (by omega)).mono low (by omega)
  · have group := parses_group separators_nil h.parses separators_nil
    exact (operand_of_group group).mono low high

theorem parses_operation {e : Expr} (h : IsOperation e) : ParsesOperation e (operationPieces e) := by
  induction h with
  | literal h =>
    obtain ⟨t, ht, _⟩ := exists_literalToken h
    rw [operationPieces, ht]
    exact parsesOperation_of_operand (operand_literal ht) rfl
  | name h => exact parsesOperation_of_operand (operand_of_term rfl fun _ _ _ => takes_name _) rfl
  | selfRef =>
    refine parsesOperation_of_operand (operand_of_term rfl fun _ _ _ _ => ?_) rfl
    exact takes_fixedTerm fun _ => takes_pure _
  | instanceVar h =>
    refine parsesOperation_of_operand (operand_of_term rfl fun _ _ _ _ => ?_) rfl
    exact takes_instanceVar _
  | classVar h =>
    refine parsesOperation_of_operand (operand_of_term rfl fun _ _ _ _ => ?_) rfl
    exact takes_classVar _
  | arith op _ _ hl hr =>
    obtain ⟨low, high⟩ := arith_tightness op
    have whole := (hl.placed low (by omega)).arith op (hr.placed (by omega) (by omega))
    exact parsesOperation_of_operand whole (Nat.min_eq_left (Nat.le_succ_of_le high))
  | compare op _ _ hl hr =>
    have whole := (hl.placed (by decide) (by decide)).compare op (hr.placed (by decide) (by decide))
    exact parsesOperation_of_operand whole rfl
  | range _ _ hl hu =>
    -- A range is no operand, and neither is a negation.
    refine ⟨?_, fun low => absurd low (show ¬2 ≤ 1 by decide)⟩
    exact (hl.placed (Nat.le_refl 2) (by decide)).parses_range
      (hu.placed (Nat.le_refl 2) (by decide))
  | negative _ h =>
    exact parsesOperation_of_operand (h.placed (by decide) (Nat.le_refl 5)).negative rfl
  | negation _ h =>
    refine ⟨?_, fun low => absurd low (show ¬2 ≤ 0 by decide)⟩
    exact (h.placed (Nat.le_refl 2) (by decide)).parses_negation

end

/-- A tree of operators can be printed with the parentheses that its operands need, and whatever
text it is printed as, the text is parsed to this one tree. -/
theorem parse_operation {e : Expr} (h : IsOperation e) :
    (∃ text : String, Reads text.toList (operationPieces e)) ∧
      ∀ text : String, Reads text.toList (operationPieces e) →
        ∃ rest, parseProgram text = .ok [e] rest := by
  constructor
  · obtain ⟨text, ht⟩ := (writable_operation h).text
    refine ⟨String.ofList text, ?_⟩
    rw [String.toList_ofList]
    exact ht
  · intro text ht
    have alone : Sequenced [(e, operationPieces e)] (operationPieces e) := .last separators_nil
    refine parse_commands alone (fun x hx => ?_) ht
    rw [List.mem_singleton.mp hx]
    exact (parses_operation h).parses

/-- The tree of `!a - b - -c == d`. -/
def negatedComparison : Expr :=
  .negation (.compare .equal
    (.arith .subtract (.arith .subtract (.name "a") (.name "b")) (.negative (.name "c")))
    (.name "d"))

/-- Subtractions group to the left, and a `!` negates the whole comparison behind it. -/
theorem parse_negatedComparison :
    operationPieces negatedComparison = [mark .bang, tok (.name "a"), mark .minus, tok (.name "b"),
      mark .minus, mark .minus, tok (.name "c"), mark .equalEqual, tok (.name "d")] ∧
    (∃ text : String, Reads text.toList (operationPieces negatedComparison)) ∧
    ∀ text : String, Reads text.toList (operationPieces negatedComparison) →
      ∃ rest, parseProgram text = .ok [negatedComparison] rest := by
  have name {n : String} (h : IsIdentifier n.toList) (h' : Fixed.keywords.lookup n = none) :
      IsOperation (.name n) := .name ⟨h, h'⟩
  have difference : IsOperation (.arith .subtract (.name "a") (.name "b")) :=
    .arith .subtract (name (by decide) rfl) (name (by decide) rfl)
  have left : IsOperation (.arith .subtract (.arith .subtract (.name "a") (.name "b"))
      (.negative (.name "c"))) := .arith .subtract difference (.negative (name (by decide) rfl))
  exact ⟨rfl, parse_operation (.negation (.compare .equal left (name (by decide) rfl)))⟩

end ObjectLang
