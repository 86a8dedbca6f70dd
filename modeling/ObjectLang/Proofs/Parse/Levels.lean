import ObjectLang.Proofs.Parse.Takes
import ObjectLang.Grammar

/-!
# Levels of expressions

An expression that is complete at one level is complete at the levels above it as
well, as long as no token follows that a higher level would take: a suffix, an
operator, an argument, a block or an assignment.
-/

namespace ObjectLang.Grammar

open Parse

/-! ## What may follow -/

/-- How tightly a token binds what stands in front of it to what follows. -/
def tightness : Token → Nat
  | .fixed .dot | .fixed .doubleColon | .fixed .lbracket => 5
  | .fixed .star | .fixed .slash => 4
  | .fixed .plus | .fixed .minus => 3
  | .fixed .equalEqual | .fixed .bangEqual | .fixed .less | .fixed .greater
  | .fixed .lessEqual | .fixed .greaterEqual => 2
  | .fixed .dotDot => 1
  | _ => 0

def Looser (n : Nat) (B : List Piece) : Prop :=
  ∀ p ∈ B.head?, tightness p.token < n

/-- Whether an expression ends in front of the token. A `do` ends it only where it belongs to
an enclosing construct. -/
def stops (nd : Bool) : Token → Bool
  | .fixed .newline | .fixed .semicolon | .fixed .rparen | .fixed .rbracket | .fixed .rbrace
  | .fixed .comma | .fixed .fatArrow | .fixed .thenWord | .fixed .endWord | .fixed .elseWord
  | .fixed .elifWord => true
  | .fixed .doWord => nd
  | _ => false

def Stops (nd : Bool) (B : List Piece) : Prop :=
  ∀ p ∈ B.head?, stops nd p.token = true

/-- Whether a name in front of the token is no call. -/
def endsCall (nd : Bool) (t : Token) : Bool :=
  stops nd t || t.isFixed .equals

def EndsCall (nd : Bool) (B : List Piece) : Prop :=
  ∀ p ∈ B.head?, endsCall nd p.token = true

section
variable {nd : Bool} {A B C : List Piece}

theorem tightness_of_endsCall {t : Token} (h : endsCall nd t = true) : tightness t = 0 := by
  cases t with
  | fixed f => cases f <;> first | rfl | exact absurd h (by cases nd <;> decide)
  | _ => rfl

theorem Stops.endsCall (h : Stops nd B) : EndsCall nd B := by
  intro p hp
  rw [Grammar.endsCall, h p hp]
  rfl

theorem EndsCall.looser (h : EndsCall nd B) {n : Nat} (hn : 0 < n) : Looser n B := by
  intro p hp
  rw [tightness_of_endsCall (h p hp)]
  exact hn

theorem Stops.looser (h : Stops nd B) {n : Nat} (hn : 0 < n) : Looser n B :=
  h.endsCall.looser hn

theorem Looser.mono {m n : Nat} (h : Looser m B) (hmn : m ≤ n) : Looser n B :=
  fun p hp => Nat.lt_of_lt_of_le (h p hp) hmn

theorem Looser.headIs {n : Nat} (h : Looser n B) {f : Fixed} (hf : n ≤ tightness (.fixed f)) :
    headIs B f = false := by
  apply headIs_eq_false
  intro p hp e
  have := h p hp
  rw [e] at this
  omega

theorem EndsCall.headIs (h : EndsCall nd B) {f : Fixed} (hf : endsCall nd (.fixed f) = false) :
    headIs B f = false := by
  apply headIs_eq_false
  intro p hp e
  have := h p hp
  rw [e, hf] at this
  cases this

theorem Stops.headIs (h : Stops nd B) {f : Fixed} (hf : stops nd (.fixed f) = false) :
    headIs B f = false := by
  apply headIs_eq_false
  intro p hp e
  have := h p hp
  rw [e, hf] at this
  cases this

end

/-! ## Terms, suffixes and operators -/

section
variable {r : Nested} {k : Nat} {nd : Bool} {A B C : List Piece} {e : Expr}

theorem takes_suffix_stop (h : Looser 5 B) : Takes nd (suffix r k e) B none B := by
  cases B with
  | nil => exact takes_peek_end (takes_pure none)
  | cons p B =>
    refine takes_peek fun l hl _ => ?_
    have hdot := h.headIs (f := .dot) (by decide)
    have hcolon := h.headIs (f := .doubleColon) (by decide)
    have hbracket := h.headIs (f := .lbracket) (by decide)
    rw [headIs, List.head?_cons, Option.any_some, ← hl] at hdot hcolon hbracket
    simp only [hdot, hcolon, hbracket]
    exact takes_pure none

theorem suffixed_of_term (h : Takes nd (term r k) A e B) (hB : Looser 5 B) (hk : 0 < k) :
    Takes nd (suffixed r k) A e B :=
  h.bind (takes_iterate_stop hk (takes_suffix_stop hB))

/-- No prefix operator begins the pieces. -/
def Plain (A : List Piece) : Prop :=
  headIs A .minus = false ∧ headIs A .plus = false ∧ headIs A .bang = false

theorem unary_of_suffixed (h : Takes nd (suffixed r k) A e B) (hA : Plain A) {depth : Nat}
    (hd : 0 < depth) : Takes nd (unary r k depth) A e B := by
  cases depth with
  | zero => exact absurd hd (Nat.lt_irrefl 0)
  | succ depth =>
    refine (takes_not_accept hA.1).bind ?_
    rw [if_neg (by decide)]
    refine (takes_not_accept hA.2.1).bind ?_
    rw [if_neg (by decide)]
    refine (takes_not_accept hA.2.2).bind ?_
    rw [if_neg (by decide)]
    exact h

theorem takes_operation_stop {operator? : Token → Option (Expr → Expr → Expr)}
    {operand : Parse Expr} (h : ∀ p ∈ B.head?, operator? p.token = none) :
    Takes nd (operation operator? operand e) B none B := by
  cases B with
  | nil => exact takes_peek_end (takes_pure none)
  | cons p B =>
    refine takes_peek fun l hl _ => ?_
    simp only [Option.bind_some, hl, h p rfl]
    exact takes_pure none

theorem tier_one {operator? : Token → Option (Expr → Expr → Expr)} {operand : Parse Expr}
    (h : Takes nd operand A e B) (hB : ∀ p ∈ B.head?, operator? p.token = none) (hk : 0 < k) :
    Takes nd (tier operator? operand k) A e B :=
  h.bind (takes_iterate_stop hk (takes_operation_stop hB))

theorem Looser.multiplicative (h : Looser 4 B) : ∀ p ∈ B.head?, multiplicativeOp? p.token = none := by
  intro p hp
  have ht := h p hp
  unfold multiplicativeOp?
  split
  · next e => rw [e] at ht; exact absurd ht (by decide)
  · next e => rw [e] at ht; exact absurd ht (by decide)
  · rfl

theorem Looser.additive (h : Looser 3 B) : ∀ p ∈ B.head?, additiveOp? p.token = none := by
  intro p hp
  have ht := h p hp
  unfold additiveOp?
  split
  · next e => rw [e] at ht; exact absurd ht (by decide)
  · next e => rw [e] at ht; exact absurd ht (by decide)
  · rfl

theorem Looser.compare (h : Looser 2 B) : ∀ p ∈ B.head?, compareOp? p.token = none := by
  intro p hp
  have ht := h p hp
  unfold compareOp?
  split
  all_goals first | rfl | (next e => rw [e] at ht; exact absurd ht (by decide))

theorem range_of_comparison (h : Takes nd (comparison r k) A e B) (hB : Looser 1 B) :
    Takes nd (range r k) A e B := by
  refine h.bind ((takes_not_accept (hB.headIs (by decide))).bind ?_)
  rw [if_neg (by decide)]
  exact takes_pure e

theorem comparison_of_unary (h : Takes nd (unary r k k) A e B) (hB : Looser 2 B) (hk : 0 < k) :
    Takes nd (comparison r k) A e B := by
  have products : Takes nd (multiplicative r k) A e B :=
    tier_one h (hB.mono (by decide)).multiplicative hk
  have sums : Takes nd (additive r k) A e B := tier_one products (hB.mono (by decide)).additive hk
  exact tier_one sums hB.compare hk

theorem range_of_suffixed (h : Takes nd (suffixed r k) A e B) (hA : Plain A) (hB : Looser 1 B)
    (hk : 0 < k) : Takes nd (range r k) A e B :=
  range_of_comparison (comparison_of_unary (unary_of_suffixed h hA hk) (hB.mono (by decide)) hk) hB

/-! ## Whole expressions -/

theorem beginsArgument_of_endsCall {l : Lexeme} (h : endsCall nd l.token = true) :
    beginsArgument l = false := by
  unfold beginsArgument
  cases ht : l.token with
  | fixed f =>
    rw [ht] at h
    cases f <;> first | rfl | exact absurd h (by cases nd <;> decide)
  | _ => rw [ht] at h; exact absurd h Bool.false_ne_true

theorem takes_argumentFollows (h : EndsCall nd B) : Takes nd argumentFollows B false B := by
  cases B with
  | nil => exact takes_peek_end (takes_pure false)
  | cons p B =>
    refine takes_peek fun l hl _ => ?_
    have e : (some l).any beginsArgument = false := by
      rw [Option.any_some]
      exact beginsArgument_of_endsCall (by rw [hl]; exact h p rfl)
    rw [e]
    exact takes_pure false

theorem takes_blockTrailer_none (h : EndsCall nd B) : Takes nd (blockTrailer r k) B none B := by
  have noBrace : Takes nd (do
      if ← accept .lbrace then
        let b ← blockBody r .rbrace k
        pure (some b)
      else pure none) B none B := by
    refine (takes_not_accept (h.headIs (by cases nd <;> decide))).bind ?_
    rw [if_neg (by decide)]
    exact takes_pure none
  refine takes_doAllowed.bind ?_
  cases nd with
  | true => exact (takes_pure false).bind noBrace
  | false => exact (takes_not_accept (h.headIs (by decide))).bind noBrace

theorem takes_commandCall (h : EndsCall nd B) : Takes nd (commandCall r k e) B e B := by
  unfold commandCall
  split
  · refine (takes_argumentFollows h).bind ?_
    rw [if_neg (by decide)]
    exact (takes_blockTrailer_none h).bind (takes_pure _)
  · exact takes_pure _

theorem expression_of_range (h : Takes nd (range r k) A e B) (hB : Stops nd B) :
    Takes nd (expression r k) A e B := by
  refine takes_lineHere fun line => h.bind ((takes_commandCall hB.endsCall).bind ?_)
  refine (takes_not_accept (hB.headIs (by cases nd <;> decide))).bind ?_
  rw [if_neg (by decide)]
  exact takes_pure e

theorem expression_of_assignment {target value e : Expr} {g : Bool}
    (ht : Takes nd (range r k) A target (⟨.fixed .equals, g⟩ :: B))
    (he : assignmentTo? target value = some e) {run C D : List Piece} (hrun : Newlines run)
    (hB : B = run ++ C) (hC : headIs C .newline = false) (hk : run.length < k)
    (hv : Takes nd (r .expression) C value D) : Takes nd (expression r k) A e D := by
  have ends : EndsCall nd (⟨.fixed .equals, g⟩ :: B) := by
    rintro p ⟨⟩
    rfl
  refine takes_lineHere fun line => ht.bind ((takes_commandCall ends).bind ?_)
  refine (takes_accept .equals).bind ?_
  rw [if_pos rfl, hB]
  refine (takes_skipNewlines hrun hC hk).bind (hv.bind ?_)
  rw [he]
  exact takes_pure e

end

end ObjectLang.Grammar
