import ObjectLang.Proofs.Parse.WellFormed

/-!
# Well-placed trees

Which trees may stand below which others: blocks only as the last argument of a call, rows of
commands only as bodies, and the targets of assignments and definitions only in their few forms.
The type of trees admits much more, and evaluation would refuse it.
-/

namespace ObjectLang

namespace Expr

/-! ## Nodes -/

/-- The trees directly below a tree. -/
def children : Expr → List Expr
  | literal _ | name _ | selfRef | instanceVar _ | classVar _ => []
  | arith _ l r | compare _ l r | range l r => [l, r]
  | negative e | negation e => [e]
  | assign _ v | assignInstanceVar _ v | assignClassVar _ v => [v]
  | assignIndexed t i v => [t, i, v]
  | assignDot t v => [t, v]
  | call _ args => args
  | dot t _ args => t :: args
  | doubleColon t _ => [t]
  | ifElse c b other => c :: b :: other.toList
  | whileLoop c b | untilLoop c b => [c, b]
  | forIn _ c b => [c, b]
  | define t _ b => [t, b]
  | classDef n superclass b => n :: b :: superclass.toList
  | moduleDef _ b => [b]
  | array es => es
  | hash es => es.flatMap fun x => [x.1, x.2]
  | indexed t i => [t, i]
  | block _ b => [b]
  | sequence es => es

/-- The first tree is a node of the second. -/
inductive Within : Expr → Expr → Prop where
  | root (e : Expr) : Within e e
  | under {n c e : Expr} : c ∈ e.children → Within n c → Within n e

/-! ## Places -/

/-- What can stand for a value anywhere: no block, no row of commands, and of the names only
those that can be written. -/
def IsOperand : Expr → Prop
  | block _ _ | sequence _ => False
  | name n => IsName n
  | _ => True

/-- What can be the body of a construct: an operand alone, or a row of commands. -/
def IsBody (e : Expr) : Prop :=
  e.IsOperand ∨ ∃ es, e = sequence es

def IsBlock (e : Expr) : Prop :=
  ∃ params body, e = block params body

/-- The arguments of a call: operands, and behind them perhaps a block. -/
def AreArguments (args : List Expr) : Prop :=
  ∃ (operands : List Expr) (b : Option Expr), args = operands ++ b.toList ∧
    (∀ a ∈ operands, a.IsOperand) ∧ ∀ x ∈ b, x.IsBlock

/-- What the node asks of itself and of the trees directly below it. -/
def WellPlaced : Expr → Prop
  | literal (.integer n) => 0 ≤ n.toInt
  | literal _ | name _ | selfRef | instanceVar _ | classVar _ => True
  | arith _ l r | compare _ l r | range l r => l.IsOperand ∧ r.IsOperand
  | negative e | negation e => e.IsOperand
  | assign _ v | assignInstanceVar _ v | assignClassVar _ v => v.IsOperand
  | assignIndexed t i v => t.IsOperand ∧ i.IsOperand ∧ v.IsOperand
  | assignDot t v => (∃ receiver n, t = dot receiver n []) ∧ v.IsOperand
  | call n args => IsName n ∧ AreArguments args
  | dot t _ args => t.IsOperand ∧ AreArguments args
  | doubleColon t _ => t.IsOperand
  | ifElse c b other => c.IsOperand ∧ b.IsBody ∧ ∀ x ∈ other, x.IsBody
  | whileLoop c b | untilLoop c b => c.IsOperand ∧ b.IsBody
  | forIn n c b => IsName n ∧ c.IsOperand ∧ b.IsBody
  | define t params b => IsDefTarget t ∧ (∀ n ∈ params, IsName n) ∧ b.IsBody
  | classDef n superclass b => IsClassName n ∧ (∀ x ∈ superclass, x.IsOperand) ∧ b.IsBody
  | moduleDef n b => IsName n ∧ isConstant n = true ∧ b.IsBody
  | array es => ∀ e ∈ es, e.IsOperand
  | hash es => ∀ x ∈ es, x.1.IsOperand ∧ x.2.IsOperand
  | indexed t i => t.IsOperand ∧ i.IsOperand
  | block params b => (∀ n ∈ params, IsName n) ∧ b.IsBody
  | sequence es => es.length ≠ 1 ∧ ∀ e ∈ es, e.IsOperand

/-- Every node of the tree is well placed. -/
def Sound (e : Expr) : Prop :=
  ∀ n, Within n e → n.WellPlaced

theorem sound_iff {e : Expr} : e.Sound ↔ e.WellPlaced ∧ ∀ c ∈ e.children, c.Sound := by
  constructor
  · exact fun h => ⟨h e (.root e), fun c hc n hn => h n (.under hc hn)⟩
  · rintro ⟨here, below⟩ n hn
    cases hn with
    | root => exact here
    | under hc hn => exact below _ hc n hn

theorem Sound.child {e c : Expr} (h : e.Sound) (hc : c ∈ e.children) : c.Sound :=
  (sound_iff.mp h).2 c hc

theorem Sound.here {e : Expr} (h : e.Sound) : e.WellPlaced :=
  h e (.root e)

/-! ## Parts of trees -/

/-- An operand all of whose nodes are well placed. -/
structure Operand (e : Expr) : Prop where
  place : e.IsOperand
  sound : e.Sound

structure Body (e : Expr) : Prop where
  place : e.IsBody
  sound : e.Sound

structure Attached (e : Expr) : Prop where
  place : e.IsBlock
  sound : e.Sound

structure Arguments (args : List Expr) : Prop where
  place : AreArguments args
  sound : ∀ a ∈ args, a.Sound

theorem operand_of {e : Expr} (place : e.IsOperand) (here : e.WellPlaced)
    (below : ∀ c ∈ e.children, c.Sound) : e.Operand :=
  ⟨place, sound_iff.mpr ⟨here, below⟩⟩

/-- A leaf asks for nothing below it. -/
theorem operand_leaf {e : Expr} (place : e.IsOperand) (here : e.WellPlaced)
    (leaf : e.children = []) : e.Operand :=
  operand_of place here (leaf ▸ nofun)

theorem Operand.body {e : Expr} (h : e.Operand) : e.Body :=
  ⟨.inl h.place, h.sound⟩

/-- One command stands for itself, and any other number of them for a row. -/
theorem body_ofBody {es : List Expr} (h : ∀ e ∈ es, e.Operand) : (ofBody es).Body := by
  match es with
  | [e] => exact (h e List.mem_cons_self).body
  | [] => exact ⟨.inr ⟨[], rfl⟩, sound_iff.mpr ⟨⟨by decide, nofun⟩, nofun⟩⟩
  | e :: e' :: es =>
    refine ⟨.inr ⟨_, rfl⟩, sound_iff.mpr ⟨⟨?_, fun x hx => (h x hx).place⟩, fun x hx => (h x hx).sound⟩⟩
    exact fun one => absurd (Nat.succ.inj one) (Nat.succ_ne_zero _)

theorem arguments_append {operands : List Expr} {b : Option Expr} (h : ∀ a ∈ operands, a.Operand)
    (hb : ∀ x ∈ b, x.Attached) : Arguments (operands ++ b.toList) := by
  refine ⟨⟨operands, b, rfl, fun a ha => (h a ha).place, fun x hx => (hb x hx).place⟩, fun a ha => ?_⟩
  rcases List.mem_append.mp ha with ha | ha
  · exact (h a ha).sound
  · exact (hb a (Option.mem_toList.mp ha)).sound

theorem operand_name {n : String} (h : IsName n) : (name n).Operand :=
  operand_leaf h trivial rfl

theorem attached_block {params : List String} {b : Expr} (hp : ∀ n ∈ params, IsName n)
    (hb : b.Body) : (block params b).Attached :=
  ⟨⟨params, b, rfl⟩, sound_iff.mpr ⟨⟨hp, hb.place⟩, fun _ hc => List.mem_singleton.mp hc ▸ hb.sound⟩⟩

end Expr

end ObjectLang
