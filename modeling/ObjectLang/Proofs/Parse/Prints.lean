import ObjectLang.Proofs.Parse.Parts

/-!
# Printed programs

The ways to print a syntax tree with every operand, receiver, condition, index,
superclass, argument, element and assigned value in parentheses. Layout is free:
ends of lines inside brackets and around commands, semicolons, `then` or a new
line, `do` or a new line, either kind of block, `elif` or a nested condition.
-/

namespace ObjectLang

open Parse Grammar

/-! ## Literals and operators -/

/-- The token of a literal; reals have none here. -/
def literalToken? : Literal → Option Token
  | .nil => some (.fixed .nilWord)
  | .bool true => some (.fixed .trueWord)
  | .bool false => some (.fixed .falseWord)
  | .integer n => some (.integer n)
  | .real _ => none
  | .str s => some (.str s)
  | .symbol s => some (.symbol s)

def arithMark : ArithOp → Fixed
  | .add => .plus | .subtract => .minus | .multiply => .star | .divide => .slash

def compareMark : CompareOp → Fixed
  | .equal => .equalEqual | .notEqual => .bangEqual | .less => .less | .greater => .greater
  | .lessOrEqual => .lessEqual | .greaterOrEqual => .greaterEqual

/-! ## Printed forms -/

/-- What can be printed. -/
inductive Form where
  /-- A command. Where a `do` belongs to an enclosing loop, `noDo` is set. -/
  | expr (noDo : Bool) (e : Expr)
  | group (e : Expr)
  | entry (entry : Expr × Expr)
  | body (noDo : Bool) (e : Expr)
  /-- What follows an `if` or `elif`. -/
  | branches (noDo : Bool) (condition thenBranch : Expr) (elseBranch : Option Expr)
  /-- What follows the opening token of a block. -/
  | block (closing : Fixed) (e : Expr)
  /-- What follows the opening parenthesis of arguments, with the block behind them. -/
  | arguments (noDo : Bool) (args : List Expr)

inductive Prints : Form → List Piece → Prop where
  | literal {nd : Bool} {l : Literal} {t : Token} : literalToken? l = some t →
      Prints (.expr nd (.literal l)) [tok t]
  | name {nd : Bool} (n : String) : Prints (.expr nd (.name n)) [tok (.name n)]
  | selfRef {nd : Bool} : Prints (.expr nd .selfRef) [mark .selfWord]
  | instanceVar {nd : Bool} (n : String) :
      Prints (.expr nd (.instanceVar n)) [tok (.instanceVar n)]
  | classVar {nd : Bool} (n : String) : Prints (.expr nd (.classVar n)) [tok (.classVar n)]
  | arith {nd : Bool} (op : ArithOp) {left right : Expr} {l r : List Piece} :
      Prints (.group left) l → Prints (.group right) r →
      Prints (.expr nd (.arith op left right)) (l ++ mark (arithMark op) :: r)
  | compare {nd : Bool} (op : CompareOp) {left right : Expr} {l r : List Piece} :
      Prints (.group left) l → Prints (.group right) r →
      Prints (.expr nd (.compare op left right)) (l ++ mark (compareMark op) :: r)
  | negative {nd : Bool} {e : Expr} {g : List Piece} : Prints (.group e) g →
      Prints (.expr nd (.negative e)) (mark .minus :: g)
  | negation {nd : Bool} {e : Expr} {g : List Piece} : Prints (.group e) g →
      Prints (.expr nd (.negation e)) (mark .bang :: g)
  | assign {nd : Bool} (n : String) {value : Expr} {run v : List Piece} : Newlines run →
      Prints (.group value) v →
      Prints (.expr nd (.assign n value)) (tok (.name n) :: mark .equals :: (run ++ v))
  | assignInstanceVar {nd : Bool} (n : String) {value : Expr} {run v : List Piece} :
      Newlines run → Prints (.group value) v →
      Prints (.expr nd (.assignInstanceVar n value))
        (tok (.instanceVar n) :: mark .equals :: (run ++ v))
  | assignClassVar {nd : Bool} (n : String) {value : Expr} {run v : List Piece} :
      Newlines run → Prints (.group value) v →
      Prints (.expr nd (.assignClassVar n value))
        (tok (.classVar n) :: mark .equals :: (run ++ v))
  | assignIndexed {nd : Bool} {target index value : Expr} {t a i b run v : List Piece} :
      Prints (.group target) t → Newlines a → Prints (.group index) i → Newlines b →
      Newlines run → Prints (.group value) v →
      Prints (.expr nd (.assignIndexed target index value))
        ((t ++ touching .lbracket :: (a ++ (i ++ (b ++ [mark .rbracket])))) ++
          mark .equals :: (run ++ v))
  | assignDot {nd : Bool} {target value : Expr} {n : String} {m : Token} {t run v : List Piece} :
      Prints (.group target) t → m.methodName? = some n → Newlines run →
      Prints (.group value) v →
      Prints (.expr nd (.assignDot (.dot target n []) value))
        ((t ++ [mark .dot, tok m]) ++ mark .equals :: (run ++ v))
  | call {nd : Bool} (n : String) {args : List Expr} {as : List Piece} :
      Prints (.arguments nd args) as →
      Prints (.expr nd (.call n args)) (tok (.name n) :: touching .lparen :: as)
  | dot {nd : Bool} {target : Expr} {n : String} {m : Token} {args : List Expr}
      {t as : List Piece} : Prints (.group target) t → m.methodName? = some n →
      Prints (.arguments nd args) as →
      Prints (.expr nd (.dot target n args)) (t ++ mark .dot :: tok m :: touching .lparen :: as)
  | dotAlone {nd : Bool} {target : Expr} {n : String} {m : Token} {t : List Piece} :
      Prints (.group target) t → m.methodName? = some n →
      Prints (.expr nd (.dot target n [])) (t ++ [mark .dot, tok m])
  | doubleColon {nd : Bool} {target : Expr} {n : String} {m : Token} {t : List Piece} :
      Prints (.group target) t → m.methodName? = some n →
      Prints (.expr nd (.doubleColon target n)) (t ++ [mark .doubleColon, tok m])
  | ifElse {nd : Bool} {condition thenBranch : Expr} {elseBranch : Option Expr}
      {ps : List Piece} : Prints (.branches nd condition thenBranch elseBranch) ps →
      Prints (.expr nd (.ifElse condition thenBranch elseBranch)) (mark .ifWord :: ps)
  | whileLoop {nd : Bool} {condition body : Expr} {c b : List Piece} {h : Piece} :
      Prints (.group condition) c → HeaderEnd .doWord h → Prints (.body nd body) b →
      Prints (.expr nd (.whileLoop condition body))
        (mark .whileWord :: (c ++ h :: (b ++ [mark .endWord])))
  | untilLoop {nd : Bool} {condition body : Expr} {c b : List Piece} {h : Piece} :
      Prints (.group condition) c → HeaderEnd .doWord h → Prints (.body nd body) b →
      Prints (.expr nd (.untilLoop condition body))
        (mark .untilWord :: (c ++ h :: (b ++ [mark .endWord])))
  | forIn {nd : Bool} (n : String) {collection body : Expr} {c b : List Piece} {h : Piece} :
      Prints (.group collection) c → HeaderEnd .doWord h → Prints (.body nd body) b →
      Prints (.expr nd (.forIn n collection body))
        (mark .forWord :: tok (.name n) :: mark .inWord :: (c ++ h :: (b ++ [mark .endWord])))
  | forInBare {nd : Bool} (n : String) {collection body : Expr} {c b : List Piece} {h : Piece} :
      Prints (.expr true collection) c → HeaderEnd .doWord h → Prints (.body nd body) b →
      Prints (.expr nd (.forIn n collection body))
        (mark .forWord :: tok (.name n) :: mark .inWord :: (c ++ h :: (b ++ [mark .endWord])))
  | define {nd : Bool} {target body : Expr} {params : List String} {t ns b : List Piece} :
      DefTarget target t → ParamList params ns → Prints (.body nd body) b →
      Prints (.expr nd (.define target params body))
        (mark .defWord :: (t ++ mark .lparen :: (ns ++ mark .rparen :: (b ++ [mark .endWord]))))
  | classDef {nd : Bool} {n body : Expr} {c b : List Piece} {s : Piece} : ClassName n c →
      Separators [s] → Prints (.body nd body) b →
      Prints (.expr nd (.classDef n none body))
        (mark .classWord :: (c ++ s :: (b ++ [mark .endWord])))
  | subclassDef {nd : Bool} {n superclass body : Expr} {c p b : List Piece} {s : Piece} :
      ClassName n c → Prints (.group superclass) p → Separators [s] → Prints (.body nd body) b →
      Prints (.expr nd (.classDef n (some superclass) body))
        (mark .classWord :: (c ++ mark .less :: (p ++ s :: (b ++ [mark .endWord]))))
  | moduleDef {nd : Bool} {n : String} {body : Expr} {b : List Piece} {s : Piece} :
      isConstant n = true → Separators [s] → Prints (.body nd body) b →
      Prints (.expr nd (.moduleDef n body))
        (mark .moduleWord :: tok (.name n) :: s :: (b ++ [mark .endWord]))
  | array {nd : Bool} {xs : List (Expr × List Piece)} {run ps : List Piece} :
      (∀ x ∈ xs, Prints (.group x.1) x.2) → Newlines run → Listed xs ps →
      Prints (.expr nd (.array (xs.map (·.1)))) (mark .lbracket :: (run ++ (ps ++ [mark .rbracket])))
  | hash {nd : Bool} {xs : List ((Expr × Expr) × List Piece)} {run ps : List Piece} :
      (∀ x ∈ xs, Prints (.entry x.1) x.2) → Newlines run → Listed xs ps →
      Prints (.expr nd (.hash (xs.map (·.1)))) (mark .lbrace :: (run ++ (ps ++ [mark .rbrace])))
  | range {nd : Bool} {lower upper : Expr} {l u : List Piece} : Prints (.group lower) l →
      Prints (.group upper) u → Prints (.expr nd (.range lower upper)) (l ++ mark .dotDot :: u)
  | indexed {nd : Bool} {target index : Expr} {t a i b : List Piece} : Prints (.group target) t →
      Newlines a → Prints (.group index) i → Newlines b →
      Prints (.expr nd (.indexed target index))
        (t ++ touching .lbracket :: (a ++ (i ++ (b ++ [mark .rbracket]))))
  | group {e : Expr} {a ps b : List Piece} : Separators a → Prints (.expr false e) ps →
      Separators b → Prints (.group e) (mark .lparen :: (a ++ (ps ++ (b ++ [mark .rparen]))))
  | entry {key value : Expr} {k run v : List Piece} : Prints (.group key) k → Newlines run →
      Prints (.group value) v → Prints (.entry (key, value)) (k ++ mark .fatArrow :: (run ++ v))
  | body {nd : Bool} {xs : List (Expr × List Piece)} {ps : List Piece} :
      (∀ x ∈ xs, Prints (.expr nd x.1) x.2) → Sequenced xs ps →
      Prints (.body nd (.ofBody (xs.map (·.1)))) ps
  | thenEnd {nd : Bool} {condition thenBranch : Expr} {c b : List Piece} {h : Piece} :
      Prints (.group condition) c → HeaderEnd .thenWord h → Prints (.body nd thenBranch) b →
      Prints (.branches nd condition thenBranch none) (c ++ h :: (b ++ [mark .endWord]))
  | thenElse {nd : Bool} {condition thenBranch other : Expr} {c b o : List Piece} {h : Piece} :
      Prints (.group condition) c → HeaderEnd .thenWord h → Prints (.body nd thenBranch) b →
      Prints (.body nd other) o →
      Prints (.branches nd condition thenBranch (some other))
        (c ++ h :: (b ++ mark .elseWord :: (o ++ [mark .endWord])))
  | thenElif {nd : Bool} {condition thenBranch condition' thenBranch' : Expr}
      {elseBranch' : Option Expr} {c b o : List Piece} {h : Piece} :
      Prints (.group condition) c → HeaderEnd .thenWord h → Prints (.body nd thenBranch) b →
      Prints (.branches nd condition' thenBranch' elseBranch') o →
      Prints (.branches nd condition thenBranch (some (.ifElse condition' thenBranch' elseBranch')))
        (c ++ h :: (b ++ mark .elifWord :: o))
  | block {closing : Fixed} {params : List String} {body : Expr} {ns b : List Piece} :
      BlockParams params ns → Prints (.body false body) b →
      Prints (.block closing (.block params body)) (ns ++ (b ++ [mark closing]))
  | arguments {nd : Bool} {xs : List (Expr × List Piece)} {run ps : List Piece} :
      (∀ x ∈ xs, Prints (.group x.1) x.2) → Newlines run → Listed xs ps →
      Prints (.arguments nd (xs.map (·.1))) (run ++ (ps ++ [mark .rparen]))
  | argumentsDo {xs : List (Expr × List Piece)} {run ps : List Piece} {block : Expr}
      {b : List Piece} : (∀ x ∈ xs, Prints (.group x.1) x.2) → Newlines run →
      Listed xs ps → Prints (.block .endWord block) b →
      Prints (.arguments false (xs.map (·.1) ++ [block]))
        (run ++ (ps ++ mark .rparen :: mark .doWord :: b))
  | argumentsBrace {nd : Bool} {xs : List (Expr × List Piece)} {run ps : List Piece}
      {block : Expr} {b : List Piece} : (∀ x ∈ xs, Prints (.group x.1) x.2) → Newlines run →
      Listed xs ps → Prints (.block .rbrace block) b →
      Prints (.arguments nd (xs.map (·.1) ++ [block]))
        (run ++ (ps ++ mark .rparen :: mark .lbrace :: b))

def PrintsProgram (commands : List Expr) (ps : List Piece) : Prop :=
  ∃ xs : List (Expr × List Piece), commands = xs.map (·.1) ∧
    (∀ x ∈ xs, Prints (.expr false x.1) x.2) ∧ Sequenced xs ps

end ObjectLang
