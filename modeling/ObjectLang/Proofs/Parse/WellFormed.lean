import ObjectLang.Proofs.Parse.Prints
import ObjectLang.Proofs.Token.Writing

/-!
# Well-formed trees

The trees that a program text can stand for: names are identifiers, numbers are not
negative, blocks are attached to calls, and a body of one command is this command. Each
of them can be printed.
-/

namespace ObjectLang

open Parse Grammar Scan

/-! ## Names in definitions -/

/-- The name of a method, or of a setter. -/
def IsDefName (n : String) : Prop :=
  ∃ m, IsMethodName m ∧ (n = m ∨ n = m ++ "=")

/-- Like `IsDefName`, without a receiver in front: `self` would be one. -/
def IsPlainDefName (n : String) : Prop :=
  ∃ m, IsMethodName m ∧ m ≠ "self" ∧ (n = m ∨ n = m ++ "=")

inductive IsDefTarget : Expr → Prop where
  | name {n : String} : IsPlainDefName n → IsDefTarget (.name n)
  | selfDot {n : String} : IsDefName n → IsDefTarget (.dot .selfRef n [])
  | nameDot {m n : String} : IsName m → IsDefName n → IsDefTarget (.dot (.name m) n [])
  | selfColon {n : String} : IsDefName n → IsDefTarget (.doubleColon .selfRef n)
  | nameColon {m n : String} : IsName m → IsDefName n → IsDefTarget (.doubleColon (.name m) n)

/-- The name of a class: constants that are joined by `::`. -/
inductive IsClassName : Expr → Prop where
  | one {n : String} : IsName n → isConstant n = true → IsClassName (.name n)
  | more {e : Expr} {n : String} : IsClassName e → IsName n → isConstant n = true →
      IsClassName (.doubleColon e n)

/-! ## Trees -/

def Literal.WellFormed : Literal → Prop
  | .integer n => 0 ≤ n.toInt
  | .real _ => False
  | .symbol s => IsIdentifier s.toList
  | _ => True

inductive WellFormed : Expr → Prop where
  | literal {l : Literal} : l.WellFormed → WellFormed (.literal l)
  | name {n : String} : IsName n → WellFormed (.name n)
  | selfRef : WellFormed .selfRef
  | instanceVar {n : String} : IsIdentifier n.toList → WellFormed (.instanceVar n)
  | classVar {n : String} : IsIdentifier n.toList → WellFormed (.classVar n)
  | arith {op : ArithOp} {l r : Expr} : WellFormed l → WellFormed r → WellFormed (.arith op l r)
  | compare {op : CompareOp} {l r : Expr} : WellFormed l → WellFormed r →
      WellFormed (.compare op l r)
  | negative {e : Expr} : WellFormed e → WellFormed (.negative e)
  | negation {e : Expr} : WellFormed e → WellFormed (.negation e)
  | assign {n : String} {v : Expr} : IsName n → WellFormed v → WellFormed (.assign n v)
  | assignInstanceVar {n : String} {v : Expr} : IsIdentifier n.toList → WellFormed v →
      WellFormed (.assignInstanceVar n v)
  | assignClassVar {n : String} {v : Expr} : IsIdentifier n.toList → WellFormed v →
      WellFormed (.assignClassVar n v)
  | assignIndexed {t i v : Expr} : WellFormed t → WellFormed i → WellFormed v →
      WellFormed (.assignIndexed t i v)
  | assignDot {t v : Expr} {n : String} : WellFormed t → IsMethodName n → WellFormed v →
      WellFormed (.assignDot (.dot t n []) v)
  | call {n : String} {args : List Expr} : IsName n → (∀ a ∈ args, WellFormed a) →
      WellFormed (.call n args)
  | callBlock {n : String} {args : List Expr} {params : List String} {body : List Expr} :
      IsName n → (∀ a ∈ args, WellFormed a) → (∀ p ∈ params, IsName p) →
      (∀ c ∈ body, WellFormed c) → WellFormed (.call n (args ++ [.block params (.ofBody body)]))
  | dot {t : Expr} {n : String} {args : List Expr} : WellFormed t → IsMethodName n →
      (∀ a ∈ args, WellFormed a) → WellFormed (.dot t n args)
  | dotBlock {t : Expr} {n : String} {args : List Expr} {params : List String}
      {body : List Expr} : WellFormed t → IsMethodName n → (∀ a ∈ args, WellFormed a) →
      (∀ p ∈ params, IsName p) → (∀ c ∈ body, WellFormed c) →
      WellFormed (.dot t n (args ++ [.block params (.ofBody body)]))
  | doubleColon {t : Expr} {n : String} : WellFormed t → IsMethodName n →
      WellFormed (.doubleColon t n)
  | ifThen {c : Expr} {body : List Expr} : WellFormed c → (∀ e ∈ body, WellFormed e) →
      WellFormed (.ifElse c (.ofBody body) none)
  | ifElse {c : Expr} {body other : List Expr} : WellFormed c → (∀ e ∈ body, WellFormed e) →
      (∀ e ∈ other, WellFormed e) → WellFormed (.ifElse c (.ofBody body) (some (.ofBody other)))
  | whileLoop {c : Expr} {body : List Expr} : WellFormed c → (∀ e ∈ body, WellFormed e) →
      WellFormed (.whileLoop c (.ofBody body))
  | untilLoop {c : Expr} {body : List Expr} : WellFormed c → (∀ e ∈ body, WellFormed e) →
      WellFormed (.untilLoop c (.ofBody body))
  | forIn {n : String} {c : Expr} {body : List Expr} : IsName n → WellFormed c →
      (∀ e ∈ body, WellFormed e) → WellFormed (.forIn n c (.ofBody body))
  | define {t : Expr} {params : List String} {body : List Expr} : IsDefTarget t →
      (∀ p ∈ params, IsName p) → (∀ e ∈ body, WellFormed e) →
      WellFormed (.define t params (.ofBody body))
  | classDef {n : Expr} {body : List Expr} : IsClassName n → (∀ e ∈ body, WellFormed e) →
      WellFormed (.classDef n none (.ofBody body))
  | subclassDef {n s : Expr} {body : List Expr} : IsClassName n → WellFormed s →
      (∀ e ∈ body, WellFormed e) → WellFormed (.classDef n (some s) (.ofBody body))
  | moduleDef {n : String} {body : List Expr} : IsName n → isConstant n = true →
      (∀ e ∈ body, WellFormed e) → WellFormed (.moduleDef n (.ofBody body))
  | array {es : List Expr} : (∀ e ∈ es, WellFormed e) → WellFormed (.array es)
  | hash {es : List (Expr × Expr)} : (∀ x ∈ es, WellFormed x.1) → (∀ x ∈ es, WellFormed x.2) →
      WellFormed (.hash es)
  | range {l u : Expr} : WellFormed l → WellFormed u → WellFormed (.range l u)
  | indexed {t i : Expr} : WellFormed t → WellFormed i → WellFormed (.indexed t i)

/-! ## Printing -/

/-- The form can be printed, with blanks between the tokens. -/
def Printable (form : Form) : Prop :=
  ∃ ps, Prints form ps ∧ Writable ps

section
variable {nd : Bool}

abbrev lineEnd : Piece := mark .newline

theorem separators_lineEnd : Separators [lineEnd] := by
  intro p hp
  rw [List.mem_singleton.mp hp]
  exact .inl rfl

theorem printable_group {e : Expr} (h : Printable (.expr false e)) : Printable (.group e) := by
  obtain ⟨ps, hp, hw⟩ := h
  exact ⟨_, .group separators_nil hp separators_nil,
    (writable_fixed .lparen).cons (hw.append (writable_fixed .rparen))⟩

/-- If each of the trees can be printed, they can be printed together. -/
theorem exists_printed {α : Type} {form : α → Form} {l : List α} (h : ∀ a ∈ l, Printable (form a)) :
    ∃ xs : List (α × List Piece), xs.map (·.1) = l ∧
      (∀ x ∈ xs, Prints (form x.1) x.2) ∧ ∀ x ∈ xs, Writable x.2 := by
  have printed : ∀ a ∈ l, ∃ x : α × List Piece, x.1 = a ∧ Prints (form x.1) x.2 ∧ Writable x.2 := by
    intro a ha
    obtain ⟨ps, hp, hw⟩ := h a ha
    exact ⟨(a, ps), rfl, hp, hw⟩
  obtain ⟨xs, hxs, hp⟩ := exists_map printed
  exact ⟨xs, hxs, fun x hx => (hp x hx).1, fun x hx => (hp x hx).2⟩

theorem exists_listed {α : Type} {xs : List (α × List Piece)} (h : ∀ x ∈ xs, Writable x.2) :
    ∃ ps, Listed xs ps ∧ Writable ps := by
  induction xs with
  | nil => exact ⟨[], .none, writable_nil⟩
  | cons x xs ih =>
    obtain ⟨ps, hp, hw⟩ := ih fun y hy => h y (List.mem_cons_of_mem _ hy)
    exact ⟨_, .more newlines_nil newlines_nil hp,
      (h x List.mem_cons_self).append ((writable_fixed .comma).cons hw)⟩

theorem exists_sequenced {α : Type} {xs : List (α × List Piece)} (h : ∀ x ∈ xs, Writable x.2) :
    ∃ ps, Sequenced xs ps ∧ Writable ps := by
  induction xs with
  | nil => exact ⟨[], .none separators_nil, writable_nil⟩
  | cons x xs ih =>
    obtain ⟨ps, hp, hw⟩ := ih fun y hy => h y (List.mem_cons_of_mem _ hy)
    exact ⟨_, .more separators_nil separators_lineEnd hp,
      (h x List.mem_cons_self).append ((writable_fixed .newline).cons hw)⟩

theorem printable_body {es : List Expr} (h : ∀ e ∈ es, Printable (.expr nd e)) :
    Printable (.body nd (.ofBody es)) := by
  obtain ⟨xs, rfl, hp, hw⟩ := exists_printed h
  obtain ⟨ps, hs, hw'⟩ := exists_sequenced hw
  exact ⟨ps, .body hp hs, hw'⟩

theorem exists_nameList {n : String} {ns : List String} (h : ∀ m ∈ n :: ns, IsName m) :
    ∃ ps, NameList (n :: ns) ps ∧ Writable ps := by
  induction ns generalizing n with
  | nil => exact ⟨_, .one, writable_token (spelling_name (h n List.mem_cons_self))⟩
  | cons m ns ih =>
    obtain ⟨ps, hp, hw⟩ := ih fun a ha => h a (List.mem_cons_of_mem _ ha)
    exact ⟨_, .more hp, (writable_token (spelling_name (h n List.mem_cons_self))).cons
      ((writable_fixed .comma).cons hw)⟩

theorem exists_paramList {params : List String} (h : ∀ p ∈ params, IsName p) :
    ∃ ps, ParamList params ps ∧ Writable ps := by
  cases params with
  | nil => exact ⟨[], .inl ⟨rfl, rfl⟩, writable_nil⟩
  | cons n ns =>
    obtain ⟨ps, hp, hw⟩ := exists_nameList h
    exact ⟨ps, .inr hp, hw⟩

theorem printable_block {params : List String} {body : List Expr} (hn : ∀ p ∈ params, IsName p)
    (hb : ∀ e ∈ body, Printable (.expr false e)) :
    Printable (.block .rbrace (.block params (.ofBody body))) := by
  obtain ⟨ns, hp, hw⟩ := exists_paramList hn
  obtain ⟨b, hb, hw'⟩ := printable_body hb
  exact ⟨_, .block (.inr ⟨ns, hp, rfl⟩) hb, ((writable_fixed .pipe).cons
    (hw.append (writable_fixed .pipe))).append (hw'.append (writable_fixed .rbrace))⟩

theorem printable_arguments {args : List Expr} (h : ∀ a ∈ args, Printable (.expr false a))
    (nd : Bool) : Printable (.arguments nd args) := by
  obtain ⟨xs, rfl, hp, hw⟩ := exists_printed fun a ha => printable_group (h a ha)
  obtain ⟨ps, hl, hw'⟩ := exists_listed hw
  exact ⟨_, .arguments hp newlines_nil hl, hw'.append (writable_fixed .rparen)⟩

theorem printable_argumentsBlock {args : List Expr} {params : List String} {body : List Expr}
    (h : ∀ a ∈ args, Printable (.expr false a)) (hn : ∀ p ∈ params, IsName p)
    (hb : ∀ e ∈ body, Printable (.expr false e)) (nd : Bool) :
    Printable (.arguments nd (args ++ [.block params (.ofBody body)])) := by
  obtain ⟨xs, rfl, hp, hw⟩ := exists_printed fun a ha => printable_group (h a ha)
  obtain ⟨ps, hl, hw'⟩ := exists_listed hw
  obtain ⟨b, hb, hw''⟩ := printable_block hn hb
  exact ⟨_, .argumentsBrace hp newlines_nil hl hb,
    hw'.append ((writable_fixed .rparen).cons ((writable_fixed .lbrace).cons hw''))⟩

/-! ## Definitions -/

theorem exists_defName_of {m n : String} (hm : IsMethodName m) (h : n = m ∨ n = m ++ "=") :
    ∃ t ps, t.methodName? = some m ∧ DefName n t ps ∧ Writable (tok t :: ps) := by
  obtain ⟨t, ht, hs⟩ := exists_methodName hm
  rcases h with rfl | rfl
  · exact ⟨t, [], ht, .plain ht, writable_token hs⟩
  · exact ⟨t, _, ht, .setter ht, writable_setter hs hm.1⟩

theorem exists_defName {n : String} (h : IsDefName n) :
    ∃ t ps, DefName n t ps ∧ Writable (tok t :: ps) := by
  obtain ⟨m, hm, hn⟩ := h
  obtain ⟨t, ps, _, hd, hw⟩ := exists_defName_of hm hn
  exact ⟨t, ps, hd, hw⟩

theorem exists_defTarget {t : Expr} (h : IsDefTarget t) : ∃ ps, DefTarget t ps ∧ Writable ps := by
  cases h with
  | name hn =>
    obtain ⟨m, hm, hself, hn⟩ := hn
    obtain ⟨u, ps, hu, hd, hw⟩ := exists_defName_of hm hn
    refine ⟨_, .name hd ?_, hw⟩
    rw [← Bool.not_eq_true]
    intro e
    rw [eq_of_isFixed e] at hu
    exact hself (Option.some.inj hu).symm
  | selfDot hn =>
    obtain ⟨u, ps, hd, hw⟩ := exists_defName hn
    exact ⟨_, .dot (t := .fixed .selfWord) rfl hd,
      (writable_fixed .selfWord).cons ((writable_fixed .dot).cons hw)⟩
  | @nameDot m n hm hn =>
    obtain ⟨u, ps, hd, hw⟩ := exists_defName hn
    exact ⟨_, .dot (t := .name m) rfl hd,
      (writable_token (spelling_name hm)).cons ((writable_fixed .dot).cons hw)⟩
  | selfColon hn =>
    obtain ⟨u, ps, hd, hw⟩ := exists_defName hn
    exact ⟨_, .doubleColon (t := .fixed .selfWord) rfl hd,
      (writable_fixed .selfWord).cons ((writable_fixed .doubleColon).cons hw)⟩
  | @nameColon m n hm hn =>
    obtain ⟨u, ps, hd, hw⟩ := exists_defName hn
    exact ⟨_, .doubleColon (t := .name m) rfl hd,
      (writable_token (spelling_name hm)).cons ((writable_fixed .doubleColon).cons hw)⟩

theorem exists_className {e : Expr} (h : IsClassName e) : ∃ ps, ClassName e ps ∧ Writable ps := by
  induction h with
  | one hn hc => exact ⟨_, .one hc, writable_token (spelling_name hn)⟩
  | more _ hn hc ih =>
    obtain ⟨ps, hp, hw⟩ := ih
    exact ⟨_, .more hp hc,
      hw.append ((writable_fixed .doubleColon).cons (writable_token (spelling_name hn)))⟩

/-! ## All trees -/

theorem exists_literalToken {l : Literal} (h : l.WellFormed) :
    ∃ t, literalToken? l = some t ∧ Writable [tok t] := by
  cases l with
  | nil => exact ⟨_, rfl, writable_fixed .nilWord⟩
  | bool b =>
    cases b with
    | true => exact ⟨_, rfl, writable_fixed .trueWord⟩
    | false => exact ⟨_, rfl, writable_fixed .falseWord⟩
  | integer n => exact ⟨_, rfl, writable_token (spelling_integer h)⟩
  | real x => exact h.elim
  | str s =>
    obtain ⟨w, hs⟩ := spelling_str s
    exact ⟨_, rfl, writable_token hs⟩
  | symbol s => exact ⟨_, rfl, writable_token (spelling_symbol h)⟩

theorem printable_literal {l : Literal} (h : l.WellFormed) : Printable (.expr nd (.literal l)) := by
  obtain ⟨t, ht, hw⟩ := exists_literalToken h
  exact ⟨_, .literal ht, hw⟩

theorem printable_binary {form : Form} {f : Fixed} {left right : Expr}
    (hl : Printable (.expr false left)) (hr : Printable (.expr false right))
    (h : ∀ l r, Prints (.group left) l → Prints (.group right) r →
      Prints form (l ++ mark f :: r)) : Printable form := by
  obtain ⟨l, hl, hw⟩ := printable_group hl
  obtain ⟨r, hr, hw'⟩ := printable_group hr
  exact ⟨_, h l r hl hr, hw.append ((writable_fixed f).cons hw')⟩

theorem printable_prefix {form : Form} {f : Fixed} {e : Expr} (he : Printable (.expr false e))
    (h : ∀ g, Prints (.group e) g → Prints form (mark f :: g)) : Printable form := by
  obtain ⟨g, hg, hw⟩ := printable_group he
  exact ⟨_, h g hg, (writable_fixed f).cons hw⟩

theorem printable_member {form : Form} {f : Fixed} {t : Expr} {n : String} {ps : List Piece}
    (ht : Printable (.expr false t)) (hn : IsMethodName n) (hps : Writable ps)
    (h : ∀ g m, Prints (.group t) g → m.methodName? = some n →
      Prints form (g ++ mark f :: tok m :: ps)) : Printable form := by
  obtain ⟨g, hg, hw⟩ := printable_group ht
  obtain ⟨m, hm, hs⟩ := exists_methodName hn
  exact ⟨_, h g m hg hm, hw.append ((writable_fixed f).cons ((writable_token hs).cons hps))⟩

theorem printable_expr {e : Expr} (h : WellFormed e) : ∀ nd, Printable (.expr nd e) := by
  induction h with
  | literal h => exact fun nd => printable_literal h
  | @name n h => exact fun nd => ⟨_, .name n, writable_token (spelling_name h)⟩
  | selfRef => exact fun nd => ⟨_, .selfRef, writable_fixed .selfWord⟩
  | @instanceVar n h => exact fun nd => ⟨_, .instanceVar n, writable_token (spelling_instanceVar h)⟩
  | @classVar n h => exact fun nd => ⟨_, .classVar n, writable_token (spelling_classVar h)⟩
  | @arith op _ _ _ _ hl hr =>
    exact fun nd => printable_binary (hl false) (hr false) fun _ _ hl hr => .arith op hl hr
  | @compare op _ _ _ _ hl hr =>
    exact fun nd => printable_binary (hl false) (hr false) fun _ _ hl hr => .compare op hl hr
  | range _ _ hl hr =>
    exact fun nd => printable_binary (hl false) (hr false) fun _ _ hl hr => .range hl hr
  | negative _ h => exact fun nd => printable_prefix (h false) fun _ hg => .negative hg
  | negation _ h => exact fun nd => printable_prefix (h false) fun _ hg => .negation hg
  | @assign n v hn _ h =>
    intro nd
    obtain ⟨g, hg, hw⟩ := printable_group (h false)
    exact ⟨_, .assign n newlines_nil hg,
      (writable_token (spelling_name hn)).cons ((writable_fixed .equals).cons hw)⟩
  | @assignInstanceVar n v hn _ h =>
    intro nd
    obtain ⟨g, hg, hw⟩ := printable_group (h false)
    exact ⟨_, .assignInstanceVar n newlines_nil hg,
      (writable_token (spelling_instanceVar hn)).cons ((writable_fixed .equals).cons hw)⟩
  | @assignClassVar n v hn _ h =>
    intro nd
    obtain ⟨g, hg, hw⟩ := printable_group (h false)
    exact ⟨_, .assignClassVar n newlines_nil hg,
      (writable_token (spelling_classVar hn)).cons ((writable_fixed .equals).cons hw)⟩
  | assignIndexed _ _ _ ht hi hv =>
    intro nd
    obtain ⟨t, ht, hw⟩ := printable_group (ht false)
    obtain ⟨i, hi, hw'⟩ := printable_group (hi false)
    obtain ⟨v, hv, hw''⟩ := printable_group (hv false)
    have index := (writable_touching (.inr rfl)).cons (hw'.append (writable_fixed .rbracket))
    exact ⟨_, .assignIndexed ht newlines_nil hi newlines_nil newlines_nil hv,
      (hw.append index).append ((writable_fixed .equals).cons hw'')⟩
  | indexed _ _ ht hi =>
    intro nd
    obtain ⟨t, ht, hw⟩ := printable_group (ht false)
    obtain ⟨i, hi, hw'⟩ := printable_group (hi false)
    exact ⟨_, .indexed ht newlines_nil hi newlines_nil,
      hw.append ((writable_touching (.inr rfl)).cons (hw'.append (writable_fixed .rbracket)))⟩
  | assignDot _ hn _ ht hv =>
    intro nd
    obtain ⟨v, hv, hw⟩ := printable_group (hv false)
    refine printable_member (f := .dot) (ht false) hn ((writable_fixed .equals).cons hw) ?_
    intro g m hg hm
    have assigned : Prints (.expr nd _) _ := .assignDot hg hm newlines_nil hv
    simpa using assigned
  | @call n args hn _ ha =>
    intro nd
    obtain ⟨as, ha, hw⟩ := printable_arguments (fun a h => ha a h false) nd
    exact ⟨_, .call n ha,
      (writable_token (spelling_name hn)).cons ((writable_touching (.inl rfl)).cons hw)⟩
  | @callBlock n args params body hn _ hp _ ha hb =>
    intro nd
    obtain ⟨as, ha, hw⟩ := printable_argumentsBlock (fun a h => ha a h false) hp
      (fun c h => hb c h false) nd
    exact ⟨_, .call n ha,
      (writable_token (spelling_name hn)).cons ((writable_touching (.inl rfl)).cons hw)⟩
  | dot _ hn _ ht ha =>
    intro nd
    obtain ⟨as, ha, hw⟩ := printable_arguments (fun a h => ha a h false) nd
    exact printable_member (ht false) hn ((writable_touching (.inl rfl)).cons hw)
      fun _ _ hg hm => .dot hg hm ha
  | dotBlock _ hn _ hp _ ht ha hb =>
    intro nd
    obtain ⟨as, ha, hw⟩ := printable_argumentsBlock (fun a h => ha a h false) hp
      (fun c h => hb c h false) nd
    exact printable_member (ht false) hn ((writable_touching (.inl rfl)).cons hw)
      fun _ _ hg hm => .dot hg hm ha
  | doubleColon _ hn ht =>
    exact fun nd => printable_member (ht false) hn writable_nil
      fun _ _ hg hm => .doubleColon hg hm
  | @ifThen c body _ _ hc hb =>
    intro nd
    obtain ⟨g, hg, hw⟩ := printable_group (hc false)
    obtain ⟨b, hb, hw'⟩ := printable_body fun e h => hb e h nd
    exact ⟨_, .ifElse (.thenEnd hg (.inl rfl) hb), (writable_fixed .ifWord).cons (hw.append
      ((writable_fixed .thenWord).cons (hw'.append (writable_fixed .endWord))))⟩
  | @ifElse c body other _ _ _ hc hb ho =>
    intro nd
    obtain ⟨g, hg, hw⟩ := printable_group (hc false)
    obtain ⟨b, hb, hw'⟩ := printable_body fun e h => hb e h nd
    obtain ⟨o, ho, hw''⟩ := printable_body fun e h => ho e h nd
    exact ⟨_, .ifElse (.thenElse hg (.inl rfl) hb ho), (writable_fixed .ifWord).cons (hw.append
      ((writable_fixed .thenWord).cons (hw'.append ((writable_fixed .elseWord).cons
        (hw''.append (writable_fixed .endWord))))))⟩
  | @whileLoop c body _ _ hc hb =>
    intro nd
    obtain ⟨g, hg, hw⟩ := printable_group (hc false)
    obtain ⟨b, hb, hw'⟩ := printable_body fun e h => hb e h nd
    exact ⟨_, .whileLoop hg (.inl rfl) hb, (writable_fixed .whileWord).cons (hw.append
      ((writable_fixed .doWord).cons (hw'.append (writable_fixed .endWord))))⟩
  | @untilLoop c body _ _ hc hb =>
    intro nd
    obtain ⟨g, hg, hw⟩ := printable_group (hc false)
    obtain ⟨b, hb, hw'⟩ := printable_body fun e h => hb e h nd
    exact ⟨_, .untilLoop hg (.inl rfl) hb, (writable_fixed .untilWord).cons (hw.append
      ((writable_fixed .doWord).cons (hw'.append (writable_fixed .endWord))))⟩
  | @forIn n c body hn _ _ hc hb =>
    intro nd
    obtain ⟨g, hg, hw⟩ := printable_group (hc false)
    obtain ⟨b, hb, hw'⟩ := printable_body fun e h => hb e h nd
    exact ⟨_, .forIn n hg (.inl rfl) hb, (writable_fixed .forWord).cons
      ((writable_token (spelling_name hn)).cons ((writable_fixed .inWord).cons (hw.append
        ((writable_fixed .doWord).cons (hw'.append (writable_fixed .endWord))))))⟩
  | @define t params body ht hp _ hb =>
    intro nd
    obtain ⟨t, ht, hw⟩ := exists_defTarget ht
    obtain ⟨ns, hn, hw'⟩ := exists_paramList hp
    obtain ⟨b, hb, hw''⟩ := printable_body fun e h => hb e h nd
    exact ⟨_, .define ht hn hb, (writable_fixed .defWord).cons (hw.append
      ((writable_fixed .lparen).cons (hw'.append ((writable_fixed .rparen).cons
        (hw''.append (writable_fixed .endWord))))))⟩
  | @classDef n body hc _ hb =>
    intro nd
    obtain ⟨c, hc, hw⟩ := exists_className hc
    obtain ⟨b, hb, hw'⟩ := printable_body fun e h => hb e h nd
    exact ⟨_, .classDef hc separators_lineEnd hb, (writable_fixed .classWord).cons (hw.append
      ((writable_fixed .newline).cons (hw'.append (writable_fixed .endWord))))⟩
  | @subclassDef n s body hc _ _ hs hb =>
    intro nd
    obtain ⟨c, hc, hw⟩ := exists_className hc
    obtain ⟨p, hp, hw'⟩ := printable_group (hs false)
    obtain ⟨b, hb, hw''⟩ := printable_body fun e h => hb e h nd
    exact ⟨_, .subclassDef hc hp separators_lineEnd hb, (writable_fixed .classWord).cons
      (hw.append ((writable_fixed .less).cons (hw'.append ((writable_fixed .newline).cons
        (hw''.append (writable_fixed .endWord))))))⟩
  | @moduleDef n body hn hc _ hb =>
    intro nd
    obtain ⟨b, hb, hw⟩ := printable_body fun e h => hb e h nd
    exact ⟨_, .moduleDef hc separators_lineEnd hb, (writable_fixed .moduleWord).cons
      ((writable_token (spelling_name hn)).cons ((writable_fixed .newline).cons
        (hw.append (writable_fixed .endWord))))⟩
  | @array es _ h =>
    intro nd
    obtain ⟨xs, rfl, hp, hw⟩ := exists_printed fun e he => printable_group (h e he false)
    obtain ⟨ps, hl, hw'⟩ := exists_listed hw
    exact ⟨_, .array hp newlines_nil hl,
      (writable_fixed .lbracket).cons (hw'.append (writable_fixed .rbracket))⟩
  | @hash es _ _ hk hv =>
    intro nd
    have entry : ∀ x ∈ es, Printable (.entry x) := by
      intro x hx
      exact printable_binary (f := .fatArrow) (hk x hx false) (hv x hx false)
        fun _ _ hl hr => .entry hl newlines_nil hr
    obtain ⟨xs, rfl, hp, hw⟩ := exists_printed entry
    obtain ⟨ps, hl, hw'⟩ := exists_listed hw
    exact ⟨_, .hash hp newlines_nil hl,
      (writable_fixed .lbrace).cons (hw'.append (writable_fixed .rbrace))⟩

end

end ObjectLang
