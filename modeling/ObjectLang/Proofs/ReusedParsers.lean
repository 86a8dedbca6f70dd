import ObjectLang.Proofs.Parse.Correspondence
import ObjectLang.Proofs.StreamQueue

/-!
# Parsers that are used again

Whether a `do` may begin a block is a setting of the parser that rules change for what is nested in
them. Every rule puts it back, also when it fails. So nothing but the items still to come, and their
lines, tells a parser behind an error from a new one.
-/

namespace ObjectLang

open Parse Grammar

/-! ## The restriction on `do` -/

/-- The step has ended, and the restriction is as it was. -/
inductive Parser.Restored (p : Parser) {α : Type} : Parsed α → Prop where
  | ok {a : α} {q : Parser} : q.noDo = p.noDo → Restored p (.ok a q)
  | error {e : SyntaxError} {q : Parser} : q.noDo = p.noDo → Restored p (.error e q)

/-- The rules that begin with an operand. -/
inductive OperandRule (fuel : Nat) : Parse Expr → Prop where
  | expression : OperandRule fuel (expression (parse fuel) fuel)
  | range : OperandRule fuel (range (parse fuel) fuel)
  | comparison : OperandRule fuel (comparison (parse fuel) fuel)
  | additive : OperandRule fuel (additive (parse fuel) fuel)
  | multiplicative : OperandRule fuel (multiplicative (parse fuel) fuel)
  | unary : OperandRule fuel (unary (parse fuel) fuel fuel)
  | suffixed : OperandRule fuel (suffixed (parse fuel) fuel)
  | term : OperandRule fuel (term (parse fuel) fuel)

/-- All other rules, and the steps that they are put together from. -/
inductive Rule (fuel : Nat) : {α : Type} → Parse α → Prop where
  | nextIs (f : Fixed) : Rule fuel (nextIs f)
  | accept (f : Fixed) : Rule fuel (accept f)
  | acceptTouching (f : Fixed) : Rule fuel (acceptTouching f)
  | expect (f : Fixed) : Rule fuel (expect f)
  | acceptSeparator : Rule fuel acceptSeparator
  | skipSeparators : Rule fuel (skipSeparators fuel)
  | skipNewlines : Rule fuel (skipNewlines fuel)
  | methodName : Rule fuel methodName
  | identifier : Rule fuel identifier
  | names : Rule fuel (separated Parse.identifier fuel)
  | parameterList (closing : Fixed) : Rule fuel (parameterList closing fuel)
  | expressions (closing : Fixed) : Rule fuel (delimited closing (parse fuel .expression) fuel)
  | entries (closing : Fixed) : Rule fuel (delimited closing (hashEntry (parse fuel) fuel) fuel)
  | restricted {α : Type} {x : Parse α} (noDo : Bool) : Rule fuel x → Rule fuel (restricted noDo x)
  | nested (nt : Nonterminal) : Rule fuel (parse fuel nt)
  | endOfCommand : Rule fuel endOfCommand
  | headerEnd : Rule fuel headerEnd
  | command : Rule fuel (command (parse fuel))
  | bodyCommand (closing : List Fixed) : Rule fuel (bodyCommand? (parse fuel) closing fuel)
  | commandList (closing : List Fixed) : Rule fuel (commandList (parse fuel) closing fuel)
  | bodyUntilEnd : Rule fuel (bodyUntilEnd (parse fuel) fuel)
  | blockBody (closing : Fixed) : Rule fuel (blockBody (parse fuel) closing fuel)
  | blockTrailer : Rule fuel (blockTrailer (parse fuel) fuel)
  | argumentFollows : Rule fuel argumentFollows
  | parenArguments : Rule fuel (parenArguments (parse fuel) fuel)
  | bareArguments : Rule fuel (bareArguments (parse fuel) fuel)
  | withBlock (args : List Expr) : Rule fuel (withBlock (parse fuel) args fuel)
  | callArguments : Rule fuel (callArguments (parse fuel) fuel)
  | ifConstruct : Rule fuel (ifConstruct (parse fuel) fuel fuel)
  | loopHeader : Rule fuel (loopHeader (parse fuel))
  | whileConstruct : Rule fuel (whileConstruct (parse fuel) fuel)
  | untilConstruct : Rule fuel (untilConstruct (parse fuel) fuel)
  | forConstruct : Rule fuel (forConstruct (parse fuel) fuel)
  | setterName (n : String) : Rule fuel (setterName n)
  | qualifiedTarget (receiver : Expr) : Rule fuel (qualifiedTarget receiver)
  | plainTarget (first : Lexeme) : Rule fuel (plainTarget first)
  | definitionTarget : Rule fuel definitionTarget
  | definitionParams : Rule fuel (definitionParams fuel)
  | defConstruct : Rule fuel (defConstruct (parse fuel) fuel)
  | constantName : Rule fuel constantName
  | className : Rule fuel (className fuel)
  | superclass : Rule fuel (superclass? (parse fuel))
  | classConstruct : Rule fuel (classConstruct (parse fuel) fuel)
  | moduleConstruct : Rule fuel (moduleConstruct (parse fuel) fuel)
  | nameTerm (n : String) : Rule fuel (nameTerm (parse fuel) fuel n)
  | group : Rule fuel (group (parse fuel) fuel)
  | hashEntry : Rule fuel (hashEntry (parse fuel) fuel)
  | arrayTerm : Rule fuel (arrayTerm (parse fuel) fuel)
  | hashTerm : Rule fuel (hashTerm (parse fuel) fuel)
  | fixedTerm (f : Fixed) (line : Nat) : Rule fuel (fixedTerm (parse fuel) fuel f line)
  | index : Rule fuel (index (parse fuel) fuel)
  | suffix (e : Expr) : Rule fuel (suffix (parse fuel) fuel e)
  | commandCall (left : Expr) : Rule fuel (commandCall (parse fuel) fuel left)
  | assignment (target : Expr) (line : Nat) : Rule fuel (assignment (parse fuel) fuel target line)

section
variable {α : Type} {fuel n : Nat} {x : Parse α} {p : Parser}

theorem restored_of_advances {cost : α → Nat} (h : Advances n cost x) (few : p.tokens.size < n) :
    p.Restored (x p) := by
  rcases h p few with ⟨a, q, ok, moves⟩ | ⟨e, q, bad, restored⟩
  · rw [ok]
    exact .ok moves.noDo
  · rw [bad]
    exact .error restored

theorem OperandRule.advances {x : Parse Expr} (h : OperandRule fuel x) :
    Advances fuel (fun _ => 1) x := by
  cases fuel with
  | zero => exact fun p few => absurd few (Nat.not_lt_zero _)
  | succ m =>
    have nested := advances_parse (m + 1)
    have less := Nat.lt_succ_self m
    have le := Nat.le_succ m
    have unary := advances_unary nested le (Nat.le_refl (m + 1)) (Nat.le_refl (m + 1))
    cases h with
    | expression => exact advances_expression nested less
    | range => exact advances_range nested less
    | comparison => exact advances_comparison nested less
    | additive => exact advances_tier (advances_tier unary le) le
    | multiplicative => exact advances_tier unary le
    | unary => exact unary
    | suffixed => exact advances_suffixed nested le
    | term => exact advances_term nested le

theorem Rule.advances (h : Rule fuel x) : Advances (fuel - 1) (fun _ => 0) x := by
  have nested := advances_parse fuel
  have le := Nat.sub_le fuel 1
  induction h with
  | nextIs f => exact advances_nextIs f
  | accept f => exact (advances_accept f).free
  | acceptTouching f => exact (advances_acceptTouching f).free
  | expect f => exact advances_expect f
  | acceptSeparator => exact advances_acceptSeparator.free
  | skipSeparators => exact advances_skipSeparators le
  | skipNewlines => exact advances_skipNewlines le
  | methodName | identifier => exact (advances_nameBy _).free
  | names => exact advances_separated le (advances_nameBy _).free
  | parameterList closing => exact advances_parameterList closing le
  | expressions closing => exact advances_delimited closing le (nested .expression)
  | entries closing => exact advances_delimited closing le (advances_hashEntry nested le)
  | restricted noDo _ ih => exact advances_restricted noDo ih
  | nested nt => exact (nested nt).free
  | endOfCommand => exact advances_endOfCommand
  | headerEnd => exact advances_headerEnd
  | command => exact (advances_command nested).free
  | bodyCommand closing => exact (advances_bodyCommand nested closing le).free
  | commandList closing => exact advances_commandList nested closing le
  | bodyUntilEnd => exact advances_bodyUntilEnd nested le
  | blockBody closing => exact advances_blockBody nested closing le
  | blockTrailer => exact advances_blockTrailer nested le
  | argumentFollows => exact advances_argumentFollows
  | parenArguments => exact advances_parenArguments nested le
  | bareArguments => exact advances_bareArguments nested le
  | withBlock args => exact advances_withBlock nested args le
  | callArguments => exact advances_callArguments nested le
  | ifConstruct => exact advances_ifConstruct nested le le (Nat.le_refl _)
  | loopHeader => exact advances_loopHeader nested
  | whileConstruct => exact advances_whileConstruct nested le
  | untilConstruct => exact advances_untilConstruct nested le
  | forConstruct => exact advances_forConstruct nested le
  | setterName n => exact advances_setterName n
  | qualifiedTarget receiver => exact advances_qualifiedTarget receiver
  | plainTarget first => exact advances_plainTarget first
  | definitionTarget => exact advances_definitionTarget
  | definitionParams => exact advances_definitionParams le
  | defConstruct => exact advances_defConstruct nested le
  | constantName => exact advances_constantName
  | className => exact advances_className le
  | superclass => exact advances_superclass nested
  | classConstruct => exact advances_classConstruct nested le
  | moduleConstruct => exact advances_moduleConstruct nested le
  | nameTerm n => exact advances_nameTerm nested le n
  | group => exact advances_group nested le
  | hashEntry => exact (advances_hashEntry nested le).free
  | arrayTerm => exact advances_fixedTerm nested le .lbracket 0
  | hashTerm => exact advances_fixedTerm nested le .lbrace 0
  | fixedTerm f line => exact advances_fixedTerm nested le f line
  | index => exact (advances_index nested le).free
  | suffix e => exact (advances_suffix nested le e).free
  | commandCall left => exact advances_commandCall nested le left
  | assignment target line => exact advances_assignment nested le target line

theorem Parser.restored_command (p : Parser) : p.Restored p.command :=
  restored_of_advances (x := command? p.fuel) (advances_nextCommand p.fuel) (Nat.lt_succ_self _)

theorem Parser.restored_expression (p : Parser) : p.Restored p.expression :=
  restored_of_advances (x := expression? p.fuel) (advances_nextExpression p.fuel)
    (Nat.lt_succ_self _)

theorem Parser.restored_program (p : Parser) : p.Restored p.program :=
  restored_of_advances (x := Grammar.program p.fuel) (advances_program p.fuel)
    (Nat.lt_succ_self _)

end

/-! ## The items still to come -/

/-- What is left of an item without its line. -/
def withoutLine : Except SyntaxError Lexeme → Except SyntaxFault (Token × Bool)
  | .ok l => .ok (l.token, l.spaced)
  | .error e => .error e.fault

def TokenStream.items (s : TokenStream) : List (Except SyntaxFault (Token × Bool)) :=
  s.queue.entries.map withoutLine

namespace TokenStream

variable {s s' : TokenStream}

/-- What a stream gives next, told by its items. -/
inductive Shows (s : TokenStream) : Answer × TokenStream → Prop where
  | ended {u : TokenStream} : s.items = [] → u.items = [] → Shows s (.ok none, u)
  | token {l : Lexeme} {u : TokenStream} : s.items = .ok (l.token, l.spaced) :: u.items →
      Shows s (.ok (some l), u)
  | error {e : SyntaxError} {u : TokenStream} : s.items = .error e.fault :: u.items →
      Shows s (.error e, u)

theorem shows_next (s : TokenStream) : s.Shows s.next := by
  obtain ⟨rest, line, pushed⟩ := s
  cases pushed with
  | cons l ls => exact .token rfl
  | nil =>
    have lexes := lexes_read rest line
    change Shows _ (read _)
    generalize read ⟨rest, line, []⟩ = given at lexes
    have items {q : TokenQueue} (whole : lexed line rest = q) :
        (⟨rest, line, []⟩ : TokenStream).items = q.entries.map withoutLine :=
      congrArg (fun q => q.entries.map withoutLine) whole
    cases lexes with
    | ended whole done => exact .ended (items whole) (by rw [TokenStream.items, done]; rfl)
    | token _ whole => exact .token (items whole)
    | fault _ whole => exact .error (items whole)

theorem size_next_lt {a : Answer} (h : s.next = (a, s')) (some : a ≠ .ok none) :
    s'.size < s.size := by
  have given := s.gives_next
  rw [h] at given
  obtain ⟨rest, line, pushed⟩ := s
  cases given with
  | returned same =>
    cases same
    simp only [size, List.length_cons]
    omega
  | ended => exact absurd rfl some
  | token unpushed after | fault unpushed after =>
    cases unpushed
    have less : s'.rest.length < rest.length := rest_read_lt h some
    simp only [size, after, List.length_nil]
    omega

/-- The items do not depend on where the text stands. -/
theorem items_shift (k : Nat) (s : TokenStream) : (s.shift k []).items = s.items := by
  generalize hn : s.size = n
  induction n using Nat.strongRecOn generalizing s with
  | ind n ih =>
    have here := s.shows_next
    have there := (s.shift k []).shows_next
    rw [(inStep_next k (.inl rfl) not_spent_nil).same] at there
    cases h : s.next with
    | mk a u =>
      have less := size_next_lt h
      rw [h] at here there
      cases here with
      | ended items =>
        cases there with
        | ended items' => rw [items, items']
      | token items =>
        cases there with
        | token items' =>
          rw [items, items', ih u.size (hn ▸ less nofun) u rfl]
          rfl
      | error items =>
        cases there with
        | error items' =>
          rw [items, items', ih u.size (hn ▸ less nofun) u rfl]
          rfl

end TokenStream

def Parser.items (p : Parser) : List (Except SyntaxFault (Token × Bool)) := p.tokens.items

/-- A new parser for the text that is left has the same items in front of it. -/
theorem Parser.items_rest {p : Parser} (unpushed : p.tokens.pushed = []) :
    (Parser.ofString (String.ofList p.tokens.rest)).items = p.items := by
  obtain ⟨⟨rest, line, pushed⟩, noDo⟩ := p
  cases unpushed
  have from_zero (n : Nat) : (⟨rest, n, []⟩ : TokenStream).items =
      (⟨rest, 0, []⟩ : TokenStream).items := by
    rw [← TokenStream.items_shift n ⟨rest, 0, []⟩, TokenStream.shift, List.append_nil, Nat.zero_add]
    rfl
  change (⟨(String.ofList rest).toList, 1, []⟩ : TokenStream).items = _
  rw [String.toList_ofList]
  exact (from_zero 1).trans (from_zero line).symm

/-! ## Further calls -/

/-- Streams that have the same items in front of them, lines aside. -/
def Correspondence.aside : Correspondence where
  rel s s' := s.items = s'.items
  lexeme l l' := l.token = l'.token ∧ l.spaced = l'.spaced
  line _ _ := True
  halt e s e' s' := e.fault = e'.fault ∧ s.items = s'.items
  alike same := ⟨same.1, .inr same.2⟩
  atLine _ := trivial
  meets := by
    intro s s' same
    have left := s.shows_next
    have right := s'.shows_next
    generalize s.next = a at left
    generalize s'.next = b at right
    cases left with
    | ended items rest =>
      cases right with
      | ended _ rest' => exact .ended (rest.trans rest'.symm)
      | token items' | error items' => cases items.symm.trans (same.trans items')
    | token items =>
      cases right with
      | token items' =>
        have same := items.symm.trans (same.trans items')
        injection same with item rest
        injection item with item
        injection item with token spaced
        exact .token ⟨token, spaced⟩ rest
      | ended items' | error items' => cases items.symm.trans (same.trans items')
    | error items =>
      cases right with
      | error items' =>
        have same := items.symm.trans (same.trans items')
        injection same with item rest
        injection item with fault
        exact .error ⟨fault, rest⟩
      | ended items' | token items' => cases items.symm.trans (same.trans items')
  pushes := by
    intro s s' l l' same alike
    change .ok (l.token, l.spaced) :: s.items = .ok (l'.token, l'.spaced) :: s'.items
    rw [same, alike.1, alike.2]
  lines _ := .inl trivial
  fails _ _ _ same _ := ⟨rfl, same⟩

def Parsed.map {α β : Type} (f : α → β) : Parsed α → Parsed β
  | .ok a p => .ok (f a) p
  | .error e p => .error e p
  | .unfinished => .unfinished

namespace Parser

inductive Call where
  | command
  | expression
  | program

inductive Value where
  | one (e : Option Expr)
  | all (es : List Expr)

def call (p : Parser) : Call → Parsed Value
  | .command => p.command.map .one
  | .expression => p.expression.map .one
  | .program => p.program.map .all

/-- Calls one after the other, with their values and faults, and the parser behind them. -/
inductive Uses : Parser → List Call → List (Except SyntaxFault Value) → Parser → Prop where
  | done (p : Parser) : Uses p [] [] p
  | value {p q r : Parser} {c : Call} {calls : List Call} {v : Value}
      {results : List (Except SyntaxFault Value)} : p.call c = .ok v q → Uses q calls results r →
      Uses p (c :: calls) (.ok v :: results) r
  | error {p q r : Parser} {c : Call} {calls : List Call} {e : SyntaxError}
      {results : List (Except SyntaxFault Value)} : p.call c = .error e q →
      Uses q calls results r → Uses p (c :: calls) (.error e.fault :: results) r

variable {p q : Parser} {α β : Type}

theorem Restored.map {o : Parsed α} (h : p.Restored o) (f : α → β) : p.Restored (o.map f) := by
  cases h with
  | ok same => exact .ok same
  | error same => exact .error same

theorem restored_call (p : Parser) (c : Call) : p.Restored (p.call c) := by
  cases c with
  | command => exact p.restored_command.map _
  | expression => exact p.restored_expression.map _
  | program => exact p.restored_program.map _

theorem ends_map {o o' : Parsed α} (h : Correspondence.aside.Ends o o') (f : α → β) :
    Correspondence.aside.Ends (o.map f) (o'.map f) := by
  cases h with
  | value side => exact .value side
  | error halt setting => exact .error halt setting
  | left => exact .left
  | right => exact .right

theorem ends_call (side : Correspondence.aside.Side p q) (c : Call) :
    Correspondence.aside.Ends (p.call c) (q.call c) := by
  have congruence := Correspondence.aside.runs_congruence
  have command := Correspondence.ends_under (fun le => follows_nextCommand le)
    (nextCommand_congr congruence) side p.fuel q.fuel
  cases c with
  | command => exact ends_map command _
  | expression => 
    exact ends_map (Correspondence.ends_under (fun le => follows_nextExpression le)
      (nextExpression_congr congruence) side p.fuel q.fuel) _
  | program => 
    exact ends_map (Correspondence.ends_under (fun le => follows_commands le le)
      (program_congr congruence) side p.fuel q.fuel) _

/-- Where the items are the same, further calls have the same results. -/
theorem exists_uses (calls : List Call) (same : p.items = q.items) (setting : p.noDo = q.noDo) :
    ∃ results p' q', Uses p calls results p' ∧ Uses q calls results q' ∧ p'.items = q'.items := by
  induction calls generalizing p q with
  | nil => exact ⟨[], p, q, .done p, .done q, same⟩
  | cons c calls ih =>
    have ends := ends_call (p := p) (q := q) ⟨same, setting⟩ c
    have left := p.restored_call c
    have right := q.restored_call c
    generalize hp : p.call c = o at ends left
    generalize hq : q.call c = o' at ends right
    cases ends with
    | value side =>
      obtain ⟨results, p', q', used, used', rest⟩ := ih side.tokens side.setting
      exact ⟨_, p', q', .value hp used, .value hq used', rest⟩
    | error halt setting =>
      obtain ⟨results, p', q', used, used', rest⟩ := ih halt.2 setting
      have failed := Uses.error hq used'
      rw [← halt.1] at failed
      exact ⟨_, p', q', .error hp used, failed, rest⟩
    | left => cases left
    | right => cases right

theorem Uses.noDo {calls : List Call} {results : List (Except SyntaxFault Value)}
    (h : Uses p calls results q) : q.noDo = p.noDo := by
  induction h with
  | done => rfl
  | @value p _ _ c _ _ _ ok _ ih =>
    have restored := p.restored_call c
    rw [ok] at restored
    cases restored with
    | ok same => exact ih.trans same
  | @error p _ _ c _ _ _ bad _ ih =>
    have restored := p.restored_call c
    rw [bad] at restored
    cases restored with
    | error same => exact ih.trans same

end Parser

/-- Every rule puts the restriction on `do` back, whether it ends with a value or with an error. So
a parser that has been used, with errors or without, goes on as any unrestricted one with the same
items in front of it does, and a new one for the rest of the text is such a parser. -/
theorem parsers_restore :
    (∀ fuel x, OperandRule fuel x → ∀ p : Parser, p.tokens.size < fuel → p.Restored (x p)) ∧
    (∀ fuel (α : Type) (x : Parse α), Rule fuel x → ∀ p : Parser, p.tokens.size + 1 < fuel →
      p.Restored (x p)) ∧
    (∀ p : Parser, p.Restored p.command ∧ p.Restored p.expression ∧ p.Restored p.program) ∧
    ∀ source calls results p, (Parser.ofString source).Uses calls results p →
      (p.tokens.pushed = [] → (Parser.ofString (String.ofList p.tokens.rest)).items = p.items) ∧
      ∀ q : Parser, q.noDo = false → q.items = p.items → ∀ more, ∃ results' p' q',
        p.Uses more results' p' ∧ q.Uses more results' q' ∧ q'.items = p'.items := by
  refine ⟨fun fuel x rule p few => restored_of_advances rule.advances few,
    fun fuel α x rule p few => restored_of_advances rule.advances (by omega),
    fun p => ⟨p.restored_command, p.restored_expression, p.restored_program⟩, ?_⟩
  intro source calls results p used
  refine ⟨Parser.items_rest, fun q unrestricted same more => ?_⟩
  have setting : q.noDo = p.noDo := unrestricted.trans used.noDo.symm
  obtain ⟨results', q', p', hq, hp, rest⟩ := Parser.exists_uses more same setting
  exact ⟨results', p', q', hp, hq, rest⟩

/-- The error stands in the header of a loop, where a `do` is reserved, inside the brackets of an
argument. Behind it a call takes its block as in a new parser. -/
theorem parsers_restore_header : ∃ p : Parser,
    (Parser.ofString "f [while )\nb do end").Uses [.command] [.error (.unexpected ")")] p ∧
      p.Restored (callArguments (parse 20) 20 p) ∧ p.Restored (term (parse 20) 20 p) ∧
      ∃ results' p' q', p.Uses [.command] results' p' ∧
        (Parser.ofString "\nb do end").Uses [.command] results' q' ∧ q'.items = p'.items := by
  have stops : (Parser.ofString "f [while )\nb do end").call .command =
      .error ⟨.unexpected ")", 1⟩ ⟨⟨"\nb do end".toList, 1, []⟩, false⟩ := by cbv
  have used := Parser.Uses.error stops (.done _)
  obtain ⟨operands, rules, -, again⟩ := parsers_restore
  obtain ⟨fresh, on⟩ := again _ _ _ _ used
  exact ⟨_, used, rules 20 _ _ .callArguments _ (by decide), operands 20 _ .term _ (by decide),
    on _ rfl (fresh rfl) [.command]⟩

end ObjectLang
