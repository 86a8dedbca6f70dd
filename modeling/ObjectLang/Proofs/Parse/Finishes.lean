import ObjectLang.Proofs.Parse.Advances
import ObjectLang.Grammar

/-!
# Parsing ends

The bound that is taken from the number of tokens is never reached: no rule of the grammar
goes down a level without having taken a token.
-/

namespace ObjectLang

namespace Grammar

open Parse

section
variable {m n fuel : Nat} {r : Nested}

/-- The rules for nested expressions end if fewer than `m` tokens are left, and take one. -/
abbrev NestedAdvances (m : Nat) (r : Nested) : Prop :=
  ∀ nt, Advances m (fun _ => 1) (r nt)

/-! ## Commands and bodies -/

/-- The token that ends the command is taken, or is put back. -/
theorem advances_endOfCommand : Advances n (fun _ => 0) endOfCommand := by
  intro p _
  change (∃ a q, Parse.bind next _ p = _ ∧ _) ∨ ∃ e q, Parse.bind next _ p = _ ∧ _
  unfold Parse.bind next onTokens
  cases h : p.tokens.next with
  | mk a s =>
    match a with
    | .ok none => exact .inl ⟨(), _, rfl, moves_end h⟩
    | .ok (some l) =>
      simp only
      split
      · exact .inl ⟨(), _, rfl, moves_back h⟩
      split
      · exact .inl ⟨(), _, rfl, (moves_token h).of_le (Nat.zero_le 1)⟩
      · exact .inr ⟨_, _, rfl, rfl⟩
    | .error e => exact .inr ⟨e, _, rfl, rfl⟩

theorem advances_headerEnd : Advances n (fun _ => 0) headerEnd := by
  refine advances_acceptSeparator.bind fun b => advances_ite (fun _ => advances_pure ?_) fun _ => ?_
  · exact Nat.zero_sub _
  refine (advances_nextIs _).bind fun b => advances_ite (fun _ => advances_pure ?_) fun _ => ?_
  · omega
  refine advances_peek.bind fun l => ?_
  cases l with
  | none => exact advances_lineHere.bind fun line => advances_fail _ line
  | some l => exact advances_fail _ _

theorem advances_command (hr : NestedAdvances n r) : Advances n (fun _ => 1) (command r) :=
  (hr .expression).bind fun _ => advances_endOfCommand.then_pure fun _ => Nat.le_refl 0

theorem advances_bodyCommand (hr : NestedAdvances n r) (closing : List Fixed) (hn : n ≤ fuel) :
    Advances n (fun b => b.isSome.toNat) (bodyCommand? r closing fuel) := by
  refine (advances_skipSeparators hn).bind fun _ => advances_peek.bind fun l => ?_
  cases l with
  | none => exact advances_lineHere.bind fun line => advances_fail _ line
  | some l =>
    refine advances_ite (fun _ => advances_pure rfl) fun _ => ?_
    exact (advances_command hr).then_pure fun _ => Nat.le_refl 1

theorem advances_commandList (hr : NestedAdvances n r) (closing : List Fixed) (hn : n ≤ fuel) :
    Advances n (fun _ => 0) (commandList r closing fuel) :=
  advances_collect hn (advances_bodyCommand hr closing hn)

theorem advances_bodyUntilEnd (hr : NestedAdvances n r) (hn : n ≤ fuel) :
    Advances n (fun _ => 0) (bodyUntilEnd r fuel) :=
  (advances_commandList hr _ hn).bind fun _ => (advances_expect _).then_pure fun _ => Nat.le_refl 0

/-! ## Blocks and arguments -/

theorem advances_blockBody (hr : NestedAdvances n r) (closing : Fixed) (hn : n ≤ fuel) :
    Advances n (fun _ => 0) (blockBody r closing fuel) := by
  have body : ∀ params, Advances n (fun _ => 0) (do
      let body ← commandList r [closing] fuel
      expect closing
      pure (Expr.block params (.ofBody body))) := fun params =>
    (advances_commandList hr _ hn).bind fun _ =>
      (advances_expect _).then_pure fun _ => Nat.le_refl 0
  refine advances_restricted false ((advances_accept .pipe).bind fun b => ?_)
  cases b with
  | true => exact (advances_parameterList _ hn).bind body
  | false => exact body []

theorem advances_blockTrailer (hr : NestedAdvances n r) (hn : n ≤ fuel) :
    Advances n (fun _ => 0) (blockTrailer r fuel) := by
  have block : ∀ closing : Fixed, Advances n (fun _ => 0)
      (do let b ← blockBody r closing fuel; pure (some b)) :=
    fun closing => (advances_blockBody hr closing hn).then_pure fun _ => Nat.le_refl 0
  have brace : Advances n (fun _ => 0)
      (do
        if ← accept .lbrace then let b ← blockBody r .rbrace fuel; pure (some b)
        else pure none) := by
    refine (advances_accept .lbrace).bind fun b => ?_
    cases b with
    | true => exact block .rbrace
    | false => exact advances_pure rfl
  refine advances_doAllowed.bind fun allowed => ?_
  cases allowed with
  | false => exact brace
  | true =>
    refine (advances_accept .doWord).bind fun b => ?_
    cases b with
    | true => exact block .endWord
    | false => exact brace

theorem advances_argumentFollows : Advances n (fun _ => 0) argumentFollows :=
  advances_nextPasses _

theorem advances_parenArguments (hr : NestedAdvances n r) (hn : n ≤ fuel) :
    Advances n (fun _ => 0) (parenArguments r fuel) :=
  advances_restricted false (advances_delimited _ hn (hr .expression))

theorem advances_bareArguments (hr : NestedAdvances n r) (hn : n ≤ fuel) :
    Advances n (fun _ => 0) (bareArguments r fuel) := by
  refine advances_restricted true ((hr .expression).bind fun first => ?_)
  refine (advances_collect hn (advances_commaThen ?_)).then_pure fun _ => Nat.le_refl 0
  exact (advances_skipNewlines hn).bind fun _ => (hr .expression).free

theorem advances_withBlock (hr : NestedAdvances n r) (args : List Expr) (hn : n ≤ fuel) :
    Advances n (fun _ => 0) (withBlock r args fuel) :=
  (advances_blockTrailer hr hn).then_pure fun _ => Nat.le_refl 0

theorem advances_callArguments (hr : NestedAdvances n r) (hn : n ≤ fuel) :
    Advances n (fun _ => 0) (callArguments r fuel) := by
  refine (advances_acceptTouching _).bind fun touches => ?_
  cases touches with
  | true => exact (advances_parenArguments hr hn).bind fun args => advances_withBlock hr args hn
  | false =>
    refine advances_argumentFollows.bind fun follows => ?_
    cases follows with
    | true => exact (advances_bareArguments hr hn).bind fun args => advances_withBlock hr args hn
    | false => exact advances_withBlock hr [] hn

/-! ## Conditions and loops -/

theorem advances_header {α : Type} (f : Fixed) {x : Parse α} (h : Advances n (fun _ => 0) x) :
    Advances n (fun _ => 0) (do
      if ← accept f then pure () else headerEnd
      x) := by
  refine (advances_accept f).bind fun b => ?_
  cases b with
  | true => exact h
  | false => exact advances_headerEnd.bind fun _ => h

theorem advances_ifConstruct (hr : NestedAdvances m r) (hm : m ≤ fuel) : ∀ {depth n : Nat},
    n ≤ depth → n ≤ m → Advances n (fun _ => 0) (ifConstruct r fuel depth)
  | 0, _, hd, _ => fun p hp => absurd (Nat.lt_of_lt_of_le hp hd) (Nat.not_lt_zero _)
  | depth + 1, n, hd, hn => by
    have nested : NestedAdvances (n - 1) r := fun nt => (hr nt).of_le (by omega)
    have hle : n - 1 ≤ fuel := by omega
    refine ((hr .expression).of_le hn).bind_less fun condition => advances_header _ ?_
    refine (advances_commandList nested _ hle).bind fun thenBody => ?_
    refine (advances_accept .elifWord).bind fun b => ?_
    cases b with
    | true =>
      exact (advances_ifConstruct hr hm (by omega) (by omega)).then_pure fun _ => Nat.le_refl 0
    | false =>
      refine (advances_accept .elseWord).bind fun b => ?_
      cases b with
      | true => exact (advances_bodyUntilEnd nested hle).then_pure fun _ => Nat.le_refl 0
      | false => exact (advances_expect _).then_pure fun _ => Nat.le_refl 0

theorem advances_loopHeader (hr : NestedAdvances n r) : Advances n (fun _ => 0) (loopHeader r) :=
  (advances_restricted true (hr .expression)).bind fun _ => advances_header _ (advances_pure rfl)

theorem advances_whileConstruct (hr : NestedAdvances n r) (hn : n ≤ fuel) :
    Advances n (fun _ => 0) (whileConstruct r fuel) :=
  (advances_loopHeader hr).bind fun _ =>
    (advances_bodyUntilEnd hr hn).then_pure fun _ => Nat.le_refl 0

theorem advances_untilConstruct (hr : NestedAdvances n r) (hn : n ≤ fuel) :
    Advances n (fun _ => 0) (untilConstruct r fuel) :=
  (advances_loopHeader hr).bind fun _ =>
    (advances_bodyUntilEnd hr hn).then_pure fun _ => Nat.le_refl 0

theorem advances_forConstruct (hr : NestedAdvances n r) (hn : n ≤ fuel) :
    Advances n (fun _ => 0) (forConstruct r fuel) := by
  refine (advances_nameBy _).free.bind fun _ => (advances_expect _).bind fun _ => ?_
  refine (advances_loopHeader hr).bind fun _ => ?_
  exact (advances_bodyUntilEnd hr hn).then_pure fun _ => Nat.le_refl 0

/-! ## Definitions -/

theorem advances_setterName (name : String) : Advances n (fun _ => 0) (setterName name) := by
  refine (advances_acceptTouching _).bind fun b => ?_
  cases b <;> exact advances_pure rfl

theorem advances_qualifiedTarget (receiver : Expr) :
    Advances n (fun _ => 0) (qualifiedTarget receiver) := by
  have named : ∀ make : String → Expr, Advances n (fun _ => 0)
      (do let n ← methodName; let n ← setterName n; pure (make n)) := fun make =>
    (advances_nameBy _).free.bind fun n => (advances_setterName n).then_pure fun _ => Nat.le_refl 0
  refine (advances_accept _).bind fun doubleColon => ?_
  cases doubleColon with
  | true => exact named _
  | false => exact (advances_expect _).bind fun _ => named _

theorem advances_plainTarget (first : Lexeme) : Advances n (fun _ => 0) (plainTarget first) := by
  unfold plainTarget
  split
  · exact advances_fail _ _
  · cases first.token.methodName? with
    | none => exact advances_fail _ _
    | some n => exact (advances_setterName n).then_pure fun _ => Nat.le_refl 0

theorem advances_qualifier {α : Type} {cost : α → Nat} {g : Bool → Parse α}
    (target : ∀ q, Advances n cost (g q)) :
    Advances n cost (do
      let qualified ← if ← nextIs .dot then pure true else nextIs .doubleColon
      g qualified) := by
  refine (advances_nextIs .dot).bind fun dot => ?_
  cases dot with
  | true => exact target true
  | false => exact (advances_nextIs .doubleColon).bind target

theorem advances_definitionTarget : Advances n (fun _ => 0) definitionTarget := by
  refine advances_lineHere.bind fun line => advances_next.bind fun first => ?_
  cases first with
  | none => exact advances_fail _ line
  | some first =>
    refine advances_qualifier fun qualified => ?_
    cases definitionReceiver? first.token with
    | none => exact advances_plainTarget first
    | some receiver =>
      exact advances_ite (fun _ => advances_qualifiedTarget receiver) fun _ =>
        advances_plainTarget first

theorem advances_definitionParams (hn : n ≤ fuel) :
    Advances n (fun _ => 0) (definitionParams fuel) := by
  refine (advances_accept .lparen).bind fun b => ?_
  cases b with
  | true => exact advances_parameterList _ hn
  | false =>
    refine advances_peek.bind fun l => advances_ite (fun _ => ?_) fun _ => advances_pure rfl
    exact advances_separated hn (advances_nameBy _).free

theorem advances_defConstruct (hr : NestedAdvances n r) (hn : n ≤ fuel) :
    Advances n (fun _ => 0) (defConstruct r fuel) :=
  advances_definitionTarget.bind fun _ => (advances_definitionParams hn).bind fun _ =>
    (advances_bodyUntilEnd hr hn).then_pure fun _ => Nat.le_refl 0

theorem advances_constantName : Advances n (fun _ => 0) constantName := by
  refine advances_lineHere.bind fun line => advances_next.free.bind fun l => ?_
  cases l with
  | none => exact advances_fail _ line
  | some l =>
    simp only
    split
    · exact advances_ite (fun _ => advances_pure rfl) fun _ => advances_fail _ _
    · exact advances_fail _ _

theorem advances_className (hn : n ≤ fuel) : Advances n (fun _ => 0) (className fuel) := by
  refine advances_constantName.bind fun first => advances_iterate hn (fun e => ?_) _
  refine (advances_accept .doubleColon).bind fun b => ?_
  cases b with
  | true => exact advances_constantName.then_pure fun _ => Nat.le_refl 0
  | false => exact advances_pure rfl

theorem advances_superclass (hr : NestedAdvances n r) :
    Advances n (fun _ => 0) (superclass? r) := by
  refine (advances_accept .less).bind fun b => ?_
  cases b with
  | true => exact (hr .range).then_pure fun _ => Nat.zero_le _
  | false => exact advances_pure rfl

theorem advances_classConstruct (hr : NestedAdvances n r) (hn : n ≤ fuel) :
    Advances n (fun _ => 0) (classConstruct r fuel) :=
  (advances_className hn).bind fun _ => (advances_superclass hr).bind fun _ =>
    advances_headerEnd.bind fun _ => (advances_bodyUntilEnd hr hn).then_pure fun _ => Nat.le_refl 0

theorem advances_moduleConstruct (hr : NestedAdvances n r) (hn : n ≤ fuel) :
    Advances n (fun _ => 0) (moduleConstruct r fuel) :=
  advances_constantName.bind fun _ => advances_headerEnd.bind fun _ =>
    (advances_bodyUntilEnd hr hn).then_pure fun _ => Nat.le_refl 0

/-! ## Terms -/

theorem advances_nameTerm (hr : NestedAdvances n r) (hn : n ≤ fuel) (name : String) :
    Advances n (fun _ => 0) (nameTerm r fuel name) := by
  refine (advances_acceptTouching _).bind fun b => ?_
  cases b with
  | true =>
    exact (advances_parenArguments hr hn).bind fun args =>
      (advances_withBlock hr args hn).then_pure fun _ => Nat.le_refl 0
  | false => exact advances_pure rfl

theorem advances_group (hr : NestedAdvances n r) (hn : n ≤ fuel) :
    Advances n (fun _ => 0) (group r fuel) := by
  have inner : Advances n (fun _ => 0)
      (do skipSeparators fuel; let e ← r .expression; skipSeparators fuel; pure e) :=
    (advances_skipSeparators hn).bind fun _ => (hr .expression).free.bind fun _ =>
      (advances_skipSeparators hn).then_pure fun _ => Nat.le_refl 0
  exact (advances_restricted false inner).bind fun _ =>
    (advances_expect _).then_pure fun _ => Nat.le_refl 0

theorem advances_hashEntry (hr : NestedAdvances n r) (hn : n ≤ fuel) :
    Advances n (fun _ => 1) (hashEntry r fuel) :=
  (hr .expression).bind fun _ => (advances_expect _).bind fun _ =>
    (advances_skipNewlines hn).bind fun _ => (hr .expression).then_pure fun _ => Nat.zero_le _

theorem advances_fixedTerm (hr : NestedAdvances n r) (hn : n ≤ fuel) (f : Fixed) (line : Nat) :
    Advances n (fun _ => 0) (fixedTerm r fuel f line) := by
  cases f with
  | nilWord | trueWord | falseWord | selfWord => exact advances_pure rfl
  | lparen => exact advances_group hr hn
  | lbracket =>
    exact (advances_restricted false (advances_delimited _ hn (hr .expression))).then_pure
      fun _ => Nat.le_refl 0
  | lbrace =>
    exact (advances_restricted false (advances_delimited _ hn (advances_hashEntry hr hn))).then_pure
      fun _ => Nat.le_refl 0
  | ifWord => exact advances_ifConstruct hr hn hn (Nat.le_refl n)
  | whileWord => exact advances_whileConstruct hr hn
  | untilWord => exact advances_untilConstruct hr hn
  | forWord => exact advances_forConstruct hr hn
  | defWord => exact advances_defConstruct hr hn
  | classWord => exact advances_classConstruct hr hn
  | moduleWord => exact advances_moduleConstruct hr hn
  | _ => exact advances_fail _ line

/-! From here on the rules are on the level of the nested ones, which are used only behind the
first token. -/

theorem advances_term (hr : NestedAdvances m r) (hm : m ≤ fuel) :
    Advances (m + 1) (fun _ => 1) (term r fuel) := by
  refine advances_lineHere.bind fun line => advances_next.bind_less fun l => ?_
  cases l with
  | none => exact advances_fail _ line
  | some l =>
    obtain ⟨token, line, spaced⟩ := l
    cases token with
    | name n => exact advances_nameTerm hr hm n
    | fixed f => exact advances_fixedTerm hr hm f line
    | _ => exact advances_pure rfl

/-! ## Suffixes and operators -/

theorem advances_index (hr : NestedAdvances n r) (hn : n ≤ fuel) :
    Advances n (fun _ => 1) (index r fuel) := by
  have inner : Advances n (fun _ => 1)
      (do skipNewlines fuel; let e ← r .expression; skipNewlines fuel; pure e) :=
    (advances_skipNewlines hn).bind fun _ => (hr .expression).bind fun _ =>
      (advances_skipNewlines hn).then_pure fun _ => Nat.le_refl 0
  exact (advances_restricted false inner).bind fun _ =>
    (advances_expect _).then_pure fun _ => Nat.le_refl 0

theorem advances_suffix (hr : NestedAdvances n r) (hn : n ≤ fuel) (e : Expr) :
    Advances n (fun b => b.isSome.toNat) (suffix r fuel e) := by
  refine advances_peek.bind fun l => ?_
  cases l with
  | none => exact advances_pure rfl
  | some l =>
    refine advances_ite (fun _ => ?_) fun _ => advances_ite (fun _ => ?_) fun _ =>
      advances_ite (fun _ => ?_) fun _ => advances_pure rfl
    · refine advances_next.free.bind fun _ => (advances_nameBy _).bind fun n => ?_
      exact (advances_callArguments hr hn).then_pure fun _ => Nat.le_refl 0
    · exact advances_next.free.bind fun _ => (advances_nameBy _).then_pure fun _ => Nat.le_refl 1
    · exact advances_next.free.bind fun _ => (advances_index hr hn).then_pure fun _ => Nat.le_refl 1

theorem advances_suffixed (hr : NestedAdvances m r) (hm : m ≤ fuel) :
    Advances (m + 1) (fun _ => 1) (suffixed r fuel) :=
  (advances_term hr hm).bind_less fun e => advances_iterate hm (advances_suffix hr hm) e

theorem advances_unary (hr : NestedAdvances m r) (hm : m ≤ fuel) : ∀ {depth n : Nat}, n ≤ depth →
    n ≤ m + 1 → Advances n (fun _ => 1) (unary r fuel depth)
  | 0, _, hd, _ => fun p hp => absurd (Nat.lt_of_lt_of_le hp hd) (Nat.not_lt_zero _)
  | depth + 1, n, hd, hn => by
    have operand : Advances (n - 1) (fun _ => 0) (unary r fuel depth) :=
      (advances_unary hr hm (by omega) (by omega)).free
    refine (advances_accept .minus).bind_less fun b => ?_
    cases b with
    | true => exact operand.then_pure fun _ => Nat.le_refl 0
    | false =>
      refine (advances_accept .plus).bind_less fun b => ?_
      cases b with
      | true => exact operand
      | false =>
        refine (advances_accept .bang).bind_less fun b => ?_
        cases b with
        | true =>
          have nested : Advances (n - 1) (fun _ => 0) (r .comparison) :=
            ((hr .comparison).of_le (by omega)).free
          exact nested.then_pure fun _ => Nat.le_refl 0
        | false => exact (advances_suffixed hr hm).of_le hn

section
variable {operator? : Token → Option (Expr → Expr → Expr)} {operand : Parse Expr}

theorem advances_operation (h : Advances n (fun _ => 1) operand) (left : Expr) :
    Advances n (fun b => b.isSome.toNat) (operation operator? operand left) := by
  refine advances_peek.bind fun l => ?_
  cases l.bind (operator? ·.token) with
  | none => exact advances_pure rfl
  | some combine => exact advances_next.free.bind fun _ => h.then_pure fun _ => Nat.le_refl 1

theorem advances_tier (h : Advances (m + 1) (fun _ => 1) operand) (hm : m ≤ fuel) :
    Advances (m + 1) (fun _ => 1) (tier operator? operand fuel) :=
  h.bind_less fun left =>
    advances_iterate hm (advances_operation (h.of_le (Nat.le_succ m))) left

end

theorem advances_comparison (hr : NestedAdvances m r) (hm : m < fuel) :
    Advances (m + 1) (fun _ => 1) (comparison r fuel) := by
  have hle := Nat.le_of_lt hm
  exact advances_tier (advances_tier (advances_tier
    (advances_unary hr hle hm (Nat.le_refl _)) hle) hle) hle

theorem advances_range (hr : NestedAdvances m r) (hm : m < fuel) :
    Advances (m + 1) (fun _ => 1) (range r fuel) := by
  refine (advances_comparison hr hm).bind fun lower => (advances_accept .dotDot).bind fun b => ?_
  cases b with
  | true => exact (advances_comparison hr hm).free.then_pure fun _ => Nat.le_refl 0
  | false => exact advances_pure rfl

/-! ## Calls without parentheses and assignments -/

theorem advances_commandCall (hr : NestedAdvances n r) (hn : n ≤ fuel) (left : Expr) :
    Advances n (fun _ => 0) (commandCall r fuel left) := by
  cases left with
  | name n =>
    refine advances_argumentFollows.bind fun follows => ?_
    cases follows with
    | true =>
      exact (advances_bareArguments hr hn).bind fun args =>
        (advances_withBlock hr args hn).then_pure fun _ => Nat.le_refl 0
    | false =>
      refine (advances_blockTrailer hr hn).bind fun b => ?_
      cases b <;> exact advances_pure rfl
  | _ => exact advances_pure rfl

theorem advances_assignment (hr : NestedAdvances n r) (hn : n ≤ fuel) (target : Expr)
    (line : Nat) : Advances n (fun _ => 0) (assignment r fuel target line) := by
  refine (advances_skipNewlines hn).bind fun _ => (hr .expression).free.bind fun value => ?_
  cases assignmentTo? target value with
  | none => exact advances_fail _ line
  | some e => exact advances_pure rfl

theorem advances_expression (hr : NestedAdvances m r) (hm : m < fuel) :
    Advances (m + 1) (fun _ => 1) (expression r fuel) := by
  have hle := Nat.le_of_lt hm
  refine advances_lineHere.bind fun line => (advances_range hr hm).bind_less fun left => ?_
  refine (advances_commandCall hr hle left).bind fun left => ?_
  refine (advances_accept .equals).bind fun b => ?_
  cases b with
  | true => exact advances_assignment hr hle left line
  | false => exact advances_pure rfl

end

/-! ## The grammar as a whole -/

theorem advances_parse : ∀ fuel, NestedAdvances (fuel - 1) (parse fuel)
  | 0, _ => fun p hp => absurd hp (Nat.not_lt_zero _)
  | 1, _ => fun p hp => absurd hp (Nat.not_lt_zero _)
  -- One level takes at least one token, so one token fewer is left for the levels below.
  | fuel + 2, nt => by
    have nested := advances_parse (fuel + 1)
    have hm := Nat.lt_succ_self fuel
    cases nt with
    | expression => exact advances_expression nested hm
    | range => exact advances_range nested hm
    | comparison => exact advances_comparison nested hm

theorem advances_nextCommand (fuel : Nat) :
    Advances (fuel - 1) (fun b => b.isSome.toNat) (command? fuel) := by
  refine (advances_skipSeparators (Nat.sub_le fuel 1)).bind fun _ => advances_peek.bind fun l => ?_
  cases l with
  | none => exact advances_pure rfl
  | some l => exact (advances_command (advances_parse fuel)).then_pure fun _ => Nat.le_refl 1

theorem advances_nextExpression (fuel : Nat) :
    Advances (fuel - 1) (fun b => b.isSome.toNat) (expression? fuel) := by
  refine advances_peek.bind fun l => ?_
  cases l with
  | none => exact advances_pure rfl
  | some l => exact (advances_parse fuel .expression).then_pure fun _ => Nat.le_refl 1

theorem advances_program (fuel : Nat) : Advances (fuel - 1) List.length (program fuel) :=
  advances_collect_length (Nat.sub_le fuel 1) (advances_nextCommand fuel)

end Grammar

/-- Parsing gives commands or an error. -/
theorem parseProgram_finishes (source : String) :
    (∃ commands rest, parseProgram source = .ok commands rest) ∨
      ∃ e rest, parseProgram source = .error e rest := by
  have h := Grammar.advances_program (Parser.ofString source).fuel (Parser.ofString source)
    (Nat.lt_succ_self _)
  exact h.imp (fun ⟨commands, rest, e, _⟩ => ⟨commands, rest, e⟩)
    fun ⟨e, rest, h, _⟩ => ⟨e, rest, h⟩

end ObjectLang
