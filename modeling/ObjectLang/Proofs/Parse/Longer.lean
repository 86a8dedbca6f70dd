import ObjectLang.Proofs.Parse.Follows
import ObjectLang.Grammar

/-!
# The grammar on longer texts

Every rule of the grammar follows itself when it is given larger bounds and a text that goes
on. Most rules need a token and end with one that is not the end of a line.
-/

namespace ObjectLang.Grammar

open Parse
open TokenStream (Closed Spent)

section
variable {k : Nat} {t : List Char} {n c : Bool} {r r' : Nested} {fuel fuel' : Nat}

/-! ## Ends of commands -/

theorem follows_endOfCommand : Follows k t false false endOfCommand endOfCommand := by
  refine follows_next (follows_pure ()) (fun l _ => ?_) fun l hl p hc => ?_
  · refine along_ite (fun _ => ?_) fun _ => along_ite (fun _ => (follows_pure ()).along)
      fun _ => along_fail _ _
    exact fun p hc hs => .inl ⟨hc.push fun h => absurd h hs, TokenStream.not_spent_push l, rfl⟩
  -- The end of a line ends the command, also where the text ends with it.
  · obtain ⟨token, line, spaced⟩ := l
    obtain rfl : token = .fixed .newline := hl
    exact (follows_pure ()).agree p hc

theorem follows_headerEnd : Follows k t true false headerEnd headerEnd := by
  refine follows_acceptSeparator (follows_pure ()) ?_
  refine follows_nextIs (follows_pure ()).along ?_
  refine follows_peek (follows_lineHere fun line => follows_fail rfl line) fun l => ?_
  exact (along_fail _ _).at l

/-- A header, and what comes after it. -/
theorem follows_header {α : Type} {f : Fixed} (hf : f ≠ .newline) {x y : Parse α}
    (h : Follows k t c c x y) :
    Follows k t true c
      (do
        if ← accept f then pure () else headerEnd
        x)
      (do
        if ← accept f then pure () else headerEnd
        y) :=
  follows_accept hf h.along (follows_headerEnd.bind_headed fun _ => h)

/-! ## Bodies -/

/-- The rules for nested expressions, on a longer text. -/
abbrev FollowsNested (k : Nat) (t : List Char) (r r' : Nested) : Prop :=
  ∀ n, Follows k t true true (r n) (r' n)

theorem follows_command (hr : FollowsNested k t r r') :
    Follows k t true false (command r) (command r') :=
  (hr .expression).bind_solid fun e => (follows_endOfCommand.then_pure fun _ => e).along

theorem follows_bodyCommand (hr : FollowsNested k t r r') (closing : List Fixed)
    (hle : fuel ≤ fuel') :
    Follows k t true false (bodyCommand? r closing fuel) (bodyCommand? r' closing fuel') := by
  refine (follows_skipSeparators hle).bind_loose fun _ => ?_
  refine follows_peek (follows_lineHere fun line => follows_fail rfl line) fun l => ?_
  refine (along_ite (fun _ => ?_) fun _ => ?_).at l
  · exact (follows_pure none).along
  · exact ((follows_command hr).then_pure _).along

theorem follows_commandList (hr : FollowsNested k t r r') (closing : List Fixed)
    (hle : fuel ≤ fuel') :
    Follows k t true false (commandList r closing fuel) (commandList r' closing fuel') :=
  follows_collect (follows_bodyCommand hr closing hle) hle

theorem follows_bodyUntilEnd (hr : FollowsNested k t r r') (hle : fuel ≤ fuel') :
    Follows k t true true (bodyUntilEnd r fuel) (bodyUntilEnd r' fuel') := by
  refine (follows_commandList hr _ hle).bind_headed fun body => ?_
  exact (follows_expect (by decide)).bind_solid fun _ => (follows_pure _).along

/-! ## Blocks and arguments -/

theorem follows_blockBody (hr : FollowsNested k t r r') {closing : Fixed}
    (hc : closing ≠ .newline) (hle : fuel ≤ fuel') :
    Follows k t true true (blockBody r closing fuel) (blockBody r' closing fuel') := by
  refine follows_restricted false ?_
  have body : ∀ params, Follows k t true true
      (do
        let body ← commandList r [closing] fuel
        expect closing
        pure (Expr.block params (.ofBody body)))
      (do
        let body ← commandList r' [closing] fuel'
        expect closing
        pure (Expr.block params (.ofBody body))) := by
    intro params
    refine (follows_commandList hr _ hle).bind_headed fun body => ?_
    exact (follows_expect hc).bind_solid fun _ => (follows_pure _).along
  refine follows_accept (by decide) ?_ ?_
  · exact (follows_parameterList (by decide) hle).along.bind_clear fun params => (body params).along
  · exact body []

theorem follows_blockTrailer (hr : FollowsNested k t r r') (hle : fuel ≤ fuel') :
    Follows k t false true (blockTrailer r fuel) (blockTrailer r' fuel') := by
  have block : ∀ {closing : Fixed}, closing ≠ .newline → Along k t true
      (do let b ← blockBody r closing fuel; pure (some b))
      (do let b ← blockBody r' closing fuel'; pure (some b)) :=
    fun hc => ((follows_blockBody hr hc hle).then_pure _).along
  have brace : Follows k t false true
      (do
        if ← accept .lbrace then let b ← blockBody r .rbrace fuel; pure (some b)
        else pure none)
      (do
        if ← accept .lbrace then let b ← blockBody r' .rbrace fuel'; pure (some b)
        else pure none) :=
    follows_accept (by decide) (block (by decide)) (follows_pure none)
  refine follows_doAllowed.bind_soft fun allowed => ?_
  cases allowed with
  | true => exact follows_accept (by decide) (block (by decide)) brace
  | false => exact brace

theorem follows_argumentFollows {α : Type} {F G : Bool → Parse α}
    (hyes : Along k t c (F true) (G true)) (hno : Follows k t n c (F false) (G false)) :
    Follows k t n c (argumentFollows >>= F) (argumentFollows >>= G) := by
  unfold argumentFollows
  rw [bind_assoc, bind_assoc]
  exact follows_nextPasses (fun _ => rfl) hyes hno

theorem follows_parenArguments (hr : FollowsNested k t r r') (hle : fuel ≤ fuel') :
    Follows k t true true (parenArguments r fuel) (parenArguments r' fuel') :=
  follows_restricted false (follows_delimited (by decide) (hr .expression) hle)

theorem follows_bareArguments (hr : FollowsNested k t r r') (hle : fuel ≤ fuel') :
    Follows k t true true (bareArguments r fuel) (bareArguments r' fuel') := by
  refine follows_restricted true ((hr .expression).bind_solid fun first => ?_)
  refine ((follows_collect (follows_commaThen ?_) hle).then_pure _).along
  exact (follows_skipNewlines hle).along.bind_loose fun _ => hr .expression

theorem follows_withBlock (hr : FollowsNested k t r r') (args : List Expr) (hle : fuel ≤ fuel') :
    Follows k t false true (withBlock r args fuel) (withBlock r' args fuel') :=
  (follows_blockTrailer hr hle).then_pure _

theorem follows_callArguments (hr : FollowsNested k t r r') (hle : fuel ≤ fuel') :
    Follows k t false true (callArguments r fuel) (callArguments r' fuel') := by
  have block : ∀ args, Along k t true (withBlock r args fuel) (withBlock r' args fuel') :=
    fun args => (follows_withBlock hr args hle).along
  refine follows_acceptTouching (by decide) ?_ ?_
  · exact (follows_parenArguments hr hle).along.bind_clear block
  refine follows_argumentFollows ?_ (follows_withBlock hr [] hle)
  exact (follows_bareArguments hr hle).along.bind_clear block

/-! ## Conditions and loops -/

theorem follows_ifConstruct (hr : FollowsNested k t r r') (hle : fuel ≤ fuel') :
    ∀ {depth depth' : Nat}, depth ≤ depth' →
      Follows k t true true (ifConstruct r fuel depth) (ifConstruct r' fuel' depth')
  | 0, _, _ => follows_unfinished
  | depth + 1, depth' + 1, hd => by
    have other := follows_ifConstruct hr hle (Nat.le_of_succ_le_succ hd)
    refine (hr .expression).bind_solid fun condition => (follows_header (by decide) ?_).along
    refine (follows_commandList hr _ hle).bind_headed fun thenBody => ?_
    refine follows_accept (by decide) (other.then_pure _).along ?_
    refine follows_accept (by decide) ((follows_bodyUntilEnd hr hle).then_pure _).along ?_
    exact (follows_expect (by decide)).bind_solid fun _ => (follows_pure _).along

theorem follows_loopHeader (hr : FollowsNested k t r r') :
    Follows k t true false (loopHeader r) (loopHeader r') :=
  (follows_restricted true (hr .expression)).bind_solid fun e =>
    (follows_header (by decide) (follows_pure e)).along

theorem follows_whileConstruct (hr : FollowsNested k t r r') (hle : fuel ≤ fuel') :
    Follows k t true true (whileConstruct r fuel) (whileConstruct r' fuel') :=
  (follows_loopHeader hr).bind_headed fun _ => (follows_bodyUntilEnd hr hle).then_pure _

theorem follows_untilConstruct (hr : FollowsNested k t r r') (hle : fuel ≤ fuel') :
    Follows k t true true (untilConstruct r fuel) (untilConstruct r' fuel') :=
  (follows_loopHeader hr).bind_headed fun _ => (follows_bodyUntilEnd hr hle).then_pure _

theorem follows_identifier : Follows k t true true identifier identifier :=
  follows_nameBy rfl

theorem follows_methodName : Follows k t true true methodName methodName :=
  follows_nameBy rfl

theorem follows_forConstruct (hr : FollowsNested k t r r') (hle : fuel ≤ fuel') :
    Follows k t true true (forConstruct r fuel) (forConstruct r' fuel') := by
  refine follows_identifier.bind_solid fun _ => ?_
  refine (follows_expect (by decide)).along.bind_clear fun _ => ?_
  refine ((follows_loopHeader hr).bind_headed (n := true) fun _ => ?_).along
  exact (follows_bodyUntilEnd hr hle).then_pure _

/-! ## Definitions -/

theorem follows_setterName (name : String) :
    Follows k t false true (setterName name) (setterName name) :=
  follows_acceptTouching (by decide) (follows_pure _).along (follows_pure _)

theorem follows_qualifiedTarget (receiver : Expr) :
    Follows k t true true (qualifiedTarget receiver) (qualifiedTarget receiver) := by
  have named : ∀ make : String → Expr, Follows k t true true
      (do let n ← methodName; let n ← setterName n; pure (make n))
      (do let n ← methodName; let n ← setterName n; pure (make n)) :=
    fun make => follows_methodName.bind_solid fun n =>
      ((follows_setterName n).then_pure make).along
  refine follows_accept (by decide) (named _).along ?_
  exact (follows_expect (by decide)).bind_solid fun _ => (named _).along

theorem follows_plainTarget (first : Lexeme) :
    Follows k t false true (plainTarget first) (plainTarget (first.shift k)) := by
  unfold plainTarget
  rw [Lexeme.token_shift]
  split
  · exact follows_fail rfl _
  · cases first.token.methodName? with
    | none => exact follows_fail rfl _
    | some n => exact (follows_setterName n).then_pure _

theorem follows_qualifier {α : Type} {F G : Bool → Parse α}
    (target : ∀ q, Follows k t n c (F q) (G q)) :
    Follows k t n c
      (do
        let qualified ← if ← nextIs .dot then pure true else nextIs .doubleColon
        F qualified)
      (do
        let qualified ← if ← nextIs .dot then pure true else nextIs .doubleColon
        G qualified) :=
  follows_nextIs (target true).along (follows_nextIs (target true).along (target false))

theorem follows_definitionTarget : Follows k t true true definitionTarget definitionTarget := by
  refine follows_lineHere fun line => follows_next (follows_fail rfl line) (fun first _ => ?_)
    fun first hl p hc => ?_
  · refine (follows_qualifier (n := false) fun qualified => ?_).along
    rw [Lexeme.token_shift]
    cases definitionReceiver? first.token with
    | none => exact follows_plainTarget first
    | some receiver =>
      cases qualified with
      | true => exact (follows_qualifiedTarget receiver).loose
      | false => exact follows_plainTarget first
  -- The end of a line is no target, but the error comes behind a look at the next token.
  · obtain ⟨token, line, spaced⟩ := first
    obtain rfl : token = .fixed .newline := hl
    exact (follows_qualifier fun _ => follows_fail rfl line).agree p hc

theorem follows_definitionParams (hle : fuel ≤ fuel') :
    Follows k t false true (definitionParams fuel) (definitionParams fuel') := by
  refine follows_accept (by decide) (follows_parameterList (by decide) hle).along ?_
  refine follows_nextPasses (F := fun bare => if bare then separated identifier fuel else pure [])
    (G := fun bare => if bare then separated identifier fuel' else pure []) (fun _ => rfl) ?_
    (follows_pure [])
  exact (follows_separated follows_identifier hle).along

theorem follows_defConstruct (hr : FollowsNested k t r r') (hle : fuel ≤ fuel') :
    Follows k t true true (defConstruct r fuel) (defConstruct r' fuel') := by
  refine follows_definitionTarget.bind_solid fun target => ?_
  refine (follows_definitionParams hle).along.bind_clear fun params => ?_
  exact ((follows_bodyUntilEnd hr hle).then_pure _).along

theorem follows_constantName : Follows k t true true constantName constantName := by
  refine follows_lineHere fun line => follows_next (follows_fail rfl line) (fun l _ => ?_)
    fun l hl p _ => ?_
  · simp only [Lexeme.token_shift]
    split
    · exact along_ite (fun _ => (follows_pure _).along) fun _ => along_fail _ _
    · exact along_fail _ _
  · simp only [Lexeme.token_shift, hl]
    exact agree_fail _ _

theorem follows_className (hle : fuel ≤ fuel') :
    Follows k t true true (className fuel) (className fuel') := by
  refine follows_constantName.bind_solid fun first => ?_
  refine (follows_iterate (n := false) (fun e => ?_) hle _).along
  exact follows_accept (by decide) (follows_constantName.then_pure _).along (follows_pure none)

theorem follows_superclass (hr : FollowsNested k t r r') :
    Follows k t false true (superclass? r) (superclass? r') :=
  follows_accept (by decide) ((hr .range).then_pure _).along (follows_pure none)

theorem follows_classConstruct (hr : FollowsNested k t r r') (hle : fuel ≤ fuel') :
    Follows k t true true (classConstruct r fuel) (classConstruct r' fuel') := by
  refine (follows_className hle).bind_solid fun n => ?_
  refine (follows_superclass hr).along.bind_clear fun superclass => ?_
  refine (follows_headerEnd.bind_headed (n := true) fun _ => ?_).along
  exact (follows_bodyUntilEnd hr hle).then_pure _

theorem follows_moduleConstruct (hr : FollowsNested k t r r') (hle : fuel ≤ fuel') :
    Follows k t true true (moduleConstruct r fuel) (moduleConstruct r' fuel') := by
  refine follows_constantName.bind_solid fun n => ?_
  refine (follows_headerEnd.bind_headed (n := true) fun _ => ?_).along
  exact (follows_bodyUntilEnd hr hle).then_pure _

/-! ## Terms -/

theorem follows_nameTerm (hr : FollowsNested k t r r') (hle : fuel ≤ fuel') (name : String) :
    Follows k t false true (nameTerm r fuel name) (nameTerm r' fuel' name) := by
  refine follows_acceptTouching (by decide) ?_ (follows_pure _)
  refine (follows_parenArguments hr hle).along.bind_clear fun args => ?_
  exact ((follows_withBlock hr args hle).then_pure _).along

theorem follows_group (hr : FollowsNested k t r r') (hle : fuel ≤ fuel') :
    Follows k t true true (group r fuel) (group r' fuel') := by
  have inner : Follows k t true false
      (do skipSeparators fuel; let e ← r .expression; skipSeparators fuel; pure e)
      (do skipSeparators fuel'; let e ← r' .expression; skipSeparators fuel'; pure e) :=
    (follows_skipSeparators hle).bind_loose fun _ => (hr .expression).bind_solid fun e =>
      ((follows_skipSeparators hle).then_pure fun _ => e).along
  refine (follows_restricted false inner).bind_headed fun e => ?_
  exact (follows_expect (by decide)).then_pure fun _ => e

theorem follows_arrayTerm (hr : FollowsNested k t r r') (hle : fuel ≤ fuel') :
    Follows k t true true (arrayTerm r fuel) (arrayTerm r' fuel') :=
  (follows_restricted false (follows_delimited (by decide) (hr .expression) hle)).then_pure _

theorem follows_hashEntry (hr : FollowsNested k t r r') (hle : fuel ≤ fuel') :
    Follows k t true true (hashEntry r fuel) (hashEntry r' fuel') := by
  refine (hr .expression).bind_solid fun key => ?_
  refine (follows_expect (by decide)).along.bind_clear fun _ => ?_
  exact (follows_skipNewlines hle).along.bind_loose fun _ => (hr .expression).then_pure _

theorem follows_hashTerm (hr : FollowsNested k t r r') (hle : fuel ≤ fuel') :
    Follows k t true true (hashTerm r fuel) (hashTerm r' fuel') :=
  (follows_restricted false
    (follows_delimited (by decide) (follows_hashEntry hr hle) hle)).then_pure _

theorem along_fixedTerm (hr : FollowsNested k t r r') (hle : fuel ≤ fuel') (f : Fixed)
    (line : Nat) :
    Along k t true (fixedTerm r fuel f line) (fixedTerm r' fuel' f (line + k)) := by
  cases f with
  | nilWord | trueWord | falseWord | selfWord => exact (follows_pure _).along
  | lparen => exact (follows_group hr hle).along
  | lbracket => exact (follows_arrayTerm hr hle).along
  | lbrace => exact (follows_hashTerm hr hle).along
  | ifWord => exact (follows_ifConstruct hr hle hle).along
  | whileWord => exact (follows_whileConstruct hr hle).along
  | untilWord => exact (follows_untilConstruct hr hle).along
  | forWord => exact (follows_forConstruct hr hle).along
  | defWord => exact (follows_defConstruct hr hle).along
  | classWord => exact (follows_classConstruct hr hle).along
  | moduleWord => exact (follows_moduleConstruct hr hle).along
  | _ => exact along_fail _ line

theorem follows_term (hr : FollowsNested k t r r') (hle : fuel ≤ fuel') :
    Follows k t true true (term r fuel) (term r' fuel') := by
  refine follows_lineHere fun line => follows_next (follows_fail rfl line) (fun l _ => ?_)
    fun l hl p _ => ?_
  · obtain ⟨token, line, spaced⟩ := l
    cases token with
    | name n => exact (follows_nameTerm hr hle n).along
    | fixed f => exact along_fixedTerm hr hle f line
    | _ => exact (follows_pure _).along
  · obtain ⟨token, line, spaced⟩ := l
    obtain rfl : token = .fixed .newline := hl
    exact agree_fail _ line

/-! ## Suffixes and operators -/

theorem follows_index (hr : FollowsNested k t r r') (hle : fuel ≤ fuel') :
    Follows k t true true (index r fuel) (index r' fuel') := by
  have inner : Follows k t true false
      (do skipNewlines fuel; let e ← r .expression; skipNewlines fuel; pure e)
      (do skipNewlines fuel'; let e ← r' .expression; skipNewlines fuel'; pure e) :=
    (follows_skipNewlines hle).bind_loose fun _ => (hr .expression).bind_solid fun e =>
      ((follows_skipNewlines hle).then_pure fun _ => e).along
  refine (follows_restricted false inner).bind_headed fun e => ?_
  exact (follows_expect (by decide)).then_pure fun _ => e

theorem follows_suffix (hr : FollowsNested k t r r') (hle : fuel ≤ fuel') (e : Expr) :
    Follows k t false true (suffix r fuel e) (suffix r' fuel' e) := by
  refine follows_peek (follows_pure none) fun l => ?_
  refine alongAt_ite (fun dot => ?_) fun _ => alongAt_ite (fun colon => ?_) fun _ =>
    alongAt_ite (fun bracket => ?_) fun _ => (follows_pure none).along.at l
  · refine alongAt_next (ne_newline_of_isFixed (by decide) dot) ?_
    refine follows_methodName.along.bind_clear fun n => ?_
    exact ((follows_callArguments hr hle).then_pure _).along
  · refine alongAt_next (ne_newline_of_isFixed (by decide) colon) ?_
    exact (follows_methodName.then_pure _).along
  · rw [Bool.and_eq_true] at bracket
    refine alongAt_next (ne_newline_of_isFixed (by decide) bracket.1) ?_
    exact ((follows_index hr hle).then_pure _).along

theorem follows_suffixed (hr : FollowsNested k t r r') (hle : fuel ≤ fuel') :
    Follows k t true true (suffixed r fuel) (suffixed r' fuel') :=
  (follows_term hr hle).bind_solid fun e => (follows_iterate (follows_suffix hr hle) hle e).along

theorem follows_unary (hr : FollowsNested k t r r') (hle : fuel ≤ fuel') :
    ∀ {depth depth' : Nat}, depth ≤ depth' →
      Follows k t true true (unary r fuel depth) (unary r' fuel' depth')
  | 0, _, _ => follows_unfinished
  | depth + 1, depth' + 1, hd => by
    have operand := follows_unary hr hle (Nat.le_of_succ_le_succ hd)
    refine follows_accept (by decide) (operand.then_pure _).along ?_
    refine follows_accept (by decide) operand.along ?_
    exact follows_accept (by decide) ((hr .comparison).then_pure _).along (follows_suffixed hr hle)

section
variable {operator? : Token → Option (Expr → Expr → Expr)} {operand operand' : Parse Expr}

theorem follows_operation (ho : operator? (.fixed .newline) = none)
    (h : Follows k t true true operand operand') (left : Expr) :
    Follows k t false true (operation operator? operand left)
      (operation operator? operand' left) := by
  refine follows_peek (follows_pure none) fun l => ?_
  simp only [Option.bind_some, Lexeme.token_shift]
  cases e : operator? l.token with
  | none => exact (follows_pure none).along.at l
  | some combine =>
    refine alongAt_next (fun hl => ?_) (h.then_pure _).along
    rw [hl, ho] at e
    cases e

theorem follows_tier (ho : operator? (.fixed .newline) = none)
    (h : Follows k t true true operand operand') (hle : fuel ≤ fuel') :
    Follows k t true true (tier operator? operand fuel) (tier operator? operand' fuel') :=
  h.bind_solid fun left => (follows_iterate (follows_operation ho h) hle left).along

end

theorem follows_comparison (hr : FollowsNested k t r r') (hle : fuel ≤ fuel') :
    Follows k t true true (comparison r fuel) (comparison r' fuel') :=
  follows_tier rfl (follows_tier rfl (follows_tier rfl (follows_unary hr hle hle) hle) hle) hle

theorem follows_range (hr : FollowsNested k t r r') (hle : fuel ≤ fuel') :
    Follows k t true true (range r fuel) (range r' fuel') := by
  refine (follows_comparison hr hle).bind_solid fun lower => ?_
  refine (follows_accept (n := false) (by decide) ?_ (follows_pure lower)).along
  exact ((follows_comparison hr hle).then_pure _).along

/-! ## Calls without parentheses and assignments -/

theorem follows_commandCall (hr : FollowsNested k t r r') (hle : fuel ≤ fuel') (left : Expr) :
    Follows k t false true (commandCall r fuel left) (commandCall r' fuel' left) := by
  cases left with
  | name n =>
    refine follows_argumentFollows ?_ ?_
    · refine (follows_bareArguments hr hle).along.bind_clear fun args => ?_
      exact ((follows_withBlock hr args hle).then_pure _).along
    · refine (follows_blockTrailer hr hle).bind_soft fun b => ?_
      cases b with
      | none => exact follows_pure _
      | some b => exact follows_pure _
  | _ => exact follows_pure _

theorem along_assignment (hr : FollowsNested k t r r') (hle : fuel ≤ fuel') (target : Expr)
    (line : Nat) :
    Along k t true (assignment r fuel target line) (assignment r' fuel' target (line + k)) := by
  refine (follows_skipNewlines hle).along.bind_loose fun _ => ?_
  refine (hr .expression).bind_solid fun value => ?_
  cases assignmentTo? target value with
  | none => exact along_fail _ line
  | some e => exact (follows_pure e).along

theorem follows_expression (hr : FollowsNested k t r r') (hle : fuel ≤ fuel') :
    Follows k t true true (expression r fuel) (expression r' fuel') := by
  refine follows_lineHere fun line => (follows_range hr hle).bind_solid fun left => ?_
  refine (follows_commandCall hr hle left).along.bind_clear fun left => ?_
  exact (follows_accept (n := false) (by decide) (along_assignment hr hle left line)
    (follows_pure left)).along

end

/-! ## The grammar as a whole -/

section
variable {k : Nat} {t : List Char}

theorem follows_parse : ∀ {fuel fuel' : Nat}, fuel ≤ fuel' →
    FollowsNested k t (parse fuel) (parse fuel')
  | 0, _, _, _ => follows_unfinished
  | fuel + 1, fuel' + 1, hle, nt => by
    have hle := Nat.le_of_succ_le_succ hle
    have nested := follows_parse hle
    cases nt with
    | expression => exact follows_expression nested hle
    | range => exact follows_range nested hle
    | comparison => exact follows_comparison nested hle

end

end ObjectLang.Grammar
