import ObjectLang.Proofs.Parse.Congruence

/-!
# Related runs of the grammar

A relation that the single steps keep holds between two runs of every rule. Where a rule can end
with a block it is soft. Inside brackets, blocks and loop headers the restriction on `do` is set
anew, so that everything else is firm.
-/

namespace ObjectLang.Grammar

open Parse

section
variable {L : Nat → Nat → Prop} {R : Grade → ∀ {α : Type}, Parse α → Parse α → Prop}
  (c : Congruence L R) {g : Grade} {r : Nested} {fuel : Nat} {α : Type} {F G : Bool → Parse α}
include c

/-! ## Headers and definitions -/

theorem headerEnd_congr : R .firm headerEnd headerEnd := by
  refine acceptSeparator_congr c (c.pure ()) (nextIs_congr c (by decide) (c.pure ()) ?_)
  exact c.look rfl rfl (fun _ _ => c.fail _) (fun _ _ _ => c.fail _) fun _ _ _ _ lines =>
    .inl (c.fail _ lines)

/-- A header, and what comes after it. -/
theorem header_congr {x y : Parse α} {t : Fixed} (ht : ¬Halts t) (h : R .firm x y) :
    R .firm
      (do
        if ← accept t then pure () else headerEnd
        x)
      (do
        if ← accept t then pure () else headerEnd
        y) :=
  accept_congr c ht h (c.bind (headerEnd_congr c) fun _ => h)

theorem setterName_congr (n : String) : R .firm (setterName n) (setterName n) :=
  acceptTouching_congr c (by decide) (c.pure _) (c.pure _)

theorem qualifiedTarget_congr (receiver : Expr) :
    R .firm (qualifiedTarget receiver) (qualifiedTarget receiver) := by
  have named : ∀ make : String → Expr, R .firm
      (do let n ← methodName; let n ← setterName n; pure (make n))
      (do let n ← methodName; let n ← setterName n; pure (make n)) :=
    fun make => c.bind (nameBy_congr c _) fun n => then_pure_congr c (setterName_congr c n) make
  refine accept_congr c (by decide) (named _) ?_
  exact c.bind (expect_congr c (by decide)) fun _ => named _

theorem plainTarget_congr {first first' : Lexeme} (h : SameLexeme first first')
    (lines : L first.line first'.line) :
    R .firm (plainTarget first) (plainTarget first') := by
  unfold plainTarget
  rw [h.token]
  split
  · exact c.fail _ lines
  · cases first'.token.methodName? with
    | none => exact c.fail _ lines
    | some n => exact then_pure_congr c (setterName_congr c n) _

theorem definitionTarget_congr : R .firm definitionTarget definitionTarget := by
  have qualifier : ∀ {F G : Bool → Parse Expr}, (∀ b, R .firm (F b) (G b)) → R .firm
      (do
        let qualified ← if ← nextIs .dot then pure true else nextIs .doubleColon
        F qualified)
      (do
        let qualified ← if ← nextIs .dot then pure true else nextIs .doubleColon
        G qualified) := fun h =>
    nextIs_congr c (by decide) (h true) (nextIs_congr c (by decide) (h true) (h false))
  refine c.lineHere (fun _ => fetches_next _) (fun _ => fetches_next _) fun line line' here =>
    c.next (c.fail _ here) fun first first' h lines => ?_
  refine qualifier fun qualified => ?_
  rw [h.token]
  cases definitionReceiver? first'.token with
  | none => exact plainTarget_congr c h lines
  | some receiver =>
    cases qualified with
    | true => exact qualifiedTarget_congr c receiver
    | false => exact plainTarget_congr c h lines

theorem definitionParams_congr : R .firm (definitionParams fuel) (definitionParams fuel) := by
  have named : Ordinary fun l => (plainName? l.token).isSome := by
    refine ⟨fun l l' h => by rw [h.token], ?_⟩
    rintro ⟨_, line, spaced⟩ f (rfl | rfl) rfl <;> rfl
  refine accept_congr c (by decide) (parameterList_congr c (by decide)) ?_
  exact passes_congr c (F := fun bare => if bare then separated identifier fuel else pure [])
    (G := fun bare => if bare then separated identifier fuel else pure []) named
    (separated_congr c (by decide) (nameBy_congr c _)) (c.pure [])

theorem constantName_congr : R .firm constantName constantName := by
  refine c.lineHere (fun _ => fetches_next _) (fun _ => fetches_next _) fun line line' here =>
    c.next (c.fail _ here) fun l l' h lines => ?_
  dsimp only
  rw [h.token]
  split
  · split
    · exact c.pure _
    · exact c.fail _ lines
  · exact c.fail _ lines

theorem className_congr : R .firm (className fuel) (className fuel) :=
  c.bind (constantName_congr c) fun _ => iterate_congr c (fun _ =>
    accept_congr c (by decide) (then_pure_congr c (constantName_congr c) _) (c.pure none)) fuel _

/-! ## Bodies -/

section
variable (hr : ∀ nt, R .soft (r nt) (r nt))
include hr

theorem nested_congr (nt : Nonterminal) : R .free (r nt) (r nt) :=
  c.free (hr nt)

theorem command_congr : R .firm (command r) (command r) :=
  c.bind_breaks (hr .expression) (fun e => then_pure_congr c c.endOfCommand fun _ => e)
    fun _ => breaks_endOfCommand.bind _

theorem bodyCommand_congr {closing : List Fixed} (hc : ∀ f ∈ closing, ¬Halts f) :
    R .firm (bodyCommand? r closing fuel) (bodyCommand? r closing fuel) := by
  have next : ∀ l l' : Lexeme,
      (closing.any l.token.isFixed = closing.any l'.token.isFixed) → R .firm
        (if closing.any l.token.isFixed then pure none else do let e ← command r; pure (some e))
        (if closing.any l'.token.isFixed then pure none
          else do let e ← command r; pure (some e)) := by
    intro l l' h
    rw [h]
    split
    · exact c.pure none
    · exact then_pure_congr c (command_congr c hr) some
  have other : ∀ {l : Lexeme} {f : Fixed}, Halts f → l.token = .fixed f →
      closing.any l.token.isFixed = false := by
    intro l f hf hl
    rw [List.any_eq_false]
    intro t ht
    rw [isFixed_of_halts hf (hc t ht) hl]
    decide
  refine c.bind (skipSeparators_congr c) fun _ => c.look rfl rfl (fun _ _ => c.fail _)
    (fun l l' h _ => next l l' (by rw [h.token])) fun l l' hl hl' _ => .inl (next l l' ?_)
  rw [other (.inl rfl) hl, other (.inr rfl) hl']

theorem commandList_congr {closing : List Fixed} (hc : ∀ f ∈ closing, ¬Halts f) :
    R .firm (commandList r closing fuel) (commandList r closing fuel) :=
  collect_congr c (by decide) (bodyCommand_congr c hr hc) fuel

theorem bodyUntilEnd_congr : R .firm (bodyUntilEnd r fuel) (bodyUntilEnd r fuel) :=
  c.bind (commandList_congr c hr (by decide)) fun _ =>
    c.bind (expect_congr c (by decide)) fun _ => c.pure _

/-! ## Blocks and arguments -/

theorem blockBody_congr {closing : Fixed} (hc : ¬Halts closing) :
    R .firm (blockBody r closing fuel) (blockBody r closing fuel) := by
  refine c.restricted false (c.weaken .free ?_)
  have body : ∀ params, R .firm
      (do
        let body ← commandList r [closing] fuel
        expect closing
        pure (Expr.block params (.ofBody body)))
      (do
        let body ← commandList r [closing] fuel
        expect closing
        pure (Expr.block params (.ofBody body))) := fun params =>
    c.bind (commandList_congr c hr (by simpa using hc)) fun _ =>
      c.bind (expect_congr c fun e => hc (.inl e)) fun _ => c.pure _
  exact accept_congr c (by decide) (c.bind (parameterList_congr c (by decide)) body) (body [])

theorem blockTrailer_congr : R .soft (blockTrailer r fuel) (blockTrailer r fuel) := by
  refine c.blockTrailer (blockBody_congr c hr (by decide)) ?_
  exact accept_congr c (by decide) (then_pure_congr c (blockBody_congr c hr (by decide)) some)
    (c.pure none)

theorem withBlock_congr (args : List Expr) :
    R .soft (withBlock r args fuel) (withBlock r args fuel) :=
  then_pure_congr c (blockTrailer_congr c hr) _

omit c hr in
theorem ordinary_beginsArgument : Ordinary beginsArgument := by
  have halts : ∀ (l : Lexeme) f, Halts f → l.token = .fixed f → beginsArgument l = false := by
    rintro ⟨_, line, spaced⟩ f (rfl | rfl) rfl <;> rfl
  refine ⟨fun _ _ h => h.test_eq _ (fun l => halts l _ (.inl rfl)) fun _ _ token spaced => ?_, halts⟩
  unfold beginsArgument
  rw [token, spaced]

omit hr in
theorem argumentFollows_congr (hyes : R g (F true) (G true)) (hno : R g (F false) (G false)) :
    R g (argumentFollows >>= F) (argumentFollows >>= G) := by
  unfold argumentFollows
  rw [bind_assoc, bind_assoc]
  exact passes_congr c ordinary_beginsArgument hyes hno

theorem bareArguments_congr : R .firm (bareArguments r fuel) (bareArguments r fuel) := by
  refine c.restricted true (c.bind_free (nested_congr c hr .expression) fun first => ?_)
  refine then_pure_congr c (collect_congr c (by decide) (commaThen_congr c ?_) fuel) _
  exact c.bind (skipNewlines_congr c) fun _ => nested_congr c hr .expression

/-! ## Conditions, loops and definitions -/

theorem ifConstruct_congr :
    ∀ depth : Nat, R .firm (ifConstruct r fuel depth) (ifConstruct r fuel depth)
  | 0 => c.unfinished
  | depth + 1 => by
    refine c.bind_breaks (hr .expression) (fun condition => header_congr c (by decide) ?_)
      fun _ => breaks_accept (by decide) (breaks_headerEnd.bind _)
    refine c.bind (commandList_congr c hr (by decide)) fun thenBody => ?_
    refine accept_congr c (by decide) (then_pure_congr c (ifConstruct_congr depth) _) ?_
    refine accept_congr c (by decide) (then_pure_congr c (bodyUntilEnd_congr c hr) _) ?_
    exact c.bind (expect_congr c (by decide)) fun _ => c.pure _

theorem loopHeader_congr : R .firm (loopHeader r) (loopHeader r) :=
  c.bind (c.restricted true (nested_congr c hr .expression)) fun e =>
    header_congr c (by decide) (c.pure e)

theorem forConstruct_congr : R .firm (forConstruct r fuel) (forConstruct r fuel) :=
  c.bind (nameBy_congr c _) fun _ => c.bind (expect_congr c (by decide)) fun _ =>
    c.bind (loopHeader_congr c hr) fun _ => then_pure_congr c (bodyUntilEnd_congr c hr) _

theorem defConstruct_congr : R .firm (defConstruct r fuel) (defConstruct r fuel) :=
  c.bind (definitionTarget_congr c) fun _ => c.bind (definitionParams_congr c) fun _ =>
    then_pure_congr c (bodyUntilEnd_congr c hr) _

theorem superclass_congr : R .soft (superclass? r) (superclass? r) :=
  accept_congr c (by decide) (then_pure_congr c (hr .range) some) (c.pure none)

theorem classConstruct_congr : R .firm (classConstruct r fuel) (classConstruct r fuel) :=
  c.bind (className_congr c) fun _ => c.bind_breaks (superclass_congr c hr)
    (fun _ => c.bind (headerEnd_congr c) fun _ => then_pure_congr c (bodyUntilEnd_congr c hr) _)
    fun _ => breaks_headerEnd.bind _

theorem moduleConstruct_congr : R .firm (moduleConstruct r fuel) (moduleConstruct r fuel) :=
  c.bind (constantName_congr c) fun _ => c.bind (headerEnd_congr c) fun _ =>
    then_pure_congr c (bodyUntilEnd_congr c hr) _

/-! ## Brackets -/

theorem group_congr : R .firm (group r fuel) (group r fuel) := by
  refine c.bind (c.restricted false ?_) fun e =>
    then_pure_congr c (expect_congr c (by decide)) fun _ => e
  refine c.bind (skipSeparators_congr c) fun _ => ?_
  exact c.bind_free (nested_congr c hr .expression) fun e =>
    then_pure_congr c (c.weaken .free (skipSeparators_congr c)) fun _ => e

theorem index_congr : R .firm (index r fuel) (index r fuel) := by
  refine c.bind (c.restricted false ?_) fun e =>
    then_pure_congr c (expect_congr c (by decide)) fun _ => e
  refine c.bind (skipNewlines_congr c) fun _ => ?_
  exact c.bind_free (nested_congr c hr .expression) fun e =>
    then_pure_congr c (c.weaken .free (skipNewlines_congr c)) fun _ => e

theorem hashEntry_congr : R .free (hashEntry r fuel) (hashEntry r fuel) :=
  c.bind_free (nested_congr c hr .expression) fun key =>
    c.bind (expect_congr c (by decide)) fun _ => c.bind (skipNewlines_congr c) fun _ =>
      then_pure_congr c (nested_congr c hr .expression) _

variable (hn : Refuses .newline (r .expression))
include hn

theorem parenArguments_congr : R .firm (parenArguments r fuel) (parenArguments r fuel) :=
  c.restricted false (delimited_congr c (by decide) (nested_congr c hr .expression) hn)

theorem callArguments_congr : R .soft (callArguments r fuel) (callArguments r fuel) := by
  refine acceptTouching_congr c (by decide) ?_ ?_
  · exact c.bind (parenArguments_congr c hr hn) (withBlock_congr c hr)
  · exact argumentFollows_congr c (c.bind (bareArguments_congr c hr) (withBlock_congr c hr))
      (withBlock_congr c hr [])

theorem arrayTerm_congr : R .firm (arrayTerm r fuel) (arrayTerm r fuel) :=
  then_pure_congr c (c.restricted false
    (delimited_congr c (by decide) (nested_congr c hr .expression) hn)) _

theorem hashTerm_congr : R .firm (hashTerm r fuel) (hashTerm r fuel) :=
  then_pure_congr c (c.restricted false
    (delimited_congr c (by decide) (hashEntry_congr c hr) (hn.bind _))) _

/-! ## Terms -/

theorem nameTerm_congr (n : String) : R .soft (nameTerm r fuel n) (nameTerm r fuel n) := by
  refine acceptTouching_congr c (by decide) ?_ (c.pure _)
  exact c.bind (parenArguments_congr c hr hn) fun args =>
    then_pure_congr c (withBlock_congr c hr args) _

theorem fixedTerm_congr (f : Fixed) {line line' : Nat} (lines : L line line') :
    R .firm (fixedTerm r fuel f line) (fixedTerm r fuel f line') := by
  cases f with
  | nilWord | trueWord | falseWord | selfWord => exact c.pure _
  | lparen => exact group_congr c hr
  | lbracket => exact arrayTerm_congr c hr hn
  | lbrace => exact hashTerm_congr c hr hn
  | ifWord => exact ifConstruct_congr c hr fuel
  | whileWord | untilWord =>
    exact c.bind (loopHeader_congr c hr) fun _ => then_pure_congr c (bodyUntilEnd_congr c hr) _
  | forWord => exact forConstruct_congr c hr
  | defWord => exact defConstruct_congr c hr
  | classWord => exact classConstruct_congr c hr
  | moduleWord => exact moduleConstruct_congr c hr
  | _ => exact c.fail _ lines

theorem term_congr : R .soft (term r fuel) (term r fuel) := by
  refine c.lineHere (fun _ => fetches_next _) (fun _ => fetches_next _) fun line line' here =>
    c.next (c.fail _ here) fun l l' h lines => ?_
  dsimp only
  rw [h.token]
  cases l'.token with
  | name n => exact nameTerm_congr c hr hn n
  | fixed f => exact c.soften (fixedTerm_congr c hr hn f lines)
  | _ => exact c.pure _

/-! ## Suffixes and operators -/

omit c hr hn in
theorem ends_barred (e : Expr) {l : Lexeme} (hl : l.token = .fixed .doWord) : Ends e (some l) := by
  obtain ⟨_, line, spaced⟩ := l
  cases hl
  constructor <;> rfl

omit c hr hn in
theorem suffix_barred (e : Expr) (l : Lexeme) (p : Parser) (hp : Barred l p) :
    suffix r fuel e p = .ok none p :=
  suffix_ends hp.faces (ends_barred e hp.token)

theorem suffix_congr (e : Expr) : R .soft (suffix r fuel e) (suffix r fuel e) := by
  refine c.peek (c.pure none) (fun l l' h _ => ?_) fun l l' hl hl' _ => .inl ?_
  · have bracket : (l.token.isFixed .lbracket && !(l.spaced && e.isName)) =
        (l'.token.isFixed .lbracket && !(l'.spaced && e.isName)) :=
      h.test_eq (fun l => l.token.isFixed .lbracket && !(l.spaced && e.isName))
        (fun _ newline => by rw [newline]; rfl) fun _ _ token spaced => by rw [token, spaced]
    dsimp only
    rw [bracket, h.token]
    split
    · refine c.next ?_ fun _ _ _ _ => ?_ <;>
      exact c.bind (nameBy_congr c _) fun n => then_pure_congr c (callArguments_congr c hr hn) _
    split
    · refine c.next ?_ fun _ _ _ _ => ?_ <;>
      exact then_pure_congr c (c.weaken .soft (nameBy_congr c _)) _
    split
    · refine c.next ?_ fun _ _ _ _ => ?_ <;>
      exact then_pure_congr c (c.weaken .soft (index_congr c hr)) _
    · exact c.pure none
  · dsimp only
    rw [hl, hl']
    exact c.pure none

theorem suffixed_congr : R .soft (suffixed r fuel) (suffixed r fuel) :=
  c.bind_rests (term_congr c hr hn)
    (fun e => iterate_congr_soft c (suffix_congr c hr hn) suffix_barred fuel e)
    fun e => rests_iterate suffix_barred fuel e

theorem unary_congr : ∀ depth : Nat, R .soft (unary r fuel depth) (unary r fuel depth)
  | 0 => c.unfinished
  | depth + 1 => by
    refine accept_congr c (by decide) (then_pure_congr c (unary_congr depth) _) ?_
    refine accept_congr c (by decide) (unary_congr depth) ?_
    exact accept_congr c (by decide) (then_pure_congr c (hr .comparison) _) (suffixed_congr c hr hn)

end

section
variable {operator? : Token → Option (Expr → Expr → Expr)} {operand : Parse Expr}

omit c in
theorem operation_barred (hd : operator? (.fixed .doWord) = none) (e : Expr) (l : Lexeme)
    (p : Parser) (hp : Barred l p) : operation operator? operand e p = .ok none p := by
  refine operation_ends hp.faces ?_
  rw [Option.bind_some, hp.token, hd]

theorem operation_congr (hh : ∀ f, Halts f → operator? (.fixed f) = none)
    (h : R .soft operand operand) (e : Expr) :
    R .soft (operation operator? operand e) (operation operator? operand e) := by
  refine c.peek (c.pure none) (fun l l' same _ => ?_) fun l l' hl hl' _ => .inl ?_
  · rw [Option.bind_some, Option.bind_some, same.token]
    cases operator? l'.token with
    | none => exact c.pure none
    | some combine =>
      refine c.next ?_ fun _ _ _ _ => ?_ <;> exact then_pure_congr c h _
  · rw [Option.bind_some, Option.bind_some, hl, hl', hh _ (.inl rfl), hh _ (.inr rfl)]
    exact c.pure none

theorem tier_congr (hh : ∀ f, Halts f → operator? (.fixed f) = none)
    (hd : operator? (.fixed .doWord) = none) (h : R .soft operand operand) :
    R .soft (tier operator? operand fuel) (tier operator? operand fuel) :=
  c.bind_rests h
    (fun e => iterate_congr_soft c (operation_congr c hh h) (operation_barred hd) fuel e)
    fun e => rests_iterate (operation_barred hd) fuel e

end

section
variable (hr : ∀ nt, R .soft (r nt) (r nt)) (hn : Refuses .newline (r .expression))
include hr hn

theorem comparison_congr : R .soft (comparison r fuel) (comparison r fuel) := by
  refine tier_congr c ?_ rfl (tier_congr c ?_ rfl (tier_congr c ?_ rfl (unary_congr c hr hn fuel)))
  all_goals rintro f (rfl | rfl) <;> rfl

theorem range_congr : R .soft (range r fuel) (range r fuel) := by
  refine c.bind_rests (comparison_congr c hr hn) (fun lower => ?_) fun lower => ?_
  · exact accept_congr c (by decide) (then_pure_congr c (comparison_congr c hr hn) _) (c.pure lower)
  · exact rests_accept (by decide) (rests_pure lower)

/-! ## Calls without parentheses and assignments -/

omit c hr hn in
theorem rests_blockTrailer : Rests (blockTrailer r fuel) := by
  intro l p hp
  refine .inl ⟨none, ?_⟩
  have allowed : doAllowed p = .ok false p := by
    rw [doAllowed, hp.noDo]
    rfl
  exact (bind_ok allowed).trans (hp.passes (by decide) _)

omit hn in
theorem blockAfterName_congr (n : String) (e : Expr) : R .soft
    (blockTrailer r fuel >>= fun b => match b with
      | some b => pure (.call n [b])
      | none => pure e)
    (blockTrailer r fuel >>= fun b => match b with
      | some b => pure (.call n [b])
      | none => pure e) := by
  refine c.bind_rests (blockTrailer_congr c hr) (fun b => ?_) fun b => ?_
  · cases b <;> exact c.pure _
  · cases b <;> exact rests_pure _

omit hn in
theorem commandCall_congr (e : Expr) : R .soft (commandCall r fuel e) (commandCall r fuel e) := by
  cases e with
  | name n =>
    refine argumentFollows_congr c ?_ (blockAfterName_congr c hr n _)
    exact c.bind (bareArguments_congr c hr) fun args =>
      then_pure_congr c (withBlock_congr c hr args) _
  | _ => exact c.pure _

omit c hr hn in
theorem rests_commandCall (e : Expr) : Rests (commandCall r fuel e) := by
  cases e with
  | name n =>
    change Rests (argumentFollows >>= _)
    unfold argumentFollows
    rw [bind_assoc]
    refine rests_peek fun l hl => ?_
    obtain ⟨_, line, spaced⟩ := l
    cases hl
    refine rests_blockTrailer.bind fun b => ?_
    cases b <;> exact rests_pure _
  | _ => exact rests_pure _

omit hn in
theorem assignment_congr (target : Expr) {line line' : Nat} (lines : L line line') :
    R .soft (assignment r fuel target line) (assignment r fuel target line') := by
  have made : (∃ make : Expr → Expr, ∀ value, assignmentTo? target value = some (make value)) ∨
      ∀ value, assignmentTo? target value = none := by
    unfold assignmentTo?
    split
    all_goals first | exact .inl ⟨_, fun _ => rfl⟩ | exact .inr fun _ => rfl
  refine c.bind (skipNewlines_congr c) fun _ => ?_
  rcases made with ⟨make, h⟩ | h
  · simp only [h]
    exact then_pure_congr c (hr .expression) make
  · simp only [h]
    exact c.fail_after _ (hr .expression) lines

omit c hr hn in
theorem fetches_range (r : Nested) (fuel : Nat) : Fetches (range r fuel) := by
  have unary : Fetches (unary r fuel fuel) := by
    cases fuel with
    | zero => exact fetches_unfinished
    | succ fuel => exact fetches_accept _ _
  exact (((unary.bind _).bind _).bind _).bind _

theorem expression_congr : R .soft (expression r fuel) (expression r fuel) := by
  have fetches : Fetches (range r fuel) := fetches_range r fuel
  refine c.lineHere (fun _ => fetches.bind _) (fun _ => fetches.bind _) fun line line' lines =>
    c.bind_rests (range_congr c hr hn) (fun e => ?_) fun e => ?_
  · refine c.bind_rests (commandCall_congr c hr e) (fun e => ?_) fun e => ?_
    · exact accept_congr c (by decide) (assignment_congr c hr e lines) (c.pure e)
    · exact rests_accept (by decide) (rests_pure e)
  · exact (rests_commandCall e).bind fun e => rests_accept (by decide) (rests_pure e)

end

/-! ## The grammar as a whole -/

theorem parse_congr : ∀ (fuel : Nat) (nt : Nonterminal), R .soft (parse fuel nt) (parse fuel nt)
  | 0, _ => c.unfinished
  | fuel + 1, nt => by
    have nested := parse_congr fuel
    have refuses := refuses_parse (.inl rfl) fuel
    cases nt with
    | expression => exact expression_congr c nested refuses
    | range => exact range_congr c nested refuses
    | comparison => exact comparison_congr c nested refuses

theorem construct_congr (fuel : Nat) (f : Fixed) {line line' : Nat} (lines : L line line') :
    R .firm (fixedTerm (parse fuel) fuel f line) (fixedTerm (parse fuel) fuel f line') :=
  fixedTerm_congr c (parse_congr c fuel) (refuses_parse (.inl rfl) fuel) f lines

theorem nextCommand_congr (fuel : Nat) : R .firm (command? fuel) (command? fuel) := by
  have command := then_pure_congr c (command_congr c (parse_congr c fuel)) some
  refine c.bind (skipSeparators_congr c) fun _ => c.peek (c.pure none) (fun _ _ _ _ => command)
    fun _ _ _ _ _ => .inl command

theorem nextExpression_congr (fuel : Nat) : R .soft (expression? fuel) (expression? fuel) := by
  have expression := then_pure_congr c (parse_congr c fuel .expression) some
  exact c.peek (c.pure none) (fun _ _ _ _ => expression) fun _ _ _ _ _ => .inl expression

theorem program_congr (fuel : Nat) : R .firm (program fuel) (program fuel) :=
  collect_congr c (by decide) (nextCommand_congr c fuel) fuel

end

end ObjectLang.Grammar
