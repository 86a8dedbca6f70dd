import Mathlib
import ObjectLang.Grammar
import ObjectLang.Proofs.Parse.Placed
import ObjectLang.Proofs.Parse.Produces
import ObjectLang.Proofs.Parse.Program

/-!
# Parsed trees are well placed

Each rule of the grammar gives trees whose nodes are all well placed, if the rules for nested
expressions do.
-/

namespace ObjectLang

namespace Grammar

open Parse ObjectLang.Expr

section
variable {r : Nested}

/-- The rules for nested expressions give operands. -/
abbrev NestedProduces (r : Nested) : Prop :=
  ∀ nt, Produces Operand (r nt)

/-! ## Commands and bodies -/

theorem steps_endOfCommand : Steps endOfCommand := by
  refine produces_next.bind fun l hl => ?_
  cases l with
  | none => exact produces_pure trivial
  | some l =>
    exact produces_ite (steps_push (hl l rfl)) (produces_ite (produces_pure trivial)
      (produces_fail _ _))

theorem steps_headerEnd : Steps headerEnd := by
  refine steps_acceptSeparator.then fun _ => produces_ite (produces_pure trivial) <|
    (steps_nextIs _).then fun _ => produces_ite (produces_pure trivial) ?_
  refine produces_peek.steps.then fun l => ?_
  cases l with
  | none => exact steps_lineHere.then fun line => produces_fail _ line
  | some l => exact produces_fail _ _

/-- A keyword or the end of a line behind a header. -/
theorem produces_header {α : Type} {P : α → Prop} (f : Fixed) {x : Parse α} (h : Produces P x) :
    Produces P (do
      if ← accept f then pure () else headerEnd
      x) := by
  refine (steps_accept f).then fun b => ?_
  cases b with
  | true => exact h
  | false => exact steps_headerEnd.then fun _ => h

variable (hr : NestedProduces r) (fuel : Nat)
include hr

theorem produces_command : Produces Operand (command r) :=
  (hr .expression).bind fun _ he => steps_endOfCommand.then fun _ => produces_pure he

theorem produces_bodyCommand (closing : List Fixed) :
    Produces (fun b => ∀ e ∈ b, e.Operand) (bodyCommand? r closing fuel) := by
  refine (steps_skipSeparators fuel).then fun _ => produces_peek.steps.then fun l => ?_
  cases l with
  | none => exact steps_lineHere.then fun line => produces_fail _ line
  | some l =>
    exact produces_ite (produces_pure nofun)
      ((produces_command hr).map fun _ he _ hx => Option.some.inj hx ▸ he)

theorem produces_commandList (closing : List Fixed) :
    Produces (fun es => ∀ e ∈ es, e.Operand) (commandList r closing fuel) :=
  produces_collect (produces_bodyCommand hr fuel closing) fuel

theorem produces_bodyUntilEnd : Produces Body (bodyUntilEnd r fuel) :=
  (produces_commandList hr fuel _).bind fun _ hb => (steps_expect _).then fun _ =>
    produces_pure (body_ofBody hb)

/-! ## Blocks and arguments -/

theorem produces_blockBody (closing : Fixed) : Produces Attached (blockBody r closing fuel) := by
  have body : ∀ params, (∀ n ∈ params, IsName n) → Produces Attached (do
      let body ← commandList r [closing] fuel
      expect closing
      pure (.block params (.ofBody body))) := fun params hp =>
    (produces_commandList hr fuel _).bind fun _ hb => (steps_expect _).then fun _ =>
      produces_pure (attached_block hp (body_ofBody hb))
  refine produces_restricted false ((steps_accept .pipe).then fun b => ?_)
  cases b with
  | true => exact (produces_parameterList _ fuel).bind body
  | false => exact body [] nofun

theorem produces_blockTrailer :
    Produces (fun b => ∀ x ∈ b, x.Attached) (blockTrailer r fuel) := by
  have block : ∀ closing : Fixed, Produces (fun b => ∀ x ∈ b, x.Attached)
      (do let b ← blockBody r closing fuel; pure (some b)) := fun closing =>
    (produces_blockBody hr fuel closing).map fun _ hb _ hx => Option.some.inj hx ▸ hb
  have brace : Produces (fun b => ∀ x ∈ b, x.Attached)
      (do
        if ← accept .lbrace then let b ← blockBody r .rbrace fuel; pure (some b)
        else pure none) :=
    (steps_accept .lbrace).then fun _ => produces_ite (block .rbrace) (produces_pure nofun)
  refine steps_doAllowed.then fun allowed => ?_
  cases allowed with
  | false => exact brace
  | true =>
    refine (steps_accept .doWord).then fun b => ?_
    cases b with
    | true => exact block .endWord
    | false => exact brace

theorem produces_parenArguments :
    Produces (fun es => ∀ e ∈ es, e.Operand) (parenArguments r fuel) :=
  produces_restricted false (produces_delimited _ (hr .expression) fuel)

theorem produces_bareArguments :
    Produces (fun es => ∀ e ∈ es, e.Operand) (bareArguments r fuel) := by
  refine produces_restricted true ((hr .expression).bind fun first hf => ?_)
  refine (produces_collect (produces_commaThen ?_) fuel).map fun _ hs =>
    List.forall_mem_cons.mpr ⟨hf, hs⟩
  exact (steps_skipNewlines fuel).then fun _ => hr .expression

theorem produces_withBlock {args : List Expr} (ha : ∀ a ∈ args, a.Operand) :
    Produces Arguments (withBlock r args fuel) :=
  (produces_blockTrailer hr fuel).map fun _ hb => arguments_append ha hb

theorem produces_callArguments : Produces Arguments (callArguments r fuel) := by
  refine (steps_acceptTouching _).then fun _ => produces_ite ?_ ?_
  · exact (produces_parenArguments hr fuel).bind fun _ ha => produces_withBlock hr fuel ha
  refine (steps_nextPasses _).then fun _ => produces_ite ?_ ?_
  · exact (produces_bareArguments hr fuel).bind fun _ ha => produces_withBlock hr fuel ha
  · exact produces_withBlock hr fuel nofun

/-! ## Conditions and loops -/

theorem produces_ifConstruct : ∀ depth, Produces Operand (ifConstruct r fuel depth)
  | 0 => produces_unfinished
  | depth + 1 => by
    have ifElse : ∀ {c b : Expr} {other : Option Expr}, c.Operand → b.Body →
        (∀ x ∈ other, x.Body) → (Expr.ifElse c b other).Operand := by
      intro c b other hc hb ho
      refine operand_of trivial ⟨hc.place, hb.place, fun x hx => (ho x hx).place⟩ ?_
      exact List.forall_mem_cons.mpr ⟨hc.sound, List.forall_mem_cons.mpr ⟨hb.sound, fun x hx =>
        (ho x (Option.mem_toList.mp hx)).sound⟩⟩
    refine (hr .expression).bind fun c hc => produces_header _ ?_
    refine (produces_commandList hr fuel _).bind fun b hb => ?_
    have body := body_ofBody hb
    refine (steps_accept _).then fun _ => produces_ite ?_ ((steps_accept _).then fun _ =>
      produces_ite ?_ ((steps_expect _).then fun _ => produces_pure (ifElse hc body nofun)))
    · exact (produces_ifConstruct depth).map fun _ ho =>
        ifElse hc body fun _ hx => Option.some.inj hx ▸ ho.body
    · exact (produces_bodyUntilEnd hr fuel).map fun _ ho =>
        ifElse hc body fun _ hx => Option.some.inj hx ▸ ho

omit fuel in
theorem produces_loopHeader : Produces Operand (loopHeader r) :=
  (produces_restricted true (hr .expression)).bind fun _ he => produces_header _ (produces_pure he)

theorem produces_whileConstruct : Produces Operand (whileConstruct r fuel) :=
  (produces_loopHeader hr).bind fun _ hc => (produces_bodyUntilEnd hr fuel).map fun _ hb =>
    operand_of trivial ⟨hc.place, hb.place⟩
      (List.forall_mem_cons.mpr ⟨hc.sound, List.forall_mem_singleton.mpr hb.sound⟩)

theorem produces_untilConstruct : Produces Operand (untilConstruct r fuel) :=
  (produces_loopHeader hr).bind fun _ hc => (produces_bodyUntilEnd hr fuel).map fun _ hb =>
    operand_of trivial ⟨hc.place, hb.place⟩
      (List.forall_mem_cons.mpr ⟨hc.sound, List.forall_mem_singleton.mpr hb.sound⟩)

theorem produces_forConstruct : Produces Operand (forConstruct r fuel) :=
  produces_identifier.bind fun _ hn => (steps_expect _).then fun _ =>
    (produces_loopHeader hr).bind fun _ hc => (produces_bodyUntilEnd hr fuel).map fun _ hb =>
      operand_of trivial ⟨hn, hc.place, hb.place⟩
        (List.forall_mem_cons.mpr ⟨hc.sound, List.forall_mem_singleton.mpr hb.sound⟩)

end

/-! ## Definitions -/

theorem produces_setterName (n : String) :
    Produces (fun m => m = n ∨ m = n ++ "=") (setterName n) :=
  (steps_acceptTouching _).then fun _ =>
    produces_ite (produces_pure (.inr rfl)) (produces_pure (.inl rfl))

theorem produces_qualifiedTarget {receiver : Expr}
    (dot : ∀ n, IsDefName n → IsDefTarget (.dot receiver n []))
    (colon : ∀ n, IsDefName n → IsDefTarget (.doubleColon receiver n)) :
    Produces IsDefTarget (qualifiedTarget receiver) := by
  have named : ∀ {make : String → Expr}, (∀ n, IsDefName n → IsDefTarget (make n)) →
      Produces IsDefTarget (do let n ← methodName; let n ← setterName n; pure (make n)) :=
    fun h => produces_methodName.bind fun n hn => (produces_setterName n).map
      fun _ hm => h _ ⟨n, hn, hm⟩
  refine (steps_accept _).then fun doubleColon => ?_
  cases doubleColon with
  | true => exact named colon
  | false => exact (steps_expect _).then fun _ => named dot

/-- Only the keyword can be the name `self`, and as a name that stands alone it is refused. -/
theorem eq_self {t : Token} (h : t.Written) (hn : t.methodName? = some "self") :
    t = .fixed .selfWord := by
  cases t with
  | name s =>
    cases hn
    exact absurd h.name.2 (by decide)
  | fixed f => cases f <;> first | rfl | exact absurd hn (by decide)
  | _ => cases hn

theorem produces_plainTarget {first : Lexeme} (h : first.token.Written) :
    Produces IsDefTarget (plainTarget first) := by
  unfold plainTarget
  split
  · exact produces_fail _ _
  · next no =>
    cases hn : first.token.methodName? with
    | none => exact produces_fail _ _
    | some n =>
      refine (produces_setterName n).map fun _ hm => .name ⟨n, h.methodName hn, fun e => ?_, hm⟩
      rw [e] at hn
      exact no (eq_self h hn)

theorem produces_qualifier {α : Type} {P : α → Prop} {g : Bool → Parse α}
    (target : ∀ q, Produces P (g q)) :
    Produces P (do
      let qualified ← if ← nextIs .dot then pure true else nextIs .doubleColon
      g qualified) := by
  refine (steps_nextIs .dot).then fun dot => ?_
  cases dot with
  | true => exact target true
  | false => exact (steps_nextIs .doubleColon).then target

theorem produces_definitionTarget : Produces IsDefTarget definitionTarget := by
  refine steps_lineHere.then fun line => produces_next.bind fun first hf => ?_
  cases first with
  | none => exact produces_fail _ line
  | some first =>
    have written := hf first rfl
    refine produces_qualifier fun qualified => ?_
    cases hd : definitionReceiver? first.token with
    | none => exact produces_plainTarget written
    | some receiver =>
      refine produces_ite ?_ (produces_plainTarget written)
      obtain ⟨token, line, spaced⟩ := first
      cases token with
      | name m =>
        cases hd
        exact produces_qualifiedTarget (fun _ => .nameDot written.name)
          fun _ => .nameColon written.name
      | fixed f =>
        cases f with
        | selfWord =>
          cases hd
          exact produces_qualifiedTarget (fun _ => .selfDot) fun _ => .selfColon
        | _ => cases hd
      | _ => cases hd

theorem produces_definitionParams (fuel : Nat) :
    Produces (fun l => ∀ n ∈ l, IsName n) (definitionParams fuel) :=
  (steps_accept _).then fun _ => produces_ite (produces_parameterList _ fuel) <|
    produces_peek.steps.then fun _ => produces_ite (produces_separated produces_identifier fuel)
      (produces_pure nofun)

theorem produces_constantName :
    Produces (fun n => IsName n ∧ isConstant n = true) constantName := by
  refine steps_lineHere.then fun line => produces_next.bind fun l hl => ?_
  cases l with
  | none => exact produces_fail _ line
  | some l =>
    have written := hl l rfl
    obtain ⟨token, line, spaced⟩ := l
    cases token with
    | name n =>
      simp only
      split
      · next constant => exact produces_pure ⟨written.name, constant⟩
      · exact produces_fail _ _
    | _ => exact produces_fail _ _

theorem produces_className (fuel : Nat) : Produces IsClassName (className fuel) := by
  refine produces_constantName.bind fun first hf => produces_iterate (fun e he => ?_) fuel
    (.one hf.1 hf.2)
  exact (steps_accept _).then fun _ => produces_ite
    (produces_constantName.map fun _ hn _ hx => Option.some.inj hx ▸ .more he hn.1 hn.2)
    (produces_pure nofun)

/-- A target is sound below: its receiver is `self` or a name. -/
theorem sound_defTarget {t : Expr} (h : IsDefTarget t) : t.Sound := by
  have args : AreArguments [] := ⟨[], none, rfl, nofun, nofun⟩
  have selfRef : Expr.selfRef.Operand := operand_leaf trivial trivial rfl
  refine sound_iff.mpr ?_
  cases h with
  | name _ => exact ⟨trivial, nofun⟩
  | selfDot _ => exact ⟨⟨trivial, args⟩, List.forall_mem_singleton.mpr selfRef.sound⟩
  | nameDot hm _ => exact ⟨⟨hm, args⟩, List.forall_mem_singleton.mpr (operand_name hm).sound⟩
  | selfColon _ => exact ⟨trivial, List.forall_mem_singleton.mpr selfRef.sound⟩
  | nameColon hm _ => exact ⟨hm, List.forall_mem_singleton.mpr (operand_name hm).sound⟩

theorem operand_className {e : Expr} (h : IsClassName e) : e.Operand := by
  induction h with
  | one hn _ => exact operand_name hn
  | more _ _ _ ih => exact operand_of trivial ih.place (List.forall_mem_singleton.mpr ih.sound)

section
variable {r : Nested} (hr : NestedProduces r) (fuel : Nat)
include hr

theorem produces_defConstruct : Produces Operand (defConstruct r fuel) :=
  produces_definitionTarget.bind fun _ ht => (produces_definitionParams fuel).bind fun _ hp =>
    (produces_bodyUntilEnd hr fuel).map fun _ hb => operand_of trivial ⟨ht, hp, hb.place⟩
      (List.forall_mem_cons.mpr ⟨sound_defTarget ht, List.forall_mem_singleton.mpr hb.sound⟩)

omit fuel in
theorem produces_superclass : Produces (fun b => ∀ e ∈ b, e.Operand) (superclass? r) :=
  (steps_accept _).then fun _ => produces_ite
    ((hr .range).map fun _ he _ hx => Option.some.inj hx ▸ he) (produces_pure nofun)

theorem produces_classConstruct : Produces Operand (classConstruct r fuel) :=
  (produces_className fuel).bind fun _ hn => (produces_superclass hr).bind fun _ hs =>
    steps_headerEnd.then fun _ => (produces_bodyUntilEnd hr fuel).map fun _ hb =>
      operand_of trivial ⟨hn, fun x hx => (hs x hx).place, hb.place⟩
        (List.forall_mem_cons.mpr ⟨(operand_className hn).sound, List.forall_mem_cons.mpr
          ⟨hb.sound, fun x hx => (hs x (Option.mem_toList.mp hx)).sound⟩⟩)

theorem produces_moduleConstruct : Produces Operand (moduleConstruct r fuel) :=
  produces_constantName.bind fun _ hn => steps_headerEnd.then fun _ =>
    (produces_bodyUntilEnd hr fuel).map fun _ hb => operand_of trivial ⟨hn.1, hn.2, hb.place⟩
      (List.forall_mem_singleton.mpr hb.sound)

/-! ## Terms -/

omit hr in
theorem operand_call {n : String} {args : List Expr} (hn : IsName n) (ha : Arguments args) :
    (Expr.call n args).Operand :=
  operand_of trivial ⟨hn, ha.place⟩ ha.sound

theorem produces_nameTerm {n : String} (hn : IsName n) : Produces Operand (nameTerm r fuel n) :=
  (steps_acceptTouching _).then fun _ => produces_ite
    ((produces_parenArguments hr fuel).bind fun _ ha => (produces_withBlock hr fuel ha).map
      fun _ ha => operand_call hn ha)
    (produces_pure (operand_name hn))

theorem produces_group : Produces Operand (group r fuel) := by
  have inner : Produces Operand
      (do skipSeparators fuel; let e ← r .expression; skipSeparators fuel; pure e) :=
    (steps_skipSeparators fuel).then fun _ => (hr .expression).bind fun _ he =>
      (steps_skipSeparators fuel).then fun _ => produces_pure he
  exact (produces_restricted false inner).bind fun _ he => (steps_expect _).then fun _ =>
    produces_pure he

theorem produces_arrayTerm : Produces Operand (arrayTerm r fuel) :=
  (produces_restricted false (produces_delimited _ (hr .expression) fuel)).map fun _ he =>
    operand_of trivial (fun x hx => (he x hx).place) fun x hx => (he x hx).sound

theorem produces_hashEntry :
    Produces (fun x => x.1.Operand ∧ x.2.Operand) (hashEntry r fuel) :=
  (hr .expression).bind fun _ hk => (steps_expect _).then fun _ =>
    (steps_skipNewlines fuel).then fun _ => (hr .expression).map fun _ hv => ⟨hk, hv⟩

theorem produces_hashTerm : Produces Operand (hashTerm r fuel) := by
  refine (produces_restricted false (produces_delimited _ (produces_hashEntry hr fuel) fuel)).map
    fun _ he => operand_of trivial (fun x hx => ⟨(he x hx).1.place, (he x hx).2.place⟩) ?_
  intro c hc
  obtain ⟨x, hx, hc⟩ := List.mem_flatMap.mp hc
  rcases List.mem_pair.mp hc with rfl | rfl
  · exact (he x hx).1.sound
  · exact (he x hx).2.sound

theorem produces_fixedTerm (f : Fixed) (line : Nat) :
    Produces Operand (fixedTerm r fuel f line) := by
  cases f with
  | nilWord | trueWord | falseWord | selfWord => exact produces_pure (operand_leaf trivial trivial rfl)
  | lparen => exact produces_group hr fuel
  | lbracket => exact produces_arrayTerm hr fuel
  | lbrace => exact produces_hashTerm hr fuel
  | ifWord => exact produces_ifConstruct hr fuel fuel
  | whileWord => exact produces_whileConstruct hr fuel
  | untilWord => exact produces_untilConstruct hr fuel
  | forWord => exact produces_forConstruct hr fuel
  | defWord => exact produces_defConstruct hr fuel
  | classWord => exact produces_classConstruct hr fuel
  | moduleWord => exact produces_moduleConstruct hr fuel
  | _ => exact produces_fail _ line

theorem produces_term : Produces Operand (term r fuel) := by
  refine steps_lineHere.then fun line => produces_next.bind fun l hl => ?_
  cases l with
  | none => exact produces_fail _ line
  | some l =>
    have written := hl l rfl
    obtain ⟨token, line, spaced⟩ := l
    cases token with
    | name n => exact produces_nameTerm hr fuel written.name
    | fixed f => exact produces_fixedTerm hr fuel f line
    | integer n => exact produces_pure (operand_leaf trivial written.integer rfl)
    | _ => exact produces_pure (operand_leaf trivial trivial rfl)

/-! ## Suffixes and operators -/

theorem produces_index : Produces Operand (index r fuel) := by
  have inner : Produces Operand
      (do skipNewlines fuel; let e ← r .expression; skipNewlines fuel; pure e) :=
    (steps_skipNewlines fuel).then fun _ => (hr .expression).bind fun _ he =>
      (steps_skipNewlines fuel).then fun _ => produces_pure he
  exact (produces_restricted false inner).bind fun _ he => (steps_expect _).then fun _ =>
    produces_pure he

omit hr in
theorem operand_pair {e a b : Expr} (place : e.IsOperand) (here : e.WellPlaced)
    (ha : a.Operand) (hb : b.Operand) (two : e.children = [a, b]) : e.Operand := by
  refine operand_of place here ?_
  rw [two]
  exact List.forall_mem_cons.mpr ⟨ha.sound, List.forall_mem_singleton.mpr hb.sound⟩

theorem produces_suffix {e : Expr} (he : e.Operand) :
    Produces (fun b => ∀ x ∈ b, x.Operand) (suffix r fuel e) := by
  refine produces_peek.steps.then fun l => ?_
  cases l with
  | none => exact produces_pure nofun
  | some l =>
    refine produces_ite ?_ (produces_ite ?_ (produces_ite ?_ (produces_pure nofun)))
    · refine produces_next.steps.then fun _ => produces_methodName.bind fun n _ => ?_
      exact (produces_callArguments hr fuel).map fun _ ha _ hx => Option.some.inj hx ▸
        operand_of trivial ⟨he.place, ha.place⟩ (List.forall_mem_cons.mpr ⟨he.sound, ha.sound⟩)
    · exact produces_next.steps.then fun _ => produces_methodName.map fun n _ _ hx =>
        Option.some.inj hx ▸ operand_of trivial he.place (List.forall_mem_singleton.mpr he.sound)
    · exact produces_next.steps.then fun _ => (produces_index hr fuel).map fun _ hi _ hx =>
        Option.some.inj hx ▸ operand_pair trivial ⟨he.place, hi.place⟩ he hi rfl

theorem produces_suffixed : Produces Operand (suffixed r fuel) :=
  (produces_term hr fuel).bind fun _ he =>
    produces_iterate (fun _ he => produces_suffix hr fuel he) fuel he

theorem produces_unary : ∀ depth, Produces Operand (unary r fuel depth)
  | 0 => produces_unfinished
  | depth + 1 =>
    (steps_accept .minus).then fun _ => produces_ite
      ((produces_unary depth).map fun _ he =>
        operand_of trivial he.place (List.forall_mem_singleton.mpr he.sound)) <|
    (steps_accept .plus).then fun _ => produces_ite (produces_unary depth) <|
    (steps_accept .bang).then fun _ => produces_ite
      ((hr .comparison).map fun _ he =>
        operand_of trivial he.place (List.forall_mem_singleton.mpr he.sound))
      (produces_suffixed hr fuel)

end

section
variable {operator? : Token → Option (Expr → Expr → Expr)} {operand : Parse Expr}

theorem produces_tier (ho : ∀ t combine, operator? t = some combine → ∀ {l r : Expr}, l.Operand →
    r.Operand → (combine l r).Operand) (h : Produces Operand operand) (fuel : Nat) :
    Produces Operand (tier operator? operand fuel) := by
  refine h.bind fun left hl => produces_iterate (fun left hl => ?_) fuel hl
  refine produces_peek.steps.then fun l => ?_
  cases hc : l.bind (operator? ·.token) with
  | none => exact produces_pure nofun
  | some combine =>
    obtain ⟨l, _, hc⟩ := Option.bind_eq_some_iff.mp hc
    exact produces_next.steps.then fun _ => h.map fun _ hr _ hx => Option.some.inj hx ▸
      ho l.token combine hc hl hr

theorem operand_multiplicative (t : Token) (combine : Expr → Expr → Expr)
    (h : multiplicativeOp? t = some combine) {l r : Expr} (hl : l.Operand) (hr : r.Operand) :
    (combine l r).Operand := by
  unfold multiplicativeOp? at h
  split at h
  all_goals first | (cases h; exact operand_pair trivial ⟨hl.place, hr.place⟩ hl hr rfl) | cases h

theorem operand_additive (t : Token) (combine : Expr → Expr → Expr)
    (h : additiveOp? t = some combine) {l r : Expr} (hl : l.Operand) (hr : r.Operand) :
    (combine l r).Operand := by
  unfold additiveOp? at h
  split at h
  all_goals first | (cases h; exact operand_pair trivial ⟨hl.place, hr.place⟩ hl hr rfl) | cases h

theorem operand_compare (t : Token) (combine : Expr → Expr → Expr)
    (h : compareOp? t = some combine) {l r : Expr} (hl : l.Operand) (hr : r.Operand) :
    (combine l r).Operand := by
  unfold compareOp? at h
  split at h
  all_goals first | (cases h; exact operand_pair trivial ⟨hl.place, hr.place⟩ hl hr rfl) | cases h

end

section
variable {r : Nested} (hr : NestedProduces r) (fuel : Nat)
include hr

theorem produces_comparison : Produces Operand (comparison r fuel) :=
  produces_tier operand_compare (produces_tier operand_additive (produces_tier
    operand_multiplicative (produces_unary hr fuel fuel) fuel) fuel) fuel

theorem produces_range : Produces Operand (range r fuel) :=
  (produces_comparison hr fuel).bind fun _ hl => (steps_accept .dotDot).then fun _ => produces_ite
    ((produces_comparison hr fuel).map fun _ hu =>
      operand_pair trivial ⟨hl.place, hu.place⟩ hl hu rfl)
    (produces_pure hl)

/-! ## Calls without parentheses and assignments -/

theorem produces_commandCall {left : Expr} (h : left.Operand) :
    Produces Operand (commandCall r fuel left) := by
  cases left with
  | name n =>
    have hn : IsName n := h.place
    refine (steps_nextPasses _).then fun _ => produces_ite ?_ ?_
    · exact (produces_bareArguments hr fuel).bind fun _ ha => (produces_withBlock hr fuel ha).map
        fun _ ha => operand_call hn ha
    · refine (produces_blockTrailer hr fuel).bind fun b hb => ?_
      cases b with
      | none => exact produces_pure h
      | some b =>
        have none : ∀ a ∈ ([] : List Expr), a.Operand := nofun
        exact produces_pure (operand_call hn (arguments_append none hb))
  | _ => exact produces_pure h

omit hr fuel in
theorem operand_assignmentTo {target value e : Expr} (h : assignmentTo? target value = some e)
    (ht : target.Operand) (hv : value.Operand) : e.Operand := by
  unfold assignmentTo? at h
  split at h
  · cases h
    exact operand_of trivial hv.place (List.forall_mem_singleton.mpr hv.sound)
  · cases h
    exact operand_of trivial hv.place (List.forall_mem_singleton.mpr hv.sound)
  · cases h
    exact operand_of trivial hv.place (List.forall_mem_singleton.mpr hv.sound)
  · cases h
    obtain ⟨place, place'⟩ := ht.sound.here
    refine operand_of trivial ⟨place, place', hv.place⟩ ?_
    exact List.forall_mem_cons.mpr ⟨ht.sound.child List.mem_cons_self, List.forall_mem_cons.mpr
      ⟨ht.sound.child (List.mem_cons_of_mem _ List.mem_cons_self),
        List.forall_mem_singleton.mpr hv.sound⟩⟩
  · cases h
    exact operand_pair trivial ⟨⟨_, _, rfl⟩, hv.place⟩ ht hv rfl
  · cases h

theorem produces_assignment {target : Expr} (ht : target.Operand) (line : Nat) :
    Produces Operand (assignment r fuel target line) := by
  refine (steps_skipNewlines fuel).then fun _ => (hr .expression).bind fun value hv => ?_
  cases h : assignmentTo? target value with
  | none => exact produces_fail _ line
  | some e => exact produces_pure (operand_assignmentTo h ht hv)

theorem produces_expression : Produces Operand (expression r fuel) :=
  steps_lineHere.then fun line => (produces_range hr fuel).bind fun _ hl =>
    (produces_commandCall hr fuel hl).bind fun _ hl => (steps_accept .equals).then fun _ =>
      produces_ite (produces_assignment hr fuel hl line) (produces_pure hl)

end

/-! ## The grammar as a whole -/

theorem produces_parse : ∀ fuel, NestedProduces (parse fuel)
  | 0, _ => produces_unfinished
  | fuel + 1, .expression => produces_expression (produces_parse fuel) fuel
  | fuel + 1, .range => produces_range (produces_parse fuel) fuel
  | fuel + 1, .comparison => produces_comparison (produces_parse fuel) fuel

theorem produces_program (fuel : Nat) :
    Produces (fun es => ∀ e ∈ es, e.Operand) (program fuel) := by
  refine produces_collect ?_ fuel
  refine (steps_skipSeparators fuel).then fun _ => produces_peek.steps.then fun l => ?_
  cases l with
  | none => exact produces_pure nofun
  | some l =>
    exact (produces_command (produces_parse fuel)).map fun _ he _ hx => Option.some.inj hx ▸ he

end Grammar

theorem parseProgram_operands {source : String} {commands : List Expr} {rest : Parser}
    (h : parseProgram source = .ok commands rest) : ∀ e ∈ commands, e.Operand :=
  (Grammar.produces_program _ (Parser.ofString source) nofun commands rest h).1

/-- Every command of a parsed program is an operand, and every node of it stands in a place where
it may stand. -/
theorem program_wellPlaced {source : String} {commands : List Expr} {rest : Parser}
    (h : parseProgram source = .ok commands rest) :
    ∀ c ∈ commands, c.IsOperand ∧ ∀ n, Expr.Within n c → n.WellPlaced :=
  fun c hc => ⟨(parseProgram_operands h c hc).place, (parseProgram_operands h c hc).sound⟩

/-- A setter, and an assignment to it of a call with a block. -/
theorem program_wellPlaced_setter :
    (∃ rest, parseProgram "def self.a=(b) b end\nx.a = f(1) do |y| y end" =
      .ok [.define (.dot .selfRef "a=" []) ["b"] (.name "b"), .assignDot (.dot (.name "x") "a" [])
        (.call "f" [.literal (.integer 1), .block ["y"] (.name "y")])] rest) ∧
    Expr.WellPlaced (.call "f" [.literal (.integer 1), .block ["y"] (.name "y")]) := by
  have parsed : (parseProgram "def self.a=(b) b end\nx.a = f(1) do |y| y end").answer =
      some (.ok [.define (.dot .selfRef "a=" []) ["b"] (.name "b"),
        .assignDot (.dot (.name "x") "a" [])
          (.call "f" [.literal (.integer 1), .block ["y"] (.name "y")])]) := by cbv
  obtain ⟨rest, hp⟩ := gives_iff_ok.mp parsed
  refine ⟨⟨rest, hp⟩, (program_wellPlaced hp _ (List.mem_cons_of_mem _ List.mem_cons_self)).2 _ ?_⟩
  exact .under (List.mem_cons_of_mem _ List.mem_cons_self) (.root _)

end ObjectLang
