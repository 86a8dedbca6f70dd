import ObjectLang.Machine
import ObjectLang.Proofs.Eval.Congruence

/-!
# Rules of evaluation under a congruence

Two performers whose tasks are related carry out every expression in a related way.
-/

namespace ObjectLang

open Eval

section
variable {R : ∀ {α : Type}, Eval α → Eval α → Prop} (c : Congruence R)
include c

section
variable {r r' : Performer} (h : ∀ t, R (r t) (r' t))
include h

/-! ## Calls -/

theorem callBlock_related (p : ProcId) (args : List Value) :
    R (callBlock r p args) (callBlock r' p args) :=
  c.bind (c.read fun _ _ => rfl) fun _ => c.bind (c.add fun _ _ => rfl) fun _ => h _

theorem callDefinition_related (f : FrameId) (d : Definition) (receiver : Option Value)
    (args : List Value) : R (callDefinition r f d receiver args)
      (callDefinition r' f d receiver args) :=
  c.bind (checkArity_related c _ _ args) fun _ => c.bind (c.add fun _ _ => rfl) fun _ => h _

theorem newInstance_related (f : FrameId) (receiver : Value) (args : List Value) :
    R (newInstance r f receiver args) (newInstance r' f receiver args) := by
  refine c.bind (expectClass_related c _ receiver) fun d => c.bind (c.add fun _ _ => rfl) fun o =>
    c.bind (c.read fun _ _ => rfl) fun m => ?_
  cases m with
  | some m => exact c.bind (h _) fun _ => c.pure _
  | none => exact c.bind (checkArity_related c _ _ args) fun _ => c.pure _

theorem times_related (receiver : Value) (args : List Value) :
    R (times r receiver args) (times r' receiver args) := by
  refine c.bind (expectInt_related c _ receiver) fun n => c.bind (blockArgument_related c _ args)
    fun b => c.bind (elementsVisit_related c (fun v => ?_) _) fun _ => c.pure _
  exact c.bind (callBlock_related c h b [v]) fun _ => c.pure _

theorem upto_related (receiver upper : Value) (args : List Value) :
    R (upto r receiver upper args) (upto r' receiver upper args) := by
  refine c.bind (expectInt_related c _ receiver) fun n => c.bind (expectInt_related c _ upper)
    fun m => c.bind (blockArgument_related c _ args) fun b =>
      c.bind (elementsVisit_related c (fun v => ?_) _) fun _ => c.pure _
  exact c.bind (callBlock_related c h b [v]) fun _ => c.pure _

theorem eachElement_related (receiver : Value) (args : List Value) :
    R (eachElement r receiver args) (eachElement r' receiver args) := by
  refine c.bind (blockArgument_related c _ args) fun b => c.bind (c.read fun _ _ => rfl) fun n =>
    c.bind (elements_related c receiver) fun es =>
      c.bind (elementsVisit_related c (fun v => ?_) es) fun _ => c.pure _
  exact c.bind (blockArguments_related c _ v) fun vs =>
    c.bind (callBlock_related c h b vs) fun _ => c.pure _

theorem mapElements_related (receiver : Value) (args : List Value) :
    R (mapElements r receiver args) (mapElements r' receiver args) :=
  c.bind (blockArgument_related c _ args) fun b => c.bind (elements_related c receiver) fun es =>
    c.bind (elementsMap_related c (fun v => callBlock_related c h b [v]) es) fun vs =>
      newArray_related c vs

theorem callProc_related (receiver : Value) (args : List Value) :
    R (callProc r receiver args) (callProc r' receiver args) := by
  cases receiver with
  | proc p => exact callBlock_related c h p args
  | _ => exact failWith_related c _ _

omit h in
/-- A built-in method that is called without arguments. -/
theorem withoutArgs_related (b : Builtin) (args : List Value) {x y : Eval Value} (hx : R x y) :
    R (withoutArgs b args x) (withoutArgs b args y) :=
  c.bind (checkArity_related c _ _ args) fun _ => hx

theorem runBuiltin_related (f : FrameId) (b : Builtin) (receiver : Value) (args : List Value) :
    R (runBuiltin r f b receiver args) (runBuiltin r' f b receiver args) := by
  have alone {x y : Eval Value} (hx : R x y) := withoutArgs_related c b args hx
  cases b with
  | new => exact newInstance_related c h f receiver args
  | cls => exact alone (c.bind (expectClassOf_related c f receiver) fun _ => c.pure _)
  | methods => exact alone (methodsOf_related c f receiver)
  | singletonMethods => exact alone (readSymbols_related c fun _ _ => rfl)
  | toS => exact alone (c.read fun _ _ => by rw [Store.display_withOutput])
  | inspect => exact alone (c.read fun _ _ => by rw [Store.inspect_withOutput])
  | respondTo =>
    match args with
    | [n] => exact respondsTo_related c f receiver n
    | [] | _ :: _ :: _ => exact c.fail _
  | instanceVariables =>
    exact alone (c.bind (c.read fun _ _ => rfl) fun _ => newSymbols_related c _)
  | moduleName =>
    exact alone (c.bind (expectClass_related c _ receiver) fun _ => c.read fun _ _ => rfl)
  | attrAccessor =>
    exact c.bind (installEach_related c _ _ receiver args) fun _ =>
      c.bind (installEach_related c _ _ receiver args) fun _ => c.pure _
  | attrReader | attrWriter =>
    exact c.bind (installEach_related c _ _ receiver args) fun _ => c.pure _
  | instanceMethods | constants =>
    exact alone (c.bind (expectClass_related c _ receiver) fun _ =>
      readSymbols_related c fun _ _ => rfl)
  | superclass =>
    exact alone (c.bind (expectClass_related c _ receiver) fun _ =>
      c.bind (c.read fun _ _ => rfl) fun _ => c.pure _)
  | times => exact c.bind (checkArity_related c _ _ args) fun _ => times_related c h receiver args
  | upto =>
    match args with
    | [upper, block] => exact upto_related c h receiver upper [block]
    | [] | [_] | _ :: _ :: _ :: _ => exact c.fail _
  | toF => exact alone (toReal_related c receiver)
  | toI => exact alone (toInteger_related c receiver)
  | textLength | upcase | downcase | toSym => exact alone (onText_related c _ _ receiver)
  | length => exact alone (collectionLength_related c receiver)
  | push => exact pushAll_related c receiver args
  | first | last => exact alone (onArray_related c _ _ receiver)
  | each =>
    exact c.bind (checkArity_related c _ _ args) fun _ => eachElement_related c h receiver args
  | map =>
    exact c.bind (checkArity_related c _ _ args) fun _ => mapElements_related c h receiver args
  | keys | values => exact alone (onHash_related c _ _ receiver)
  | toA => exact alone (toArray_related c receiver)
  | call => exact callProc_related c h receiver args

theorem invoke_related (f : FrameId) (m : Callable) (receiver : Option Value) (args : List Value) :
    R (invoke r f m receiver args) (invoke r' f m receiver args) := by
  cases m with
  | builtin b => exact runBuiltin_related c h f b _ args
  | puts => exact c.puts args
  | reader n => exact c.bind (checkArity_related c _ _ args) fun _ => c.read fun _ _ => rfl
  | writer n => exact callWriter_related c n _ args
  | defined d => exact callDefinition_related c h f d receiver args

theorem send_related (f : FrameId) (receiver : Value) (n : String) (args : List Value) :
    R (send r f receiver n args) (send r' f receiver n args) := by
  refine c.bind (c.read fun _ _ => rfl) fun m => ?_
  cases m with
  | some m => exact invoke_related c h f m _ args
  | none => exact failWith_related c _ receiver

theorem sendSelf?_related (f : FrameId) (n : String) (args : List Value) :
    R (sendSelf? r f n args) (sendSelf? r' f n args) := by
  refine c.bind (c.read fun _ _ => rfl) fun found => ?_
  match found with
  | some (v, m) => exact c.bind (invoke_related c h f m _ args) fun _ => c.pure _
  | none => exact c.pure _

/-! ## Names and variables -/

theorem evalName_related (f : FrameId) (n : String) : R (evalName r f n) (evalName r' f n) := by
  unfold evalName
  by_cases hc : isConstant n
  · rw [if_pos hc, if_pos hc]
    refine c.bind (c.add fun _ _ => rfl) fun found => ?_
    cases found with
    | some v => exact c.pure _
    | none => exact c.fail _
  · rw [if_neg hc, if_neg hc]
    refine c.bind (c.read fun _ _ => rfl) fun found => ?_
    match found with
    | some (.function m) => exact invoke_related c h f m none []
    | none =>
      refine c.bind (sendSelf?_related c h f n []) fun w => ?_
      cases w with
      | some v => exact c.pure _
      | none => exact c.fail _
    | some .nil | some (.bool _) | some (.int _) | some (.real _) | some (.str _)
    | some (.symbol _) | some (.array _) | some (.hash _) | some (.range _ _)
    | some (.object _) | some (.cls _) | some (.proc _) => exact c.pure _

omit h in
theorem evalClassVar_related (f : FrameId) (n : String) :
    R (evalClassVar f n) (evalClassVar f n) := by
  refine c.bind (c.read fun _ _ => rfl) fun d => c.bind (c.read fun _ _ => rfl) fun found => ?_
  cases found with
  | some v => exact c.pure _
  | none => exact c.bind (c.read fun _ _ => rfl) fun _ => c.fail _

omit h in
theorem assignName_related (f : FrameId) (n : String) (v : Value) :
    R (assignName f n v) (assignName f n v) :=
  c.bind (c.change fun s o => s.bind_withOutput o f n v) fun _ => c.pure _

omit h in
theorem assignInstanceVar_related (f : FrameId) (n : String) (v : Value) :
    R (assignInstanceVar f n v) (assignInstanceVar f n v) := by
  refine c.bind (c.read fun _ _ => rfl) fun self => c.bind (c.read fun _ _ => rfl) fun found => ?_
  cases found with
  | some w => exact c.bind (c.change fun s o => s.modifyObjectOf_withOutput o w _) fun _ => c.pure _
  | none =>
    exact c.bind (c.read fun _ _ => by rw [Store.inspect_withOutput]) fun _ => c.fail _

omit h in
theorem assignClassVar_related (f : FrameId) (n : String) (v : Value) :
    R (assignClassVar f n v) (assignClassVar f n v) := by
  refine c.bind (c.read fun _ _ => rfl) fun found => ?_
  cases found with
  | some d => exact c.bind (c.change fun _ _ => rfl) fun _ => c.pure _
  | none => exact c.fail _

/-! ## Definitions -/

omit h in
theorem singletonClass_related (v : Value) : R (singletonClass v) (singletonClass v) := by
  refine c.bind (c.change fun s o => ?_) fun _ => c.bind (c.read fun _ _ => rfl) fun found => ?_
  · rw [Store.display_withOutput]
    exact s.addSingleton_withOutput o v _
  · cases found with
    | some d => exact c.pure _
    | none => exact failWith_related c _ v

omit h in
theorem definitionOwner_related (f : FrameId) : R (definitionOwner f) (definitionOwner f) := by
  refine c.bind (c.read fun _ _ => rfl) fun frame => ?_
  split
  · exact c.pure _
  · exact c.bind (expectClassOf_related c f _) fun _ => c.pure _
  · exact c.pure _

theorem defineOn_related (f : FrameId) (receiver : Expr) (n : String) :
    R (defineOn r f receiver n) (defineOn r' f receiver n) :=
  c.bind (h _) fun v => c.bind (singletonClass_related c v) fun _ => c.pure _

theorem definitionTarget_related (f : FrameId) (target : Expr) :
    R (definitionTarget r f target) (definitionTarget r' f target) := by
  cases target with
  | name n => exact c.bind (definitionOwner_related c f) fun _ => c.pure _
  | dot receiver n args => exact defineOn_related c h f receiver n
  | doubleColon receiver n => exact defineOn_related c h f receiver n
  | _ => exact c.fail _

theorem evalDefine_related (f : FrameId) (target : Expr) (params : List String) (body : Expr) :
    R (evalDefine r f target params body) (evalDefine r' f target params body) := by
  refine c.bind (definitionTarget_related c h f target) fun found => ?_
  obtain ⟨n, owner⟩ := found
  refine c.bind (c.read fun _ _ => rfl) fun enclosing => ?_
  cases owner with
  | some d => exact c.bind (c.change fun _ _ => rfl) fun _ => c.pure _
  | none => exact c.bind (c.change fun _ _ => rfl) fun _ => c.pure _

omit h in
theorem requiredClass_related (f : FrameId) (n : String) :
    R (requiredClass f n) (requiredClass f n) := by
  refine c.bind (c.read fun _ _ => rfl) fun found => ?_
  cases found with
  | some d => exact c.pure _
  | none => exact c.fail _

omit h in
theorem makeDefinition_related (f : FrameId) (container : Option ClassId) (n : String)
    (kind : ClassKind) (superclass : Option ClassId) :
    R (makeDefinition f container n kind superclass)
      (makeDefinition f container n kind superclass) := by
  have new (d : ClassId) : R
      (requiredClass f kind.metaName >>= fun m => add (·.addDefinition f container n kind m d))
      (requiredClass f kind.metaName >>= fun m => add (·.addDefinition f container n kind m d)) :=
    c.bind (requiredClass_related c f _) fun m =>
      c.add fun s o => s.addDefinition_withOutput o f container n kind m d
  cases superclass with
  | some d => exact c.bind (c.pure d) new
  | none => exact c.bind (requiredClass_related c f _) new

theorem evalBody_related (f : FrameId) (d : ClassId) (body : Expr) :
    R (evalBody r f d body) (evalBody r' f d body) :=
  c.bind (c.add fun _ _ => rfl) fun _ => h _

omit h in
theorem moduleValue_related (v : Value) : R (moduleValue v) (moduleValue v) := by
  unfold moduleValue
  split
  · exact c.pure _
  · exact failWith_related c _ _

theorem classTarget_related (f : FrameId) (n : Expr) :
    R (classTarget r f n) (classTarget r' f n) := by
  cases n with
  | name n => exact c.bind (c.read fun _ _ => rfl) fun _ => c.pure _
  | doubleColon target n =>
    exact c.bind (h _) fun v => c.bind (moduleValue_related c v) fun _ => c.pure _
  | _ => exact c.fail _

omit h in
theorem superclassValue_related (v : Value) : R (superclassValue v) (superclassValue v) := by
  refine c.bind (c.read fun _ _ => by cases v <;> rfl) fun found => ?_
  cases found with
  | some d => exact c.pure _
  | none => exact failWith_related c _ v

theorem evalSuperclass_related (f : FrameId) (e : Option Expr) :
    R (evalSuperclass r f e) (evalSuperclass r' f e) := by
  cases e with
  | some e => exact c.bind (h _) fun v => c.bind (superclassValue_related c v) fun _ => c.pure _
  | none => exact c.pure _

omit h in
theorem openClass_related (f : FrameId) (container : Option ClassId) (n : String)
    (superclass : Option ClassId) :
    R (openClass f container n superclass) (openClass f container n superclass) := by
  refine c.bind (c.read fun _ _ => rfl) fun found => ?_
  cases found with
  | none => exact makeDefinition_related c f container n _ superclass
  | some d =>
    refine c.bind (c.read fun _ _ => rfl) fun current => ?_
    split
    · exact c.pure _
    · exact c.bind (c.read fun _ _ => rfl) fun _ => c.fail _

theorem evalClass_related (f : FrameId) (n : Expr) (superclass : Option Expr) (body : Expr) :
    R (evalClass r f n superclass body) (evalClass r' f n superclass body) := by
  refine c.bind (classTarget_related c h f n) fun target => ?_
  obtain ⟨container, n⟩ := target
  exact c.bind (evalSuperclass_related c h f superclass) fun d =>
    c.bind (openClass_related c f container n d) fun d => evalBody_related c h f d body

theorem evalModule_related (f : FrameId) (n : String) (body : Expr) :
    R (evalModule r f n body) (evalModule r' f n body) := by
  refine c.bind (c.read fun _ _ => rfl) fun container => c.bind ?_ fun d =>
    evalBody_related c h f d body
  refine c.bind (c.read fun _ _ => rfl) fun found => ?_
  cases found with
  | some d => exact c.pure _
  | none => exact makeDefinition_related c f container n _ none

/-! ## Expressions -/

theorem evalArgs_related (f : FrameId) (args : List Expr) :
    R (evalArgs r f args) (evalArgs r' f args) :=
  each_related c (fun _ => h _) args

theorem evalCall_related (f : FrameId) (n : String) (args : List Expr) :
    R (evalCall r f n args) (evalCall r' f n args) := by
  refine c.bind (evalArgs_related c h f args) fun vs => ?_
  refine c.bind (c.read fun _ _ => rfl) fun found => ?_
  split
  · exact invoke_related c h f _ none vs
  · refine c.bind (sendSelf?_related c h f n vs) fun w => ?_
    cases w with
    | some v => exact c.pure _
    | none =>
      exact c.bind (c.read fun _ _ => by rw [Store.inspect_withOutput]; rfl) fun _ => c.fail _

theorem evalDot_related (f : FrameId) (target : Expr) (n : String) (args : List Expr) :
    R (evalDot r f target n args) (evalDot r' f target n args) :=
  c.bind (h _) fun v => c.bind (evalArgs_related c h f args) fun vs => send_related c h f v n vs

theorem evalDoubleColon_related (f : FrameId) (target : Expr) (n : String) :
    R (evalDoubleColon r f target n) (evalDoubleColon r' f target n) := by
  refine c.bind (h _) fun v => c.bind (moduleValue_related c v) fun d => ?_
  by_cases hc : isConstant n
  · rw [if_pos hc, if_pos hc]
    refine c.bind (c.read fun _ _ => rfl) fun found => ?_
    cases found with
    | some w => exact c.pure _
    | none => exact c.bind (c.read fun _ _ => rfl) fun _ => c.fail _
  · rw [if_neg hc, if_neg hc]
    exact send_related c h f v n []

theorem evalAssignDot_related (f : FrameId) (target value : Expr) :
    R (evalAssignDot r f target value) (evalAssignDot r' f target value) := by
  cases target with
  | dot target n args =>
    exact c.bind (h _) fun v => c.bind (h _) fun w => c.bind (send_related c h f v _ [w]) fun _ =>
      c.pure _
  | _ => exact c.fail _

omit h in
theorem loopWhile_related (go : Bool) {x x' y y' : Eval Value} (hx : R x x') (hy : R y y') :
    ∀ {fuel fuel' : Nat}, fuel ≤ fuel' → R (loopWhile go x y fuel) (loopWhile go x' y' fuel')
  | 0, _, _ => c.endless _
  | fuel + 1, fuel' + 1, le => by
    unfold loopWhile
    refine c.bind hx fun v => ?_
    by_cases hv : v.isTruthy = go
    · rw [if_pos hv, if_pos hv]
      exact c.bind hy fun _ => loopWhile_related go hx hy (Nat.le_of_succ_le_succ le)
    · rw [if_neg hv, if_neg hv]
      exact c.pure _

theorem evalForIn_related (f : FrameId) (n : String) (collection body : Expr) :
    R (evalForIn r f n collection body) (evalForIn r' f n collection body) := by
  refine c.bind (h _) fun v => c.bind (elements_related c v) fun es =>
    c.bind (elementsVisit_related c (fun w => ?_) es) fun _ => c.pure _
  exact c.bind (c.change fun _ _ => rfl) fun _ => c.bind (h _) fun _ => c.pure _

theorem sequenceFrom_related (f : FrameId) :
    ∀ (last : Value) (es : List Expr), R (sequenceFrom r f last es) (sequenceFrom r' f last es)
  | _, [] => c.pure _
  | _, _ :: es => c.bind (h _) fun v => sequenceFrom_related f v es

theorem evalEntries_related (f : FrameId) :
    ∀ (t : HashTable) (entries : List (Expr × Expr)),
      R (evalEntries r f t entries) (evalEntries r' f t entries)
  | _, [] => c.pure _
  | t, _ :: entries => c.bind (h _) fun given => c.bind (h _) fun v =>
      c.bind (put_related c t given v) fun _ => evalEntries_related f _ entries

theorem evalRange_related (f : FrameId) (lower upper : Expr) :
    R (evalRange r f lower upper) (evalRange r' f lower upper) := by
  refine c.bind (h _) fun v => c.bind (h _) fun w => ?_
  split
  · exact c.pure _
  · exact c.bind (c.read fun _ _ => by rw [Store.inspect_withOutput]) fun _ =>
      failWith_related c _ w

theorem onOperands_related (f : FrameId) (left right : Expr) {op : Value → Value → Eval Value}
    (hop : ∀ v w, R (op v w) (op v w)) :
    R (onOperands r f left right op) (onOperands r' f left right op) :=
  c.bind (h _) fun v => c.bind (h _) fun w => hop v w

theorem evalExpr_related {fuel fuel' : Nat} (le : fuel ≤ fuel') (f : FrameId) (e : Expr) :
    R (evalExpr r fuel f e) (evalExpr r' fuel' f e) := by
  cases e with
  | literal l => exact c.pure _
  | selfRef => exact c.read fun _ _ => rfl
  | name n => exact evalName_related c h f n
  | instanceVar n => exact c.read fun _ _ => rfl
  | classVar n => exact evalClassVar_related c f n
  | arith op left right => exact onOperands_related c h f left right (arith_related c op)
  | compare op left right => exact onOperands_related c h f left right (compareBy_related c op)
  | negative e => exact c.bind (h _) fun v => negate_related c v
  | negation e => exact c.bind (h _) fun _ => c.pure _
  | assign n e => exact c.bind (h _) fun v => assignName_related c f n v
  | assignInstanceVar n e => exact c.bind (h _) fun v => assignInstanceVar_related c f n v
  | assignClassVar n e => exact c.bind (h _) fun v => assignClassVar_related c f n v
  | assignIndexed target index e =>
    exact c.bind (h _) fun t => c.bind (h _) fun i => c.bind (h _) fun v =>
      c.bind (setIndex_related c t i v) fun _ => c.pure _
  | assignDot target e => exact evalAssignDot_related c h f target e
  | call n args => exact evalCall_related c h f n args
  | dot target n args => exact evalDot_related c h f target n args
  | doubleColon target n => exact evalDoubleColon_related c h f target n
  | ifElse condition thenBranch elseBranch =>
    refine c.bind (h _) fun v => ?_
    by_cases hv : v.isTruthy
    · rw [if_pos hv, if_pos hv]
      exact h _
    · rw [if_neg hv, if_neg hv]
      cases elseBranch with
      | some e => exact h _
      | none => exact c.pure _
  | whileLoop condition body => exact loopWhile_related c true (h _) (h _) le
  | untilLoop condition body => exact loopWhile_related c false (h _) (h _) le
  | forIn n collection body => exact evalForIn_related c h f n collection body
  | define target params body => exact evalDefine_related c h f target params body
  | classDef n superclass body => exact evalClass_related c h f n superclass body
  | moduleDef n body => exact evalModule_related c h f n body
  | array items => exact c.bind (evalArgs_related c h f items) fun _ => newArray_related c _
  | hash entries =>
    exact c.bind (evalEntries_related c h f .empty entries) fun t => c.bind (c.add fun _ _ => rfl)
      fun _ => c.pure _
  | range lower upper => exact evalRange_related c h f lower upper
  | indexed target index => exact onOperands_related c h f target index (getIndex_related c)
  | block params body => exact c.bind (c.add fun _ _ => rfl) fun _ => c.pure _
  | sequence commands => exact sequenceFrom_related c h f .nil commands

/-! ## Programs -/

theorem commandsFrom_related (f : FrameId) :
    ∀ (last : Value) (es : List Expr), R (commandsFrom r f last es) (commandsFrom r' f last es)
  | _, [] => c.pure _
  | _, _ :: es => c.bind (h _) fun v =>
      c.bind (c.change fun s o => s.release_withOutput o f [v]) fun _ => commandsFrom_related f v es

end

/-! ## The evaluator -/

/-- A task is related to itself, under a larger bound too. -/
theorem perform_related : ∀ {fuel fuel' : Nat}, fuel ≤ fuel' → ∀ t,
    R (perform fuel t) (perform fuel' t)
  | 0, _, _ => fun _ => c.endless _
  | fuel + 1, fuel' + 1, le => by
    have nested := perform_related (Nat.le_of_succ_le_succ le)
    intro t
    cases t with
    | expr f e => exact evalExpr_related c nested (Nat.le_of_succ_le_succ le) f e
    | invoke f m receiver args => exact invoke_related c nested f m receiver args

end

end ObjectLang
