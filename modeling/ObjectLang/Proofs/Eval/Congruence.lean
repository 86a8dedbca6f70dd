import ObjectLang.Proofs.Store.Output

/-!
# Related evaluations

A rule of evaluation only puts steps together: steps that carry out tasks, steps that read or
change the store, but not its output, and the step that prints. So a relation that these steps
keep holds between two evaluations as soon as it holds between their tasks.
-/

namespace ObjectLang

open Eval

namespace Eval

/-- A relation between steps that no rule of evaluation can break. -/
structure Congruence (R : ∀ {α : Type}, Eval α → Eval α → Prop) : Prop where
  endless : ∀ {α : Type} (y : Eval α), R endless y
  pure : ∀ {α : Type} (a : α), R (pure a : Eval α) (pure a)
  fail : ∀ {α : Type} (f : Fault), R (fail f : Eval α) (fail f)
  crash : ∀ {α : Type}, R (crash : Eval α) crash
  bind : ∀ {α β : Type} {x y : Eval α} {k l : α → Eval β}, R x y → (∀ a, R (k a) (l a)) →
    R (x >>= k) (y >>= l)
  read : ∀ {α : Type} {g : Store → α}, (∀ s o, g (s.withOutput o) = g s) → R (read g) (read g)
  change : ∀ {g : Store → Store}, (∀ s o, g (s.withOutput o) = (g s).withOutput o) →
    R (change g) (change g)
  add : ∀ {α : Type} {g : Store → α × Store},
    (∀ s o, g (s.withOutput o) = ((g s).1, (g s).2.withOutput o)) → R (add g) (add g)
  puts : ∀ args, R (puts args) (puts args)

end Eval

section
variable {R : ∀ {α : Type}, Eval α → Eval α → Prop} (c : Congruence R) {α β : Type}
include c

/-! ## Steps for each element -/

theorem eachOnto_related {step step' : α → Eval β} (h : ∀ a, R (step a) (step' a)) :
    ∀ (l : List α) (done : Array β), R (eachOnto step done l) (eachOnto step' done l)
  | [], _ => c.pure _
  | a :: l, _ => c.bind (h a) fun _ => eachOnto_related h l _

theorem each_related {step step' : α → Eval β} (h : ∀ a, R (step a) (step' a)) (l : List α) :
    R (each step l) (each step' l) :=
  c.bind (eachOnto_related c h l _) fun _ => c.pure _

theorem eachIntegerOnto_related {step step' : Int → Eval β} (h : ∀ i, R (step i) (step' i)) :
    ∀ (count : Nat) (done : Array β) (lower : Int),
      R (eachIntegerOnto step done count lower) (eachIntegerOnto step' done count lower)
  | 0, _, _ => c.pure _
  | count + 1, _, lower => c.bind (h lower) fun _ => eachIntegerOnto_related h count _ _

theorem visit_related {step step' : α → Eval Unit} (h : ∀ a, R (step a) (step' a)) :
    ∀ l : List α, R (visit step l) (visit step' l)
  | [] => c.pure _
  | a :: l => c.bind (h a) fun _ => visit_related h l

theorem visitIntegers_related {step step' : Int → Eval Unit} (h : ∀ i, R (step i) (step' i)) :
    ∀ (count : Nat) (lower : Int),
      R (visitIntegers step count lower) (visitIntegers step' count lower)
  | 0, _ => c.pure _
  | count + 1, lower => c.bind (h lower) fun _ => visitIntegers_related h count _

theorem elementsVisit_related {step step' : Value → Eval Unit}
    (h : ∀ v, R (step v) (step' v)) (es : Elements) : R (es.visit step) (es.visit step') := by
  cases es with
  | values vs => exact visit_related c h vs
  | integers lower count => exact visitIntegers_related c (fun n => h (intValue n)) count lower

theorem elementsMap_related {step step' : Value → Eval Value}
    (h : ∀ v, R (step v) (step' v)) (es : Elements) : R (es.map step) (es.map step') := by
  cases es with
  | values vs => exact eachOnto_related c h vs _
  | integers lower count => exact eachIntegerOnto_related c (fun n => h (intValue n)) count _ lower

/-! ## Checks -/

theorem checkArity_related (n : String) (expected : Nat) (args : List Value) :
    R (checkArity n expected args) (checkArity n expected args) := by
  unfold checkArity
  split
  · exact c.pure _
  · exact c.fail _

theorem blockArgument_related (method : String) (args : List Value) :
    R (blockArgument method args) (blockArgument method args) := by
  unfold blockArgument
  split
  · exact c.pure _
  · exact c.fail _

/-- A fault that shows a value. -/
theorem failWith_related (g : String → Fault) (v : Value) :
    R (read (·.inspect v) >>= fun text => (fail (g text) : Eval α))
      (read (·.inspect v) >>= fun text => fail (g text)) :=
  c.bind (c.read fun _ _ => by rw [Store.inspect_withOutput]) fun _ => c.fail _

theorem expectInt_related (method : String) (v : Value) :
    R (expectInt method v) (expectInt method v) := by
  unfold expectInt
  split
  · exact c.pure _
  · exact failWith_related c _ v

theorem expectClass_related (method : String) (v : Value) :
    R (expectClass method v) (expectClass method v) := by
  unfold expectClass
  split
  · exact c.pure _
  · exact failWith_related c _ _

theorem nameArgument_related (v : Value) : R (nameArgument v) (nameArgument v) := by
  unfold nameArgument
  split
  · exact c.pure _
  · exact c.pure _
  · exact failWith_related c _ _

theorem expectClassOf_related (f : FrameId) (v : Value) :
    R (expectClassOf f v) (expectClassOf f v) := by
  refine c.bind (c.read fun _ _ => rfl) fun found => ?_
  cases found with
  | some d => exact c.pure _
  | none => exact failWith_related c _ v

/-! ## Collections -/

theorem newArray_related (items : Array Value) : R (newArray items) (newArray items) :=
  c.bind (c.add fun _ _ => rfl) fun _ => c.pure _

theorem newSymbols_related (names : List String) : R (newSymbols names) (newSymbols names) :=
  newArray_related c _

/-- A list of names that is read from the store. -/
theorem readSymbols_related {g : Store → List String} (h : ∀ s o, g (s.withOutput o) = g s) :
    R (read g >>= newSymbols) (read g >>= newSymbols) :=
  c.bind (c.read h) fun _ => newSymbols_related c _

theorem hashKey_related (v : Value) : R (Eval.hashKey v) (Eval.hashKey v) := by
  refine c.bind (c.read fun _ _ => by rw [Store.hashKey_withOutput]) fun found => ?_
  cases found with
  | ok k => exact c.pure _
  | error f => exact c.fail _

theorem indexInteger_related (v : Value) : R (indexInteger v) (indexInteger v) := by
  unfold indexInteger
  split
  · exact c.pure _
  · exact failWith_related c _ v

theorem find_related (t : HashTable) (key : Value) : R (t.find key) (t.find key) :=
  c.bind (hashKey_related c key) fun _ => c.pure _

theorem put_related (t : HashTable) (key v : Value) : R (t.put key v) (t.put key v) :=
  c.bind (hashKey_related c key) fun _ => c.pure _

theorem getIndex_related (target index : Value) :
    R (target.getIndex index) (target.getIndex index) := by
  cases target with
  | array a =>
    exact c.bind (indexInteger_related c index) fun i => c.bind (c.read fun _ _ => rfl) fun _ =>
      c.pure _
  | hash h =>
    exact c.bind (c.read fun _ _ => rfl) fun t => c.bind (find_related c t index) fun _ => c.pure _
  | str t => exact c.bind (indexInteger_related c index) fun i => c.pure _
  | _ => exact failWith_related c _ _

theorem setIndex_related (target index v : Value) :
    R (target.setIndex index v) (target.setIndex index v) := by
  cases target with
  | array a =>
    refine c.bind (indexInteger_related c index) fun i => ?_
    refine c.bind (c.read fun _ _ => rfl) fun size => ?_
    cases position? i size with
    | none => exact c.fail _
    | some p =>
      refine c.bind (c.read fun _ _ => rfl) fun room => ?_
      split
      · exact c.change fun _ _ => rfl
      · exact c.fail _
  | hash h =>
    refine c.bind (c.read fun _ _ => by rw [Store.readsForKey_withOutput]) fun crashes => ?_
    split
    · exact c.crash
    · exact c.bind (c.read fun _ _ => rfl) fun t => c.bind (put_related c t index v) fun _ =>
        c.change fun _ _ => rfl
  | _ => exact failWith_related c _ _

theorem elements_related (v : Value) : R (elements v) (elements v) := by
  cases v with
  | array a => exact c.bind (c.read fun _ _ => rfl) fun _ => c.pure _
  | range lower upper => exact c.pure _
  | hash h =>
    refine c.bind (c.read fun _ _ => rfl) fun pairs => c.bind (each_related c (fun p => ?_) pairs)
      fun _ => c.pure _
    exact newArray_related c _
  | _ => exact failWith_related c _ _

/-! ## Operators -/

theorem integer_related (operation : IntegerOperation) (n : Int) :
    R (integer operation n) (integer operation n) := by
  unfold integer
  split
  · exact c.pure _
  · exact c.fail _

/-- A fault that shows the class of one value and another value. -/
theorem failWithBoth_related (g : String → String → Fault) (left right : Value) :
    R (read (·.operandClass left) >>= fun l => read (·.inspect right) >>= fun r =>
        (fail (g l r) : Eval α))
      (read (·.operandClass left) >>= fun l => read (·.inspect right) >>= fun r => fail (g l r)) :=
  c.bind (c.read fun _ _ => rfl) fun l => failWith_related c (g l) right

theorem realOperation_related (operator : String) (op : Float → Float → Float)
    (left right : Value) : R (Value.realOperation operator op left right)
      (Value.realOperation operator op left right) := by
  unfold Value.realOperation
  split
  · exact c.pure _
  · exact failWithBoth_related c _ left right

theorem add_related (left right : Value) : R (left.add right) (left.add right) := by
  unfold Value.add
  split
  · exact c.bind (c.read fun _ _ => by rw [Store.display_withOutput]) fun l =>
      c.bind (c.read fun _ _ => by rw [Store.display_withOutput]) fun r => c.pure _
  · split
    · exact integer_related c _ _
    · exact c.bind (c.read fun _ _ => rfl) fun _ => c.bind (c.add fun _ _ => rfl) fun _ => c.pure _
    · exact realOperation_related c _ _ left right

theorem arith_related (op : ArithOp) (left right : Value) :
    R (Value.arith op left right) (Value.arith op left right) := by
  cases op with
  | add => exact add_related c left right
  | subtract =>
    change R (left.subtract right) (left.subtract right)
    unfold Value.subtract
    split
    · exact integer_related c _ _
    · exact realOperation_related c _ _ _ _
  | multiply =>
    change R (left.multiply right) (left.multiply right)
    unfold Value.multiply
    split
    · exact integer_related c _ _
    · split
      · exact c.fail _
      · split
        · exact c.crash
        · exact c.pure _
    · exact realOperation_related c _ _ _ _
  | divide =>
    change R (left.divide right) (left.divide right)
    unfold Value.divide
    split
    · split
      · exact c.fail _
      · exact integer_related c _ _
    · exact failWithBoth_related c _ left right

theorem negate_related (v : Value) : R v.negate v.negate := by
  unfold Value.negate
  split
  · exact integer_related c _ _
  · exact c.pure _
  · exact failWith_related c _ _

theorem ordered_related (op : CompareOp) (left right : Value) :
    R (Value.ordered op left right) (Value.ordered op left right) := by
  unfold Value.ordered
  split
  · exact c.pure _
  · exact failWithBoth_related c _ left right

theorem compareBy_related (op : CompareOp) (left right : Value) :
    R (Value.compareBy op left right) (Value.compareBy op left right) := by
  cases op with
  | equal | notEqual =>
    exact c.bind (c.read fun _ _ => by rw [Store.same_withOutput]) fun _ => c.pure _
  | less | greater | lessOrEqual | greaterOrEqual => exact ordered_related c _ left right

/-! ## Built-in methods that call nothing -/

theorem methodsOf_related (f : FrameId) (receiver : Value) :
    R (methodsOf f receiver) (methodsOf f receiver) := by
  refine c.bind (c.read fun _ _ => rfl) fun found => ?_
  cases found with
  | some o => exact readSymbols_related c fun _ _ => rfl
  | none =>
    exact c.bind (expectClassOf_related c f receiver) fun _ => readSymbols_related c fun _ _ => rfl

theorem respondsTo_related (f : FrameId) (receiver n : Value) :
    R (respondsTo f receiver n) (respondsTo f receiver n) :=
  c.bind (nameArgument_related c n) fun _ => c.bind (c.read fun _ _ => rfl) fun _ => c.pure _

theorem installEach_related (selector : String) (method : String → String × Callable)
    (receiver : Value) (args : List Value) :
    R (installEach selector method receiver args) (installEach selector method receiver args) := by
  refine c.bind (expectClass_related c selector receiver) fun d => ?_
  refine visit_related c (fun v => ?_) args
  exact c.bind (nameArgument_related c v) fun n => c.change fun _ _ => rfl

theorem callWriter_related (n : String) (receiver : Value) (args : List Value) :
    R (callWriter n receiver args) (callWriter n receiver args) := by
  match args with
  | [v] =>
    refine c.bind (c.read fun _ _ => rfl) fun found => ?_
    cases found with
    | some o =>
      exact c.bind (c.change fun s o => s.modifyObjectOf_withOutput o receiver _) fun _ => c.pure _
    | none => exact failWith_related c _ receiver
  | [] | _ :: _ :: _ => exact c.fail _

theorem toReal_related (receiver : Value) : R (toReal receiver) (toReal receiver) := by
  unfold toReal
  split
  · exact c.pure _
  · exact failWith_related c _ receiver

theorem toInteger_related (receiver : Value) : R (toInteger receiver) (toInteger receiver) := by
  unfold toInteger
  split
  · exact c.pure _
  · split
    · exact c.pure _
    · exact c.fail _
  · exact failWith_related c _ _

theorem onText_related (method : String) (g : String → Value) (receiver : Value) :
    R (onText method g receiver) (onText method g receiver) := by
  unfold onText
  split
  · exact c.pure _
  · exact failWith_related c _ _

theorem collectionLength_related (receiver : Value) :
    R (collectionLength receiver) (collectionLength receiver) := by
  unfold collectionLength
  split
  · exact c.read fun _ _ => rfl
  · exact c.read fun _ _ => rfl
  · exact failWith_related c _ _

theorem onArray_related (method : String) (g : Array Value → Value) (receiver : Value) :
    R (onArray method g receiver) (onArray method g receiver) := by
  unfold onArray
  split
  · exact c.read fun _ _ => rfl
  · exact failWith_related c _ _

theorem onHash_related (method : String) (g : Value × Value → Value) (receiver : Value) :
    R (onHash method g receiver) (onHash method g receiver) := by
  unfold onHash
  split
  · exact c.bind (c.read fun _ _ => rfl) fun _ => newArray_related c _
  · exact failWith_related c _ _

theorem pushAll_related (receiver : Value) (args : List Value) :
    R (pushAll receiver args) (pushAll receiver args) := by
  unfold pushAll
  split
  · exact c.bind (c.change fun _ _ => rfl) fun _ => c.pure _
  · exact failWith_related c _ _

theorem blockArguments_related (spread : Bool) (v : Value) :
    R (blockArguments spread v) (blockArguments spread v) := by
  unfold blockArguments
  split
  · split
    · exact c.read fun _ _ => rfl
    · exact c.pure _
  · exact c.pure _

theorem toArray_related (receiver : Value) : R (toArray receiver) (toArray receiver) := by
  refine c.bind (elements_related c receiver) fun es => ?_
  refine c.bind (c.read fun _ _ => rfl) fun room => ?_
  split
  · exact newArray_related c _
  · exact c.fail _

end

end ObjectLang
