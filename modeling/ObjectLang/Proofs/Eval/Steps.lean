import ObjectLang.Proofs.Eval.Does
import ObjectLang.Proofs.Store.Contents

/-!
# Steps that carry out no task

Operators, collections and the built-in methods that call nothing back write no
locals at all, and answer what the store knows.
-/

namespace ObjectLang

open Store Eval

variable {W : FrameId → Prop} {s : Store}

/-! ## Elements of a collection -/

def Elements.Known (s : Store) : Elements → Prop
  | .values vs => ∀ v ∈ vs, s.Knows v
  | .integers _ _ => True

section
variable (h : s.Sound)
include h

theorem does_elementsVisit {step : Value → Eval Unit} {es : Elements} (he : es.Known s)
    (hstep : ∀ v s', Effect W s s' → s'.Knows v → Does W s' (step v) fun _ _ => True) :
    Does W s (es.visit step) fun _ _ => True := by
  cases es with
  | values vs => exact does_visit h fun v hv s' e => hstep v s' e ((he v hv).grows e.grows)
  | integers lower count => exact does_visitIntegers h fun n s' e => hstep _ s' e trivial

theorem does_elementsMap {step : Value → Eval Value} {es : Elements} (he : es.Known s)
    (hstep : ∀ v s', Effect W s s' → s'.Knows v → Answers W s' (step v)) :
    Does W s (es.map step) fun vs s' => ∀ v ∈ vs, s'.Knows v := by
  cases es with
  | values vs =>
    exact does_eachOnto h (fun v hv s' e => hstep v s' e ((he v hv).grows e.grows)) (by simp)
  | integers lower count =>
    exact does_eachIntegerOnto h (fun n s' e => hstep _ s' e trivial) (by simp)

omit h in
theorem Elements.Known.toArray {es : Elements} (he : es.Known s) :
    ∀ v ∈ es.toArray, s.Knows v := by
  cases es with
  | values vs => exact fun v hv => he v (by simpa [Elements.toArray] using hv)
  | integers lower count =>
    intro v hv
    obtain ⟨i, rfl⟩ := Array.mem_ofFn.mp hv
    trivial

/-! ## Checks of receivers and arguments -/

theorem does_checkArity (n : String) (expected : Nat) (args : List Value) :
    Does W s (checkArity n expected args) fun _ s' => s = s' := by
  unfold checkArity
  split
  · exact does_pure h rfl
  · exact does_fail h _

theorem does_blockArgument (method : String) (args : List Value) :
    Does W s (blockArgument method args) fun _ s' => s = s' := by
  unfold blockArgument
  split
  · exact does_pure h rfl
  · exact does_typeFail h _

theorem does_noMethod {α : Type} {Q : α → Store → Prop} (n : String) (receiver : Value) :
    Does W s (noMethod n receiver) Q :=
  .read (does_fail h _)

theorem does_notNumeric {α : Type} {Q : α → Store → Prop} (method : String) (v : Value) :
    Does W s (notNumeric method v) Q :=
  .read (does_typeFail h _)

theorem does_expectInt (method : String) (v : Value) :
    Does W s (expectInt method v) fun _ s' => s = s' := by
  unfold expectInt
  split
  · exact does_pure h rfl
  · exact does_notNumeric h _ _

theorem does_expectClass (method : String) (v : Value) :
    Does W s (expectClass method v) fun c s' => s = s' ∧ v = .cls c := by
  unfold expectClass
  split
  · exact does_pure h ⟨rfl, rfl⟩
  · exact does_noMethod h _ _

theorem does_nameArgument (v : Value) :
    Does W s (nameArgument v) fun _ s' => s = s' := by
  unfold nameArgument
  split
  · exact does_pure h rfl
  · exact does_pure h rfl
  · exact .read (does_typeFail h _)

theorem does_expectClassOf (f : FrameId) {v : Value} (hv : s.Knows v) :
    Does W s (expectClassOf f v) fun c s' => s = s' ∧ s.Proper c := by
  refine .read ?_
  split
  · next c hc => exact does_pure h ⟨rfl, h.classOf? hv hc⟩
  · exact .read (does_typeFail h _)

/-! ## Collections -/

theorem does_newArray {items : Array Value} (hi : ∀ v ∈ items, s.Knows v) :
    Answers W s (newArray items) := by
  have e := effect_addArray (W := W) h hi
  exact .add e (does_pure e.sound (by simp [Knows, HasArray, addArray]))

theorem does_newSymbols (names : List String) : Answers W s (newSymbols names) := by
  refine does_newArray h fun v hv => ?_
  obtain ⟨n, _, rfl⟩ := List.mem_map.mp (List.mem_toArray.mp hv)
  trivial

theorem does_hashKey (v : Value) : Does W s (Eval.hashKey v) fun _ s' => s = s' := by
  refine .read ?_
  split
  · exact does_pure h rfl
  · exact does_typeFail h _

theorem does_indexInteger (v : Value) : Does W s (indexInteger v) fun _ s' => s = s' := by
  unfold indexInteger
  split
  · exact does_pure h rfl
  · exact .read (does_typeFail h _)

omit h in
theorem Knows.ofOption {o : Option Value} (ho : ∀ v, o = some v → s.Knows v) :
    s.Knows (o.getD .nil) := by
  cases o with
  | none => trivial
  | some v => exact ho v rfl

theorem does_find (t : HashTable) (key : Value) :
    Does W s (t.find key) fun found s' => s = s' ∧ ∃ k, found = t.get? k := by
  refine (does_hashKey h key).bind fun k s' _ => ?_
  intro e
  subst e
  exact does_pure h ⟨rfl, k, rfl⟩

theorem does_getIndex (target index : Value) : Answers W s (target.getIndex index) := by
  unfold Value.getIndex
  split
  · next a =>
    refine (does_indexInteger h index).bind fun i s' _ => ?_
    intro e
    subst e
    refine .read (does_pure h (Knows.ofOption fun v hv => ?_))
    obtain ⟨p, _, hp⟩ := Option.bind_eq_some_iff.mp hv
    exact h.array a v (Array.mem_of_getElem? hp)
  · next t =>
    refine .read ((does_find h _ index).bind fun found s' _ => ?_)
    rintro ⟨rfl, k, rfl⟩
    exact does_pure h (Knows.ofOption fun v hv => HashTable.Forall.get? (h.hash t) trivial hv)
  · refine (does_indexInteger h index).bind fun i s' _ => ?_
    intro e
    subst e
    refine does_pure h ?_
    cases (position? i _).bind _ <;> trivial
  · exact .read (does_fail h _)

theorem does_put {t : HashTable} (ht : s.HashSound t) {key v : Value} (hk : s.Knows key)
    (hv : s.Knows v) : Does W s (t.put key v) fun t' s' => s = s' ∧ s.HashSound t' := by
  refine (does_hashKey h key).bind fun k s' _ => ?_
  intro e
  subst e
  exact does_pure h ⟨rfl, HashTable.Forall.insert ht k hk hv⟩

theorem does_setIndex (target : Value) {index v : Value} (hi : s.Knows index) (hv : s.Knows v) :
    Does W s (target.setIndex index v) fun _ _ => True := by
  unfold Value.setIndex
  split
  · next a =>
    refine (does_indexInteger h index).bind fun i s' _ => ?_
    intro e
    subst e
    refine .read ?_
    split
    · exact does_fail h _
    · refine .read ?_
      split
      · exact does_change (effect_modifyArray h a fun _ hx => forall_putAt hx trivial _ hv) trivial
      · exact does_fail h _
  · next t =>
    refine .read ?_
    split
    · exact does_crash
    · refine .read ((does_put h (h.hash t) hi hv).bind fun t' s' _ => ?_)
      rintro ⟨rfl, ht⟩
      exact does_change (effect_modifyHash h t fun _ _ => ht) trivial
  · exact .read (does_fail h _)

theorem does_elements (v : Value) :
    Does W s (elements v) fun es s' => es.Known s' := by
  unfold elements
  split
  · next a => exact .read (does_pure h fun v hv => h.array a v (Array.mem_toList_iff.mp hv))
  · exact does_pure h trivial
  · next t =>
    refine .read ((does_each h ?_).bind fun vs s' e hv => does_pure e.sound hv)
    rintro ⟨k, w⟩ hp s' e
    have hkw := HashTable.Forall.pairs (h.hash t) (k, w) hp
    refine does_newArray e.sound fun x hx => ?_
    rcases List.mem_cons.mp (List.mem_toArray.mp hx) with rfl | hx
    · exact hkw.1.grows e.grows
    · rw [List.mem_singleton.mp hx]; exact hkw.2.grows e.grows
  · exact .read (does_fail h _)

/-! ## Operators -/

theorem does_integer (operation : IntegerOperation) (n : Int) :
    Answers W s (integer operation n) := by
  unfold integer
  split
  · exact does_pure h trivial
  · exact does_fail h _

theorem does_badOperands {α : Type} {Q : α → Store → Prop} (operator : String)
    (left right : Value) : Does W s (badOperands operator left right) Q :=
  .read (.read (does_fail h _))

theorem does_realOperation (operator : String) (op : Float → Float → Float)
    (left right : Value) : Answers W s (Value.realOperation operator op left right) := by
  unfold Value.realOperation
  split
  · exact does_pure h trivial
  · exact does_badOperands h _ _ _

theorem does_sum (left right : Value) : Answers W s (left.add right) := by
  unfold Value.add
  split
  · exact .read (.read (does_pure h trivial))
  · split
    · exact does_integer h _ _
    · next a b _ =>
      refine .read (does_newArray h fun v hv => ?_)
      rcases Array.mem_append.mp hv with hv | hv
      · exact h.array a v hv
      · exact h.array b v hv
    · exact does_realOperation h _ _ _ _

theorem does_subtract (left right : Value) : Answers W s (left.subtract right) := by
  unfold Value.subtract
  split
  · exact does_integer h _ _
  · exact does_realOperation h _ _ _ _

theorem does_multiply (left right : Value) : Answers W s (left.multiply right) := by
  unfold Value.multiply
  split
  · exact does_integer h _ _
  · split
    · exact does_typeFail h _
    · split
      · exact does_crash
      · exact does_pure h trivial
  · exact does_realOperation h _ _ _ _

theorem does_divide (left right : Value) : Answers W s (left.divide right) := by
  unfold Value.divide
  split
  · split
    · exact does_fail h _
    · exact does_integer h _ _
  · exact does_badOperands h _ _ _

theorem does_arith (op : ArithOp) (left right : Value) :
    Answers W s (Value.arith op left right) := by
  cases op with
  | add => exact does_sum h left right
  | subtract => exact does_subtract h left right
  | multiply => exact does_multiply h left right
  | divide => exact does_divide h left right

theorem does_negate (v : Value) : Answers W s v.negate := by
  unfold Value.negate
  split
  · exact does_integer h _ _
  · exact does_pure h trivial
  · exact .read (does_fail h _)

theorem does_ordered (op : CompareOp) (left right : Value) :
    Answers W s (Value.ordered op left right) := by
  unfold Value.ordered
  split
  · exact does_pure h trivial
  · exact .read (.read (does_typeFail h _))

theorem does_compareBy (op : CompareOp) (left right : Value) :
    Answers W s (Value.compareBy op left right) := by
  cases op with
  | equal | notEqual => exact .read (does_pure h trivial)
  | less | greater | lessOrEqual | greaterOrEqual => exact does_ordered h _ left right

end

end ObjectLang
