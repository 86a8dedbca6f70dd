import ObjectLang.Proofs.Store.Policy

/-!
# Steps that uphold a policy

A step upholds a policy if it leaves a store that obeys it whenever it starts in one, and ends in
no fault that the policy rules out. Here are the rules by which this passes through the ways of
putting steps together, and the proofs for every step that carries out no task.
-/

namespace ObjectLang

variable {G : Policy}

namespace Eval

variable {α β : Type}

/-- Run on a store that obeys the policy, the step leaves one that does and ends in no fault that
is ruled out, and its value satisfies `Q`. -/
def Upholds (G : Policy) (x : Eval α) (Q : α → Prop) : Prop :=
  ∀ s, s.Obeys G →
    match x s with
    | .value a s' => s'.Obeys G ∧ Q a
    | .fault f s' => s'.Obeys G ∧ G.fault f
    | .unfinished => True

/-- The step upholds the policy, and its value does not matter. -/
abbrev Passes (G : Policy) (x : Eval α) : Prop :=
  Upholds G x fun _ => True

/-- The step upholds the policy, and its value obeys it too. -/
abbrev Yields (G : Policy) (x : Eval Value) : Prop :=
  Upholds G x (Value.Obeys G)

/-! ## Single steps -/

section
variable {Q : α → Prop}

theorem upholds_endless : Upholds G (endless : Eval α) Q :=
  fun _ _ => trivial

theorem upholds_crash : Upholds G (crash : Eval α) Q :=
  fun _ _ => trivial

theorem upholds_pure {a : α} (q : Q a) : Upholds G (pure a) Q :=
  fun _ h => ⟨h, q⟩

theorem upholds_fault {f : Fault} (hf : G.fault f) : Upholds G (fail f : Eval α) Q :=
  fun _ h => ⟨h, hf⟩

theorem upholds_fail {f : Fault} (hf : f.Sensible) : Upholds G (fail f : Eval α) Q :=
  upholds_fault (G.sensible hf)

theorem upholds_read {g : Store → α} (q : ∀ s, s.Obeys G → Q (g s)) : Upholds G (read g) Q :=
  fun s h => ⟨h, q s h⟩

theorem upholds_change {g : Store → Store} (hg : ∀ s, s.Obeys G → (g s).Obeys G) :
    Passes G (change g) :=
  fun s h => ⟨hg s h, trivial⟩

theorem upholds_add {g : Store → α × Store} (hg : ∀ s, s.Obeys G → (g s).2.Obeys G) :
    Passes G (Eval.add g) :=
  fun s h => ⟨hg s h, trivial⟩

end

theorem Upholds.passes {x : Eval α} {P : α → Prop} (h : Upholds G x P) : Passes G x := by
  intro s hs
  have both := h s hs
  cases e : x s with
  | value a s' => rw [e] at both; exact ⟨both.1, trivial⟩
  | fault f s' => rw [e] at both; exact both
  | unfinished => trivial

/-! ## Steps in sequence -/

section
variable {Q : β → Prop}

theorem Upholds.bind {x : Eval α} {k : α → Eval β} {P : α → Prop} (hx : Upholds G x P)
    (hk : ∀ a, P a → Upholds G (k a) Q) : Upholds G (x >>= k) Q := by
  intro s h
  change match Eval.bind x k s with
    | .value b s' => s'.Obeys G ∧ Q b | .fault f s' => s'.Obeys G ∧ G.fault f | .unfinished => True
  have hs := hx s h
  unfold Eval.bind
  cases e : x s with
  | value a s' => rw [e] at hs; exact hk a hs.2 s' hs.1
  | fault f s' => rw [e] at hs; exact hs
  | unfinished => trivial

theorem Upholds.then {x : Eval α} {k : α → Eval β} (hx : Passes G x) (hk : ∀ a, Upholds G (k a) Q) :
    Upholds G (x >>= k) Q :=
  hx.bind fun a _ => hk a

/-- What is read is known to come from a store that obeys the policy. -/
theorem Upholds.read {g : Store → α} {k : α → Eval β}
    (hk : ∀ s, s.Obeys G → Upholds G (k (g s)) Q) : Upholds G (read g >>= k) Q :=
  fun s h => hk s h s h

theorem Upholds.change {g : Store → Store} {k : Unit → Eval β} (hg : ∀ s, s.Obeys G → (g s).Obeys G)
    (hk : Upholds G (k ()) Q) : Upholds G (change g >>= k) Q :=
  (upholds_change hg).then fun _ => hk

theorem Upholds.add {g : Store → α × Store} {k : α → Eval β} (hg : ∀ s, s.Obeys G → (g s).2.Obeys G)
    (hk : ∀ a, Upholds G (k a) Q) : Upholds G (Eval.add g >>= k) Q :=
  (upholds_add hg).then hk

end

/-! ## Steps for each element -/

theorem upholds_eachOnto {step : α → Eval Value} {l : List α} (hstep : ∀ a ∈ l, Yields G (step a)) :
    ∀ {done : Array Value}, (∀ v ∈ done, v.Obeys G) →
      Upholds G (eachOnto step done l) fun vs => ∀ v ∈ vs, v.Obeys G := by
  induction l with
  | nil => exact fun hd => upholds_pure hd
  | cons a l ih =>
    refine fun hd => (hstep a List.mem_cons_self).bind fun v hv => ?_
    refine ih (fun b hb => hstep b (List.mem_cons_of_mem _ hb)) fun w hw => ?_
    rcases Array.mem_push.mp hw with hw | rfl
    · exact hd w hw
    · exact hv

theorem upholds_each {step : α → Eval Value} {l : List α} (hstep : ∀ a ∈ l, Yields G (step a)) :
    Upholds G (each step l) fun vs => ∀ v ∈ vs, v.Obeys G :=
  (upholds_eachOnto hstep (by simp)).bind fun _ hv =>
    upholds_pure fun v hm => hv v (Array.mem_toList_iff.mp hm)

theorem upholds_eachIntegerOnto {step : Int → Eval Value} (hstep : ∀ n, Yields G (step n)) :
    ∀ {count : Nat} {done : Array Value} {lower : Int}, (∀ v ∈ done, v.Obeys G) →
      Upholds G (eachIntegerOnto step done count lower) fun vs => ∀ v ∈ vs, v.Obeys G
  | 0, _, _, hd => upholds_pure hd
  | _ + 1, _, _, hd => by
    refine (hstep _).bind fun v hv => upholds_eachIntegerOnto hstep fun w hw => ?_
    rcases Array.mem_push.mp hw with hw | rfl
    · exact hd w hw
    · exact hv

theorem upholds_visit {step : α → Eval Unit} :
    ∀ {l : List α}, (∀ a ∈ l, Passes G (step a)) → Passes G (visit step l)
  | [], _ => upholds_pure trivial
  | a :: _, hstep => (hstep a List.mem_cons_self).then fun _ =>
    upholds_visit fun b hb => hstep b (List.mem_cons_of_mem _ hb)

theorem upholds_visitIntegers {step : Int → Eval Unit} (hstep : ∀ n, Passes G (step n)) :
    ∀ {count : Nat} {lower : Int}, Passes G (visitIntegers step count lower)
  | 0, _ => upholds_pure trivial
  | _ + 1, _ => (hstep _).then fun _ => upholds_visitIntegers hstep

end Eval

open Eval

def Elements.Obeys (G : Policy) : Elements → Prop
  | .values vs => ∀ v ∈ vs, v.Obeys G
  | .integers _ _ => True

theorem upholds_elementsVisit {step : Value → Eval Unit}
    (hstep : ∀ v, v.Obeys G → Passes G (step v)) {es : Elements} (he : es.Obeys G) :
    Passes G (es.visit step) := by
  cases es with
  | values vs => exact upholds_visit fun v hv => hstep v (he v hv)
  | integers lower count => exact upholds_visitIntegers fun n => hstep (intValue n) trivial

theorem upholds_elementsMap {step : Value → Eval Value}
    (hstep : ∀ v, v.Obeys G → Yields G (step v)) {es : Elements} (he : es.Obeys G) :
    Upholds G (es.map step) fun vs => ∀ v ∈ vs, v.Obeys G := by
  cases es with
  | values vs => exact upholds_eachOnto (fun v hv => hstep v (he v hv)) (by simp)
  | integers lower count =>
    exact upholds_eachIntegerOnto (fun n => hstep (intValue n) trivial) (by simp)

theorem Elements.Obeys.toArray {es : Elements} (he : es.Obeys G) :
    ∀ v ∈ es.toArray, v.Obeys G := by
  cases es with
  | values vs => exact fun v hv => he v (List.mem_toArray.mp hv)
  | integers lower count =>
    intro v hv
    obtain ⟨i, rfl⟩ := Array.mem_ofFn.mp hv
    trivial

/-! ## Checks of receivers and arguments -/

theorem upholds_checkArity (n : String) (expected : Nat) (args : List Value) :
    Passes G (checkArity n expected args) := by
  unfold checkArity
  split
  · exact upholds_pure trivial
  · exact upholds_fail trivial

theorem upholds_blockArgument (method : String) (args : List Value) :
    Passes G (blockArgument method args) := by
  unfold blockArgument
  split
  · exact upholds_pure trivial
  · exact upholds_fail trivial

theorem upholds_noMethod {α : Type} {Q : α → Prop} (n : String) (receiver : Value) :
    Upholds G (noMethod n receiver) Q :=
  .read fun _ _ => upholds_fail trivial

theorem upholds_notNumeric {α : Type} {Q : α → Prop} (method : String) (v : Value) :
    Upholds G (notNumeric method v) Q :=
  .read fun _ _ => upholds_fail trivial

theorem upholds_expectInt (method : String) (v : Value) : Passes G (expectInt method v) := by
  unfold expectInt
  split
  · exact upholds_pure trivial
  · exact upholds_notNumeric _ _

theorem upholds_expectClass (method : String) (v : Value) : Passes G (expectClass method v) := by
  unfold expectClass
  split
  · exact upholds_pure trivial
  · exact upholds_noMethod _ _

theorem upholds_nameArgument (v : Value) : Passes G (nameArgument v) := by
  unfold nameArgument
  split
  · exact upholds_pure trivial
  · exact upholds_pure trivial
  · exact .read fun _ _ => upholds_fail trivial

theorem upholds_expectClassOf (f : FrameId) (v : Value) : Passes G (expectClassOf f v) := by
  refine .read fun s _ => ?_
  split
  · exact upholds_pure trivial
  · exact .read fun _ _ => upholds_fail trivial

/-! ## Collections -/

theorem upholds_newArray {items : Array Value} (hi : ∀ v ∈ items, v.Obeys G) :
    Yields G (newArray items) :=
  fun _ h => ⟨h.addArray hi, G.fresh h.arrays⟩

theorem upholds_newSymbols (names : List String) : Yields G (newSymbols names) := by
  refine upholds_newArray fun v hv => ?_
  obtain ⟨n, _, rfl⟩ := List.mem_map.mp (List.mem_toArray.mp hv)
  trivial

/-- What keeps a value from being a hash key is never a tree. -/
theorem hashKey_sensible {s : Store} {v : Value} {t : TypeFault} (e : s.hashKey v = .error t) :
    (Fault.type t).Sensible := by
  unfold Store.hashKey at e
  cases found : s.convert v with
  | ok k => rw [found] at e; cases e
  | error f => rw [found] at e; cases e; cases f <;> trivial

theorem upholds_hashKey (v : Value) : Passes G (Eval.hashKey v) := by
  refine .read fun s _ => ?_
  split
  · exact upholds_pure trivial
  · next f e => exact upholds_fail (hashKey_sensible e)

theorem upholds_find {t : HashTable} (ht : t.Obeys G) (key : Value) :
    Upholds G (t.find key) fun found => ∀ v, found = some v → v.Obeys G :=
  (upholds_hashKey key).then fun _ => upholds_pure fun _ hv => ht.get? trivial hv

theorem upholds_put {t : HashTable} (ht : t.Obeys G) {key v : Value} (hk : key.Obeys G)
    (hv : v.Obeys G) : Upholds G (t.put key v) (HashTable.Obeys G) :=
  (upholds_hashKey key).then fun k => upholds_pure (ht.insert k hk hv)

theorem upholds_indexInteger (v : Value) : Passes G (indexInteger v) := by
  unfold indexInteger
  split
  · exact upholds_pure trivial
  · exact .read fun _ _ => upholds_fail trivial

theorem upholds_getIndex (target index : Value) : Yields G (target.getIndex index) := by
  unfold Value.getIndex
  split
  · refine (upholds_indexInteger index).then fun i => .read fun s h => ?_
    refine upholds_pure (Value.obeys_getD fun v hv => ?_)
    obtain ⟨p, _, hp⟩ := Option.bind_eq_some_iff.mp hv
    exact h.array _ v (Array.mem_of_getElem? hp)
  · refine .read fun s h => (upholds_find (h.hash _) index).bind fun found hf => ?_
    exact upholds_pure (Value.obeys_getD hf)
  · refine (upholds_indexInteger index).then fun i => upholds_pure ?_
    cases (position? i _).bind _ <;> trivial
  · exact .read fun _ _ => upholds_fail trivial

theorem upholds_setIndex {target index v : Value} (ht : target.Obeys G) (hi : index.Obeys G)
    (hv : v.Obeys G) : Passes G (target.setIndex index v) := by
  unfold Value.setIndex
  split
  · refine (upholds_indexInteger index).then fun i => .read fun s _ => ?_
    split
    · exact upholds_fail trivial
    · refine .read fun s _ => ?_
      split
      · exact upholds_change fun _ h => h.modifyArray ht fun _ hx => forall_putAt hx trivial _ hv
      · exact upholds_fail trivial
  · refine .read fun s _ => ?_
    split
    · exact upholds_crash
    · refine .read fun s h => (upholds_put (h.hash _) hi hv).bind fun t ht => ?_
      exact upholds_change fun _ h => h.setHash _ ht
  · exact .read fun _ _ => upholds_fail trivial

theorem upholds_elements (v : Value) : Upholds G (elements v) (Elements.Obeys G) := by
  unfold elements
  split
  · exact .read fun s h => upholds_pure fun v hv => h.array _ v (Array.mem_toList_iff.mp hv)
  · exact upholds_pure trivial
  · refine .read fun s h => (upholds_each ?_).bind fun vs hv => upholds_pure hv
    rintro ⟨k, w⟩ hp
    have both := (h.hash _).pairs (k, w) hp
    refine upholds_newArray fun x hx => ?_
    rcases List.mem_cons.mp (List.mem_toArray.mp hx) with rfl | hx
    · exact both.1
    · rw [List.mem_singleton.mp hx]; exact both.2
  · exact .read fun _ _ => upholds_fail trivial

/-! ## Operators -/

theorem upholds_integer (operation : IntegerOperation) (n : Int) :
    Yields G (integer operation n) := by
  unfold integer
  split
  · exact upholds_pure trivial
  · exact upholds_fail trivial

theorem upholds_realOperation (operator : String) (op : Float → Float → Float)
    (left right : Value) : Yields G (Value.realOperation operator op left right) := by
  unfold Value.realOperation
  split
  · exact upholds_pure trivial
  · exact .read fun _ _ => .read fun _ _ => upholds_fail trivial

theorem upholds_sum (left right : Value) : Yields G (left.add right) := by
  unfold Value.add
  split
  · exact .read fun _ _ => .read fun _ _ => upholds_pure trivial
  · split
    · exact upholds_integer _ _
    · refine .read fun s h => upholds_newArray fun v hv => ?_
      exact (Array.mem_append.mp hv).elim (h.array _ v) (h.array _ v)
    · exact upholds_realOperation _ _ _ _

theorem upholds_arith (op : ArithOp) (left right : Value) :
    Yields G (Value.arith op left right) := by
  cases op with
  | add => exact upholds_sum left right
  | subtract =>
    change Yields G (left.subtract right)
    unfold Value.subtract
    split
    · exact upholds_integer _ _
    · exact upholds_realOperation _ _ _ _
  | multiply =>
    change Yields G (left.multiply right)
    unfold Value.multiply
    split
    · exact upholds_integer _ _
    · split
      · exact upholds_fail trivial
      · split
        · exact upholds_crash
        · exact upholds_pure trivial
    · exact upholds_realOperation _ _ _ _
  | divide =>
    change Yields G (left.divide right)
    unfold Value.divide
    split
    · split
      · exact upholds_fail trivial
      · exact upholds_integer _ _
    · exact .read fun _ _ => .read fun _ _ => upholds_fail trivial

theorem upholds_negate (v : Value) : Yields G v.negate := by
  unfold Value.negate
  split
  · exact upholds_integer _ _
  · exact upholds_pure trivial
  · exact .read fun _ _ => upholds_fail trivial

theorem upholds_ordered (op : CompareOp) (left right : Value) :
    Yields G (Value.ordered op left right) := by
  unfold Value.ordered
  split
  · exact upholds_pure trivial
  · exact .read fun _ _ => .read fun _ _ => upholds_fail trivial

theorem upholds_compareBy (op : CompareOp) (left right : Value) :
    Yields G (Value.compareBy op left right) := by
  cases op with
  | equal | notEqual => exact .read fun _ _ => upholds_pure trivial
  | less | greater | lessOrEqual | greaterOrEqual => exact upholds_ordered _ left right

end ObjectLang
