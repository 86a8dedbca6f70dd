import ObjectLang.Proofs.Eval.Monotone
import ObjectLang.Proofs.Eval.UpholdsRules
import ObjectLang.Proofs.Store.Hidden

/-!
# Runs of loops

A loop takes a turn for each of its elements, in order, until one ends with a fault or does not end.
Whether it visits the elements of a collection or counts, and whether it keeps the values of its
turns or not, it runs over a list.
-/

namespace ObjectLang

open Eval

/-! ## Lists of values -/

instance : LawfulMonad Eval :=
  .mk' Eval
    (fun x => funext fun s => by
      change Eval.bind x (fun a => Eval.pure a) s = x s
      unfold Eval.bind
      cases x s <;> rfl)
    (fun _ _ => rfl)
    (fun x f g => funext fun s => by
      change Eval.bind (Eval.bind x f) g s = Eval.bind x (fun a => Eval.bind (f a) g) s
      unfold Eval.bind
      cases x s <;> rfl)

/-- The values that a loop visits, in order. -/
def Elements.list : Elements → List Value
  | values vs => vs
  | integers lower count => (List.range count).map fun i : Nat => intValue (lower + i)

section
variable {α β γ : Type}

theorem integers_succ (count : Nat) (lower : Int) : (Elements.integers lower (count + 1)).list =
    intValue lower :: (Elements.integers (lower + 1) count).list := by
  have next (i : Nat) : lower + ((i + 1 : Nat) : Int) = lower + 1 + i := by omega
  simp only [Elements.list, List.range_succ_eq_map, List.map_cons, List.map_map,
    Function.comp_def, Nat.succ_eq_add_one, next, Int.natCast_zero, Int.add_zero]

theorem eachIntegerOnto_eq (step : Value → Eval β) (count : Nat) (done : Array β) (lower : Int) :
    eachIntegerOnto (fun n => step (intValue n)) done count lower =
      eachOnto step done (Elements.integers lower count).list := by
  induction count generalizing done lower with
  | zero => rfl
  | succ count ih =>
    rw [integers_succ, eachIntegerOnto, eachOnto]
    exact congrArg _ (funext fun b => ih (done.push b) (lower + 1))

theorem visitIntegers_eq (step : Value → Eval Unit) (count : Nat) (lower : Int) :
    visitIntegers (fun n => step (intValue n)) count lower =
      visit step (Elements.integers lower count).list := by
  induction count generalizing lower with
  | zero => rfl
  | succ count ih => rw [integers_succ, visitIntegers, visit, ih]

theorem Elements.map_eq (es : Elements) (step : Value → Eval Value) :
    es.map step = eachOnto step #[] es.list := by
  cases es with
  | values vs => rfl
  | integers lower count => exact eachIntegerOnto_eq step count #[] lower

theorem Elements.visit_eq (es : Elements) (step : Value → Eval Unit) :
    es.visit step = Eval.visit step es.list := by
  cases es with
  | values vs => rfl
  | integers lower count => exact visitIntegers_eq step count lower

/-- To visit is to collect what a step gives for each element, and to forget it. -/
theorem visit_bind {step : α → Eval Unit} {turn : α → Eval β}
    (forgets : ∀ a, step a = turn a >>= fun _ => pure ()) (l : List α) (done : Array β)
    (k : Eval γ) : (visit step l >>= fun _ => k) = eachOnto turn done l >>= fun _ => k := by
  induction l generalizing done with
  | nil => rfl
  | cons a l ih =>
    rw [visit, eachOnto, forgets, bind_assoc, bind_assoc, bind_assoc]
    exact congrArg _ (funext fun b => ih (done.push b))

theorem Elements.toArray_eq (es : Elements) : es.toArray = es.list.toArray := by
  cases es with
  | values vs => rfl
  | integers lower count =>
    refine Array.ext (by simp [toArray, list]) fun i _ _ => ?_
    simp [toArray, list]

theorem Elements.size_eq (es : Elements) : es.size = es.list.length := by
  cases es with
  | values vs => rfl
  | integers lower count => simp [size, list]

/-! ## Without a bound -/

theorem limit_eachOnto {step : Nat → α → Eval β} {step' : α → Eval β}
    (h : ∀ a, Limit (fun fuel => step fuel a) (step' a)) (l : List α) (done : Array β) :
    Limit (fun fuel => eachOnto (step fuel) done l) (eachOnto step' done l) := by
  induction l generalizing done with
  | nil => exact limit_const _
  | cons a l ih => exact (h a).bind fun b => ih (done.push b)

theorem limit_visit {step : Nat → α → Eval Unit} {step' : α → Eval Unit}
    (h : ∀ a, Limit (fun fuel => step fuel a) (step' a)) (l : List α) :
    Limit (fun fuel => visit (step fuel) l) (visit step' l) := by
  induction l with
  | nil => exact limit_const _
  | cons a l ih => exact (h a).bind fun _ => ih

end

theorem limit_elementsVisit {step : Nat → Value → Eval Unit} {step' : Value → Eval Unit}
    (h : ∀ v, Limit (fun fuel => step fuel v) (step' v)) (es : Elements) :
    Limit (fun fuel => es.visit (step fuel)) (es.visit step') := by
  simp only [es.visit_eq]
  exact limit_visit h es.list

theorem limit_elementsMap {step : Nat → Value → Eval Value} {step' : Value → Eval Value}
    (h : ∀ v, Limit (fun fuel => step fuel v) (step' v)) (es : Elements) :
    Limit (fun fuel => es.map (step fuel)) (es.map step') := by
  simp only [es.map_eq]
  exact limit_eachOnto h es.list #[]

theorem limit_callBlock (p : ProcId) (args : List Value) :
    Limit (fun fuel => callBlock (perform fuel) p args) (callBlock performer p args) :=
  (limit_const _).bind fun _ => (limit_const _).bind fun _ => limit_perform _

/-! ## Elements -/

/-- What a loop visits. An entry of a hash is visited as an array of its key and its value. -/
inductive Element where
  | value (v : Value)
  | pair (a : ArrayId) (key value : Value)

namespace Element

/-- The value that stands for the element. -/
def toValue : Element → Value
  | value v => v
  | pair a _ _ => .array a

/-- The arguments for a block that is given the element, the parts of a pair if `spread`. -/
def arguments (spread : Bool) : Element → List Value
  | value v => [v]
  | pair a k v => if spread then [k, v] else [.array a]

/-- The array of a pair has the key and the value in it. -/
def Holds (s : Store) : Element → Prop
  | value _ => True
  | pair a k v => s.array a = #[k, v]

/-- Besides, no value refers to the array. -/
def Hidden (s : Store) : Element → Prop
  | value _ => True
  | pair a k v => s.Obeys (.hiding a #[k, v])

/-- To be given the element does not mean to be given the array. -/
structure Spares (x : Element) (a : ArrayId) : Prop where
  toValue : x.toValue ≠ .array a
  arguments : ∀ spread, ∀ v ∈ x.arguments spread, v ≠ .array a

def Apart (x : Element) : Element → Prop
  | value _ => True
  | pair a _ _ => x.Spares a

theorem Hidden.holds {s : Store} {x : Element} (h : x.Hidden s) : x.Holds s := by
  cases x with
  | value v => trivial
  | pair a k v => exact h.hidden_array

/-- A step that changes no hidden array of which it is not given a reference leaves the elements
hidden that are apart from its own. -/
theorem Hidden.after {α : Type} {step : Eval α} {s t : Store} {b : α} {x y : Element}
    (kept : ∀ a items, x.Spares a → Passes (.hiding a items) step)
    (apart : x.Apart y) (h : y.Hidden s) (e : step s = .value b t) : y.Hidden t := by
  cases y with
  | value v => trivial
  | pair a k v =>
    have both := kept a #[k, v] apart s h
    rw [e] at both
    exact both.1

end Element

/-! ## Turns -/

section
variable {β γ δ : Type} {turn : Element → Eval β} {s s' t : Store} {x : Element} {xs : List Element}
  {finish : List β → Store → Outcome γ} {o : Outcome γ} {b : β}

/-- There is a turn for each element, begun where the one before it has ended, and all end with
values. -/
inductive Completes (turn : Element → Eval β) : Store → List Element → List β → Store → Prop where
  | nil {s : Store} : Completes turn s [] [] s
  | cons {s s' t : Store} {x : Element} {xs : List Element} {b : β} {bs : List β}
      (holds : x.Holds s) (step : turn x s = .value b s') (rest : Completes turn s' xs bs t) :
      Completes turn s (x :: xs) (b :: bs) t

/-- The outcome of a loop over the elements: `finish` is reached when all turns are completed. The
first turn that does not end with a value is the last one. -/
inductive Iterates (turn : Element → Eval β) (s : Store) (xs : List Element)
    (finish : List β → Store → Outcome γ) : Outcome γ → Prop where
  | all {bs : List β} {t : Store} (turns : Completes turn s xs bs t) :
      Iterates turn s xs finish (finish bs t)
  | fails {before after : List Element} {x : Element} {bs : List β} {t t' : Store} {f : Fault}
      (split : xs = before ++ x :: after) (turns : Completes turn s before bs t)
      (holds : x.Holds t) (last : turn x t = .fault f t') :
      Iterates turn s xs finish (.fault f t')
  | halts {before after : List Element} {x : Element} {bs : List β} {t : Store} {halt : Halt}
      (split : xs = before ++ x :: after) (turns : Completes turn s before bs t)
      (holds : x.Holds t) (last : turn x t = @Outcome.unfinished β halt) :
      Iterates turn s xs finish (@Outcome.unfinished γ halt)

theorem Iterates.cons (holds : x.Holds s) (step : turn x s = .value b s')
    (h : Iterates turn s' xs (fun bs => finish (b :: bs)) o) :
    Iterates turn s (x :: xs) finish o := by
  cases h with
  | all turns => exact .all (.cons holds step turns)
  | fails split turns held last =>
    exact .fails (congrArg (x :: ·) split) (.cons holds step turns) held last
  | halts split turns held last =>
    exact .halts (congrArg (x :: ·) split) (.cons holds step turns) held last

/-- What comes behind the loop comes behind a loop that was completed. -/
theorem Iterates.bind {step : Eval γ} {k : γ → Eval δ} {g : List β → γ}
    (h : Iterates turn s xs (fun bs => .value (g bs)) (step s)) :
    Iterates turn s xs (fun bs => k (g bs)) ((step >>= k) s) := by
  generalize e : step s = o at h
  cases h with
  | all turns => rw [bind_of_value e]; exact .all turns
  | fails split turns holds last => rw [bind_of_fault e]; exact .fails split turns holds last
  | halts split turns holds last =>
    rw [bind_of_unfinished e]
    exact .halts split turns holds last

/-- The elements that are left stay hidden from each turn, so each is found as it was. -/
theorem iterates_eachOnto {step : Value → Eval β}
    (kept : ∀ x a items, x.Spares a → Passes (.hiding a items) (turn x)) {xs : List Element}
    (same : ∀ x ∈ xs, ∀ t, x.Holds t → step x.toValue t = turn x t)
    (apart : xs.Pairwise Element.Apart) (hidden : ∀ x ∈ xs, x.Hidden s) (done : Array β) :
    Iterates turn s xs (fun bs => .value (done ++ bs.toArray))
      (eachOnto step done (xs.map Element.toValue) s) := by
  induction xs generalizing s done with
  | nil =>
    have empty : eachOnto step done [] s = .value (done ++ ([] : List β).toArray) s := by
      rw [Array.append_empty]
      rfl
    exact empty ▸ .all .nil
  | cons x xs ih =>
    obtain ⟨apart_x, apart⟩ := List.pairwise_cons.mp apart
    obtain ⟨hidden_x, hidden⟩ := List.forall_mem_cons.mp hidden
    obtain ⟨same_x, same⟩ := List.forall_mem_cons.mp same
    have first := same_x s hidden_x.holds
    have split : x :: xs = [] ++ x :: xs := rfl
    rw [List.map_cons, eachOnto]
    cases e : turn x s with
    | value b t =>
      rw [bind_of_value (first.trans e)]
      refine .cons hidden_x.holds e ?_
      have left : ∀ y ∈ xs, y.Hidden t := fun y hy => (hidden y hy).after (kept x) (apart_x y hy) e
      have rest := ih same apart left (done.push b)
      simpa using rest
    | fault f t =>
      rw [bind_of_fault (first.trans e)]
      exact .fails split .nil hidden_x.holds e
    | unfinished =>
      rw [bind_of_unfinished (first.trans e)]
      exact .halts split .nil hidden_x.holds e

end

/-! ## Beginnings -/

/-- In the store `t`, to visit `es` is to visit the elements `xs`, and the arrays of pairs are
hidden as yet. -/
structure Elements.Lists (es : Elements) (t : Store) (xs : List Element) : Prop where
  list : es.list = xs.map Element.toValue
  apart : xs.Pairwise Element.Apart
  hidden : ∀ x ∈ xs, x.Hidden t

section
variable {β γ : Type} {t : Store} {es : Elements} {xs : List Element}

theorem Elements.lists_values {vs : List Value} (list : es.list = vs) :
    es.Lists t (vs.map .value) where
  list := by rw [list, List.map_map]; exact (List.map_id vs).symm
  apart := List.pairwise_map.mpr (List.pairwise_of_forall fun _ _ => trivial)
  hidden := List.forall_mem_map.mpr fun _ _ => trivial

variable {turn : Element → Eval β} {step : Value → Eval β} (h : es.Lists t xs)
  (kept : ∀ x a items, x.Spares a → Passes (.hiding a items) (turn x))
  (same : ∀ x ∈ xs, ∀ t, x.Holds t → step x.toValue t = turn x t)
include h kept same

theorem Elements.Lists.collects (k : Array β → Eval γ) :
    Iterates turn t xs (fun bs => k bs.toArray) ((eachOnto step #[] es.list >>= k) t) := by
  have all := iterates_eachOnto kept same h.apart h.hidden #[]
  simp only [Array.empty_append] at all
  exact h.list ▸ all.bind

theorem Elements.Lists.visits {forgetful : Value → Eval Unit}
    (forgets : ∀ v, forgetful v = step v >>= fun _ => pure ()) (k : Eval γ) :
    Iterates turn t xs (fun _ => k) ((es.visit forgetful >>= fun _ => k) t) := by
  rw [es.visit_eq, visit_bind forgets _ #[]]
  exact h.collects kept same fun _ => k

end

end ObjectLang
