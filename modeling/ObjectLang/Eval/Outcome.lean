import ObjectLang.Fault
import ObjectLang.Store

/-!
# Evaluation steps

A step takes a store and ends with a value or a fault, and with the store as it
then is: what was done before a fault stays done. A step that reaches its bound
is unfinished; without a bound, a step is that never ends, or one in which the
whole program crashes.
-/

namespace ObjectLang

/-- Why a step is unfinished. -/
inductive Halt where
  /-- It never ends, or has reached its bound. -/
  | endless
  /-- The program has crashed in the middle of it, with the store as it was then. -/
  | crash (s : Store)

inductive Outcome (α : Type) where
  | value (a : α) (s : Store)
  | fault (f : Fault) (s : Store)
  | unfinished {halt : Halt}

namespace Outcome

variable {α : Type}

@[match_pattern] abbrev endless : Outcome α := @unfinished α .endless

@[match_pattern] abbrev crash (s : Store) : Outcome α := @unfinished α (.crash s)

/-- Whether no larger bound can change the outcome. -/
def isFinal : Outcome α → Bool
  | endless => false
  | _ => true

end Outcome

/-- The first number from `n` on that satisfies `p`. -/
def firstFrom (p : Nat → Bool) (n : Nat) : Option Nat :=
  repeatM (fun k => if p k then some (.inr k) else some (.inl (k + 1))) n

def Eval (α : Type) : Type := Store → Outcome α

namespace Eval

variable {α β : Type}

@[inline] protected def pure (a : α) : Eval α := fun s => .value a s

@[inline] protected def bind (x : Eval α) (f : α → Eval β) : Eval β := fun s =>
  match x s with
  | .value a s => f a s
  | .fault e s => .fault e s
  | @Outcome.unfinished _ halt => @Outcome.unfinished _ halt

instance : Monad Eval where
  pure := Eval.pure
  bind := Eval.bind

def endless : Eval α := fun _ => .endless

/-- The whole program crashes, and nothing can be done about it. -/
def crash : Eval α := fun s => .crash s

/-- The outcome of `x` under the first bound from `n` on that is large enough for it. -/
def underBound (x : Nat → Eval α) (n : Nat) : Eval α := fun s =>
  match x n s with
  | .endless =>
    match firstFrom (fun bound => (x bound s).isFinal) n with
    | some bound => x bound s
    | none => .endless
  | o => o

def fail (f : Fault) : Eval α := fun s => .fault f s

def typeFail (f : TypeFault) : Eval α := fail (.type f)

@[inline] def read (f : Store → α) : Eval α := fun s => .value (f s) s

@[inline] def change (f : Store → Store) : Eval Unit := fun s => .value () (f s)

@[inline] def add (f : Store → α × Store) : Eval α := fun s =>
  match f s with
  | (a, s) => .value a s

/-- Adds the results of a step for each element to `done`, in order. -/
def eachOnto (step : α → Eval β) (done : Array β) : List α → Eval (Array β)
  | [] => pure done
  | a :: rest => do
    let b ← step a
    eachOnto step (done.push b) rest

def each (step : α → Eval β) (l : List α) : Eval (List β) := do
  let bs ← eachOnto step #[] l
  pure bs.toList

/-- Adds the results of a step for `count` consecutive integers to `done`, in order. -/
def eachIntegerOnto (step : Int → Eval β) :
    (done : Array β) → (count : Nat) → (lower : Int) → Eval (Array β)
  | done, 0, _ => pure done
  | done, count + 1, lower => do
    let b ← step lower
    eachIntegerOnto step (done.push b) count (lower + 1)

def visit (step : α → Eval Unit) : List α → Eval Unit
  | [] => pure ()
  | a :: rest => do
    step a
    visit step rest

/-- Runs a step for `count` consecutive integers from `lower` on. -/
def visitIntegers (step : Int → Eval Unit) : (count : Nat) → (lower : Int) → Eval Unit
  | 0, _ => pure ()
  | count + 1, lower => do
    step lower
    visitIntegers step count (lower + 1)

end Eval

end ObjectLang
