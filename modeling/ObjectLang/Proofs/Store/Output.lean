import ObjectLang.Eval
import ObjectLang.Proofs.Store.Release

/-!
# The rest of the store

Nothing in a store is found by looking at what has been printed, and nothing but printing
changes it.
-/

namespace ObjectLang.Store

/-- The same store with other output. -/
def withOutput (s : Store) (o : Output) : Store :=
  { s with output := o }

variable (s : Store) (o : Output)

/-! ## Values in the store -/

@[simp] theorem inspectAtom_withOutput : (s.withOutput o).inspectAtom = s.inspectAtom := by
  funext v
  cases v with
  | bool b => cases b <;> rfl
  | _ => rfl

@[simp] theorem inspectIn_withOutput (fuel : Nat) :
    (s.withOutput o).inspectIn fuel = s.inspectIn fuel := by
  induction fuel with
  | zero => funext path v; exact congrFun (s.inspectAtom_withOutput o) v
  | succ fuel ih =>
    funext path v
    simp only [inspectIn, ih, inspectAtom_withOutput]
    rfl

@[simp] theorem inspect_withOutput : (s.withOutput o).inspect = s.inspect := by
  funext v
  exact congrFun (congrFun (s.inspectIn_withOutput o _) _) v

@[simp] theorem display_withOutput : (s.withOutput o).display = s.display := by
  funext v
  simp only [display, inspect_withOutput]

@[simp] theorem linesIn_withOutput (fuel : Nat) :
    (s.withOutput o).linesIn fuel = s.linesIn fuel := by
  induction fuel with
  | zero => funext path v; simp only [linesIn, display_withOutput]
  | succ fuel ih =>
    funext path v
    simp only [linesIn, ih, display_withOutput]
    rfl

@[simp] theorem putsText_withOutput : (s.withOutput o).putsText = s.putsText := by
  have lines : (s.withOutput o).lines = s.lines := funext fun v =>
    congrFun (congrFun (s.linesIn_withOutput o _) _) v
  funext args
  simp only [putsText, lines]

@[simp] theorem sameIn_withOutput (fuel : Nat) :
    (s.withOutput o).sameIn fuel = s.sameIn fuel := by
  induction fuel with
  | zero => rfl
  | succ fuel ih =>
    funext path v w
    simp only [sameIn, ih]
    rfl

@[simp] theorem same_withOutput : (s.withOutput o).same = s.same := by
  funext v w
  exact congrFun (congrFun (congrFun (s.sameIn_withOutput o _) _) v) w

@[simp] theorem keyIn_withOutput (fuel : Nat) :
    (s.withOutput o).keyIn fuel = s.keyIn fuel := by
  induction fuel with
  | zero => rfl
  | succ fuel ih =>
    funext path v
    simp only [keyIn, ih]
    rfl

@[simp] theorem convert_withOutput : (s.withOutput o).convert = s.convert := by
  funext v
  exact congrFun (congrFun (s.keyIn_withOutput o _) _) v

@[simp] theorem hashKey_withOutput : (s.withOutput o).hashKey = s.hashKey := by
  have shown (f : KeyFault) : f.shown (s.withOutput o) = f.shown s := by
    cases f <;> simp only [KeyFault.shown, inspect_withOutput]
  funext v
  simp only [hashKey, convert_withOutput, shown]

@[simp] theorem readsIn_withOutput (h : HashId) (fuel : Nat) :
    (s.withOutput o).readsIn h fuel = s.readsIn h fuel := by
  induction fuel with
  | zero => rfl
  | succ fuel ih =>
    funext path v
    simp only [readsIn, ih]
    rfl

@[simp] theorem readsForKey_withOutput : (s.withOutput o).readsForKey = s.readsForKey := by
  funext h v
  have reads (w : Value) : (s.withOutput o).reads h w = s.reads h w :=
    congrFun (congrFun (s.readsIn_withOutput o h _) _) w
  simp only [readsForKey, convert_withOutput, reads]

/-! ## Changes -/

theorem modifyObjectOf_withOutput (v : Value) (g : ObjectData → ObjectData) :
    (s.withOutput o).modifyObjectOf v g = (s.modifyObjectOf v g).withOutput o := by
  cases v <;> rfl

theorem bind_withOutput (f : FrameId) (n : String) (v : Value) :
    (s.withOutput o).bind f n v = (s.bind f n v).withOutput o := by
  unfold Store.bind
  have same : ((s.withOutput o).frame f).enclosing = (s.frame f).enclosing := rfl
  rw [same]
  cases (s.frame f).enclosing with
  | none => rfl
  | some c => by_cases h : isConstant n <;> simp only [h, if_true] <;> rfl

theorem addSingleton_withOutput (v : Value) (owner : String) :
    (s.withOutput o).addSingleton v owner = (s.addSingleton v owner).withOutput o := by
  unfold addSingleton
  have same : (s.withOutput o).objectOf? v = s.objectOf? v := rfl
  rw [same]
  cases s.objectOf? v with
  | none => rfl
  | some d =>
    cases h : d.singleton with
    | some c => simp only [h]
    | none => simp only [h]; exact modifyObjectOf_withOutput (s.addClass _).2 o v _

theorem addDefinition_withOutput (f : FrameId) (container : Option ClassId) (n : String)
    (kind : ClassKind) (metaclass superclass : ClassId) :
    (s.withOutput o).addDefinition f container n kind metaclass superclass =
      ((s.addDefinition f container n kind metaclass superclass).1,
        (s.addDefinition f container n kind metaclass superclass).2.withOutput o) := by
  cases container <;> rfl

theorem release_withOutput (f : FrameId) (kept : List Value) :
    (s.withOutput o).release f kept = (s.release f kept).withOutput o := by
  have held : (s.withOutput o).held = s.held :=
    held_congr (funext fun e => by cases e <;> rfl) rfl
  have loose : (s.withOutput o).loose f = s.loose f := rfl
  have unheld : (s.withOutput o).unheld f kept = s.unheld f kept := by
    rw [Store.unheld, Store.unheld, loose, held]
  rw [release, release, unheld]
  rfl

end ObjectLang.Store
