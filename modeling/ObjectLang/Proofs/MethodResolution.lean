import Mathlib
import ObjectLang.Proofs.ObjectGraph

/-!
# Finding methods

A method is looked up along the resolution order of its receiver: the class of its own methods if
there is one, its class, and the superclasses of that. To install a method changes the lookups that
come to its table and to no earlier one with a method of this name.
-/

namespace ObjectLang

namespace Store

variable {s : Store} {f : FrameId} {v : Value} {c d : ClassId} {n k : String} {m : Callable}

/-! ## Resolution orders -/

/-- The classes whose tables are searched for the methods of `v`, as seen from the frame. Where no
class is registered for its kind, data has no methods. -/
inductive Resolves (s : Store) (f : FrameId) (v : Value) : List ClassId → Prop where
  | linked {o : ObjectData} {l : List ClassId} : s.objectOf? v = some o →
      Walk s.superclass? o.cls l → Resolves s f v (o.singleton.toList ++ l)
  | builtin {n : String} {c : ClassId} {l : List ClassId} : v.builtinClass? = some n →
      s.registeredClass? f n = some c → Walk s.superclass? c l → Resolves s f v l
  | unregistered {n : String} : v.builtinClass? = some n → s.registeredClass? f n = none →
      Resolves s f v []

def resolution (s : Store) (f : FrameId) (v : Value) : List ClassId :=
  match s.objectOf? v with
  | some o => o.singleton.toList ++ s.lineage o.cls
  | none => (v.builtinClass?.bind (s.registeredClass? f)).elim [] s.lineage

/-- The method in the table of the class itself. -/
def ownMethod? (s : Store) (n : String) (c : ClassId) : Option Callable :=
  (s.cls c).methods.get? n

/-- Whether the receiver has the method by being an ordinary class, whatever the tables hold. -/
def answersNew (s : Store) : Value → String → Bool
  | .cls c, n => n = "new" ∧ (s.cls c).kind = .cls
  | _, _ => false

/-- The class is in the order, and no table in front of it holds a method of this name. -/
def Exposes (s : Store) (order : List ClassId) (c : ClassId) (n : String) : Prop :=
  ∃ before after, order = before ++ c :: after ∧ ∀ d ∈ before, s.ownMethod? n d = none

theorem objectMethod?_eq (o : ObjectData) (n : String) :
    s.objectMethod? o n = (o.singleton.toList ++ s.lineage o.cls).findSome? (s.ownMethod? n) := by
  rw [List.findSome?_append, objectMethod?]
  cases o.singleton with
  | none => rfl
  | some c =>
    rw [Option.toList_some, List.findSome?_singleton]
    rfl

theorem method?_eq (s : Store) (f : FrameId) (v : Value) (n : String) :
    s.method? f v n = if s.answersNew v n then some (.builtin .new)
      else (s.resolution f v).findSome? (s.ownMethod? n) := by
  cases v with
  | object o => exact objectMethod?_eq _ n
  | cls c =>
    rw [method?, classMethod?, objectMethod?_eq]
    simp only [answersNew, decide_eq_true_eq]
    rfl
  | _ =>
    rw [method?, classOf?, answersNew, if_neg (by decide)]
    · simp only [resolution, objectOf?]
      cases Option.bind _ (s.registeredClass? f) <;> rfl
    -- The receiver is neither an object nor a class.
    all_goals
      intro _ h
      cases h

/-! ## The order is that of the links -/

/-- Also a reference that names no entry reads as one that is linked to the first class. -/
theorem SoundIn.linkedClass (h : s.Sound) (first : s.HasClass objectClass) {o : ObjectData}
    (e : s.objectOf? v = some o) :
    s.HasClass o.cls ∧ ∀ c, o.singleton = some c → s.Singleton o.cls c := by
  cases v with
  | object r =>
    cases e
    by_cases hr : s.HasObject r
    · exact ⟨(h.object hr).1.cls.has, (h.object hr).1.singleton⟩
    · rw [Store.object, Array.getElem?_eq_none (Nat.le_of_not_lt hr)]
      exact ⟨first, fun _ none => by cases none⟩
  | cls r =>
    cases e
    by_cases hr : s.HasClass r
    · exact ⟨(h.cls hr).object.cls.has, (h.cls hr).object.singleton⟩
    · rw [Store.cls, Array.getElem?_eq_none (Nat.le_of_not_lt hr)]
      exact ⟨first, fun _ none => by cases none⟩
  | _ => cases e

theorem SoundIn.resolves (h : s.Sound) (first : s.HasClass objectClass) (f : FrameId) (v : Value) :
    s.Resolves f v (s.resolution f v) := by
  unfold resolution
  cases e : s.objectOf? v with
  | some o => exact .linked e (h.lineage_walk (h.linkedClass first e).1)
  | none =>
    obtain ⟨n, hn⟩ : ∃ n, v.builtinClass? = some n := by
      cases v with
      | object _ | cls _ => cases e
      | bool b => cases b <;> exact ⟨_, rfl⟩
      | _ => exact ⟨_, rfl⟩
    rw [hn, Option.bind_some]
    cases found : s.registeredClass? f n with
    | some c => exact .builtin hn found (h.lineage_walk (h.registeredClass? found).has)
    | none => exact .unregistered hn found

/-- The class of an object's own methods stands in front of the object's class in its lineage. -/
theorem SoundIn.lineage_singleton (h : s.Sound) {owner : ClassId} (ho : s.HasClass owner)
    (hc : s.Singleton owner c) : s.lineage c = c :: s.lineage owner :=
  (h.lineage_walk hc.has).unique (.step hc.superclass (h.lineage_walk ho))

theorem SoundIn.instanceMethod?_singleton (h : s.Sound) (first : s.HasClass objectClass)
    {o : ObjectData} (e : s.objectOf? v = some o) (hc : o.singleton = some c) (f : FrameId)
    (n : String) : s.instanceMethod? c n = (s.resolution f v).findSome? (s.ownMethod? n) := by
  obtain ⟨has, single⟩ := h.linkedClass first e
  rw [Store.instanceMethod?, h.lineage_singleton has (single c hc)]
  simp only [resolution, e, hc]
  rfl

/-! ## Installing a method -/

/-- Of a class only the methods change. -/
theorem cls_setMethod (c : ClassId) (n : String) (m : Callable) (d : ClassId) :
    (s.setMethod c n m).cls d =
      { s.cls d with methods := ((s.setMethod c n m).cls d).methods } := by
  simp only [setMethod, modifyClass, cls, Array.getElem?_modify]
  split
  · cases s.classes[d.index]? <;> rfl
  · rfl

/-- Only the table of the one class changes, and only under the one name. -/
theorem ownMethod?_setMethod (hd : s.HasClass d) :
    (s.setMethod c n m).ownMethod? k d = if d = c ∧ k = n then some m else s.ownMethod? k d := by
  by_cases e : d = c
  · subst e
    simp [ownMethod?, setMethod, cls_modifyClass hd, Table.get?_set]
  · have apart : c.index ≠ d.index := fun same => e (congrArg ClassId.mk same).symm
    simp [ownMethod?, setMethod, modifyClass, cls, Array.getElem?_modify, apart, e]

theorem superclass_setMethod (c : ClassId) (n : String) (m : Callable) :
    (s.setMethod c n m).superclass? = s.superclass? := by
  funext d
  rw [superclass?, cls_setMethod]

theorem resolution_setMethod (c : ClassId) (n : String) (m : Callable) (f : FrameId) (v : Value) :
    (s.setMethod c n m).resolution f v = s.resolution f v := by
  have lineage : (s.setMethod c n m).lineage = s.lineage :=
    funext fun d => congrArg (chain · (d.index + 1) d) (superclass_setMethod c n m)
  have object : (s.setMethod c n m).objectOf? v = s.objectOf? v := by
    cases v with
    | cls d => rw [objectOf?, cls_setMethod, objectOf?]
    | _ => rfl
  rw [resolution, resolution, object, lineage]
  rfl

theorem answersNew_setMethod (c : ClassId) (n : String) (m : Callable) :
    (s.setMethod c n m).answersNew v k = s.answersNew v k := by
  cases v with
  | cls d => rw [answersNew, answersNew, cls_setMethod]
  | _ => rfl

/-! ## Lookups that change -/

/-- Every class of a resolution order is a class of the store. -/
theorem Resolves.hasClass (h : s.Sound) (first : s.HasClass objectClass) {order : List ClassId}
    (r : s.Resolves f v order) : ∀ d ∈ order, s.HasClass d := by
  have up : ∀ {c : ClassId} {l : List ClassId}, s.HasClass c → Walk s.superclass? c l →
      ∀ d ∈ l, s.HasClass d := fun hc w =>
    w.forall (fun x y hx e => (h.superclass_lt x y hx e).2) hc
  cases r with
  | linked e w =>
    obtain ⟨has, single⟩ := h.linkedClass first e
    intro d hd
    rcases List.mem_append.mp hd with hd | hd
    · exact (single d (Option.mem_toList.mp hd)).has
    · exact up has w d hd
  | builtin _ found w => exact up (h.registeredClass? found).has w
  | unregistered _ _ => exact nofun

theorem exposes_cons {order : List ClassId} :
    s.Exposes (d :: order) c n ↔ d = c ∨ s.ownMethod? n d = none ∧ s.Exposes order c n := by
  constructor
  · rintro ⟨_ | ⟨d, before⟩, after, e, none⟩
    · exact .inl (List.cons.inj e).1
    · obtain ⟨rfl, rfl⟩ := List.cons.inj e
      exact .inr ⟨none _ List.mem_cons_self, before, after, rfl,
        fun d hd => none d (List.mem_cons_of_mem _ hd)⟩
  · rintro (rfl | ⟨here, before, after, rfl, none⟩)
    · exact ⟨[], order, rfl, nofun⟩
    · exact ⟨d :: before, after, rfl, List.forall_mem_cons.mpr ⟨here, none⟩⟩

theorem findSome?_of_exposes {order : List ClassId} (has : ∀ d ∈ order, s.HasClass d)
    (h : s.Exposes order c n) : order.findSome? ((s.setMethod c n m).ownMethod? n) = some m := by
  induction order with
  | nil => exact h.elim fun _ ⟨_, e, _⟩ => absurd e (by simp)
  | cons d order ih =>
    obtain ⟨here, above⟩ := List.forall_mem_cons.mp has
    rw [List.findSome?_cons, ownMethod?_setMethod here]
    by_cases e : d = c
    · rw [if_pos ⟨e, rfl⟩]
    · obtain ⟨free, exposed⟩ := (exposes_cons.mp h).resolve_left e
      rw [if_neg fun both => e both.1, free]
      exact ih above exposed

theorem exposes_of_findSome?_ne {order : List ClassId} (has : ∀ d ∈ order, s.HasClass d)
    (h : order.findSome? ((s.setMethod c n m).ownMethod? k) ≠
      order.findSome? (s.ownMethod? k)) : k = n ∧ s.Exposes order c n := by
  induction order with
  | nil => exact absurd rfl h
  | cons d order ih =>
    obtain ⟨here, above⟩ := List.forall_mem_cons.mp has
    rw [List.findSome?_cons, List.findSome?_cons, ownMethod?_setMethod here] at h
    by_cases own : d = c ∧ k = n
    · exact ⟨own.2, exposes_cons.mpr (.inl own.1)⟩
    · rw [if_neg own] at h
      cases found : s.ownMethod? k d with
      | some _ => rw [found] at h; exact absurd rfl h
      | none =>
        rw [found] at h
        obtain ⟨rfl, exposed⟩ := ih above h
        exact ⟨rfl, exposes_cons.mpr (.inr ⟨found, exposed⟩)⟩

end Store

open Store

/-! ## Every lookup of every run -/

theorem Machine.Reachable.hasObjectClass {m : Machine} (hm : m.Reachable) :
    m.store.HasClass objectClass :=
  have ⟨_, _, g⟩ := hm.grows
  g.hasClass (by decide : 0 < 14)

/-- In every reachable machine a lookup finds the first method along the resolution order, except
that `new` of an ordinary class is built in. A lookup that an installed method changes is one for
its name, along an order where nothing stands in front of it, and finds it. The class of an
object's own methods finds what the object does. -/
theorem method_resolution {m : Machine} (hm : m.Reachable) (f : FrameId) (v : Value) :
    ∃ order, m.store.Resolves f v order ∧
      (∀ n, m.store.method? f v n = if m.store.answersNew v n then some (.builtin .new)
        else order.findSome? (m.store.ownMethod? n)) ∧
      (∀ c n g k, (m.store.setMethod c n g).method? f v k ≠ m.store.method? f v k →
        k = n ∧ m.store.Exposes order c n ∧ m.store.answersNew v n = false) ∧
      (∀ c n g, m.store.Exposes order c n → m.store.answersNew v n = false →
        (m.store.setMethod c n g).method? f v n = some g) ∧
      ∀ o c n, m.store.objectOf? v = some o → o.singleton = some c →
        m.store.answersNew v n = false → m.store.instanceMethod? c n = m.store.method? f v n := by
  have first := hm.hasObjectClass
  have resolves := hm.sound.resolves first f v
  have has := resolves.hasClass hm.sound first
  refine ⟨_, resolves, method?_eq _ f v, fun c n g k changed => ?_, fun c n g exposed free => ?_,
    fun o c n e hc free => ?_⟩
  · rw [method?_eq, method?_eq, answersNew_setMethod, resolution_setMethod] at changed
    cases given : m.store.answersNew v k with
    | true => rw [given] at changed; exact absurd rfl changed
    | false =>
      rw [given] at changed
      obtain ⟨rfl, exposed⟩ := exposes_of_findSome?_ne has changed
      exact ⟨rfl, exposed, given⟩
  · rw [method?_eq, answersNew_setMethod, resolution_setMethod, free]
    exact findSome?_of_exposes has exposed
  · rw [method?_eq, free]
    exact hm.sound.instanceMethod?_singleton first e hc f n

/-- A method of the first class comes to be found on an integer, behind the class of integers. -/
theorem method_resolution_integer :
    ∃ order, coreStore.Resolves Machine.root (.int 5) order ∧
      coreStore.Exposes order objectClass "half" := by
  have changed : (coreStore.setMethod objectClass "half" .puts).method? Machine.root (.int 5)
      "half" ≠ coreStore.method? Machine.root (.int 5) "half" := by
    rw [show coreStore.method? Machine.root (.int 5) "half" = none by cbv,
      show (coreStore.setMethod objectClass "half" .puts).method? Machine.root (.int 5) "half" =
        some .puts by cbv]
    exact Option.some_ne_none _
  obtain ⟨order, resolves, _, only, _⟩ :=
    method_resolution (.start .usual coreStore.output) Machine.root (.int 5)
  exact ⟨order, resolves, (only _ _ _ _ changed).2.1⟩

end ObjectLang
