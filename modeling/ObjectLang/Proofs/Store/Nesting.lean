import Mathlib.Logic.Relation
import ObjectLang.Proofs.Data.Inspect
import ObjectLang.Proofs.Store.Comparison
import ObjectLang.Proofs.Store.Sound

/-!
# Collections inside of collections

Collections are nested to any depth, shared and inside of themselves. Of what is reached from a value
without a cycle no collection is ever inside of itself, so that one can go by what is inside.
-/

namespace ObjectLang

open Relation

variable {s : Store} {v w x : Value} {c : Container}

theorem inside_iff : Inside s x v ↔ ∃ c : Container, v = c.value ∧ x ∈ s.children c := by
  constructor
  · rintro (⟨ha, hx⟩ | ⟨hh, hp⟩ | ⟨hh, hp⟩)
    · refine ⟨.array _, rfl, ?_⟩
      rwa [Store.children, array_of_getElem? ha]
    · refine ⟨.hash _, rfl, ?_⟩
      rw [Store.children, hash_of_getElem? hh]
      exact List.mem_flatMap.mpr ⟨_, hp, by simp⟩
    · refine ⟨.hash _, rfl, ?_⟩
      rw [Store.children, hash_of_getElem? hh]
      exact List.mem_flatMap.mpr ⟨_, hp, by simp⟩
  · rintro ⟨c, rfl, hx⟩
    cases c with
    | array a =>
      have ha := Array.getElem?_eq_getElem (Store.lt_of_mem_array hx)
      rw [Store.children, array_of_getElem? ha] at hx
      exact .element ha hx
    | hash h =>
      have hh := Array.getElem?_eq_getElem (Store.lt_of_mem_hash hx)
      rw [Store.children, hash_of_getElem? hh] at hx
      obtain ⟨p, hp, hx⟩ := List.mem_flatMap.mp hx
      rcases List.mem_pair.mp hx with rfl | rfl
      · exact .key hh hp
      · exact .entry hh hp

theorem inside_value (hx : x ∈ s.children c) : Inside s x c.value :=
  inside_iff.mpr ⟨c, rfl, hx⟩

theorem mem_containers_of_mem (hx : x ∈ s.children c) : c ∈ s.containers := by
  cases c with
  | array a => exact mem_containers_array (Array.getElem?_eq_getElem (Store.lt_of_mem_array hx))
  | hash h => exact mem_containers_hash (Array.getElem?_eq_getElem (Store.lt_of_mem_hash hx))

/-! ## References that are good -/

/-- Every collection that is reached from `v` is there. -/
def Store.Intact (s : Store) (v : Value) : Prop :=
  ∀ (x : Value) (c : Container), ReflTransGen (Inside s) x v → x = c.value → c ∈ s.containers

theorem Store.Intact.mem (h : s.Intact c.value) : c ∈ s.containers :=
  h _ c .refl rfl

theorem Store.Intact.child (h : s.Intact c.value) (hx : x ∈ s.children c) : s.Intact x :=
  fun _ _ path => h _ _ (path.tail (inside_value hx))

theorem Store.Intact.of_closed {P : Value → Prop} (hv : P v)
    (closed : ∀ c : Container, P c.value → c ∈ s.containers ∧ ∀ x ∈ s.children c, P x) :
    s.Intact v := by
  have reached {x : Value} (path : ReflTransGen (Inside s) x v) : P x := by
    induction path using ReflTransGen.head_induction_on with
    | refl => exact hv
    | head inside _ ih =>
      obtain ⟨c, rfl, hx⟩ := inside_iff.mp inside
      exact (closed c ih).2 _ hx
  rintro x c path rfl
  exact (closed c (reached path)).1

/-- The references of a sound store are good. -/
theorem Store.Knows.intact (h : s.Sound) (hv : s.Knows v) : s.Intact v := by
  refine .of_closed hv fun c known => ?_
  cases c with
  | array a =>
    have ha := Array.getElem?_eq_getElem known
    refine ⟨mem_containers_array ha, fun x hx => ?_⟩
    rw [Store.children, array_of_getElem? ha] at hx
    exact h.arrays _ _ ha x (Array.mem_toList_iff.mp hx)
  | hash g =>
    have hg := Array.getElem?_eq_getElem known
    refine ⟨mem_containers_hash hg, fun x hx => ?_⟩
    rw [Store.children, hash_of_getElem? hg] at hx
    obtain ⟨p, hp, hx⟩ := List.mem_flatMap.mp hx
    obtain ⟨e, he, rfl⟩ := List.mem_map.mp hp
    obtain ⟨given, value⟩ := h.hashes _ _ hg e (Array.mem_toList_iff.mp he)
    rcases List.mem_pair.mp hx with rfl | rfl
    · exact given
    · exact value

/-! ## Values without a cycle -/

/-- No collection that is reached from `v` is inside of itself. -/
def Store.Acyclic (s : Store) (v : Value) : Prop :=
  ∀ x, ReflTransGen (Inside s) x v → ¬ TransGen (Inside s) x x

/-- The collections around a value are different ones, so there is a bound on their number. -/
theorem Descent.acc {n : Nat} {path : List Container} {v : Value}
    (h : Descent s Container.value s.containers path v) (acyclic : s.Acyclic v)
    (bound : s.collectionCount < n + path.length) : Acc (Inside s) v := by
  induction n generalizing path v with
  | zero =>
    have le := h.length_le
    rw [length_containers] at le
    omega
  | succ n ih =>
    refine ⟨_, fun x inside => ?_⟩
    obtain ⟨c, rfl, hx⟩ := inside_iff.mp inside
    have new : c ∉ path := fun hc => acyclic _ .refl (h.outer c hc)
    have deeper : Descent s Container.value s.containers (c :: path) x := by
      refine ⟨?_, List.nodup_cons.mpr ⟨new, h.nodup⟩, ?_⟩
      · refine List.forall_mem_cons.mpr ⟨.single inside, fun d hd => ?_⟩
        exact .head inside (h.outer d hd)
      · exact List.forall_mem_cons.mpr ⟨mem_containers_of_mem hx, h.known⟩
    refine ih deeper (fun y path => acyclic y (path.tail inside)) ?_
    rw [List.length_cons]
    omega

theorem Store.Acyclic.acc (h : s.Acyclic v) : Acc (Inside s) v :=
  Descent.nil.acc (n := s.collectionCount + 1) h (Nat.lt_succ_self _)

theorem Store.acyclic_iff_acc : s.Acyclic v ↔ Acc (Inside s) v := by
  refine ⟨Acyclic.acc, fun acc x path => ?_⟩
  rcases reflTransGen_iff_eq_or_transGen.mp path with rfl | path
  · exact not_self_of_acc acc.transGen
  · exact not_self_of_acc (acc.transGen.inv path)

end ObjectLang
