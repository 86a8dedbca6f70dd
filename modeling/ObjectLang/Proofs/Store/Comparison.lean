import Mathlib.Data.List.Forall2
import Mathlib.Data.List.Nodup
import ObjectLang.Store.Equality

/-!
# Comparing values without a bound

A comparison of two collections goes on with their elements, unless it is going on already further
up. A path of pairs that are being compared holds each of them once, so no comparison reaches the
bound on its depth.
-/

namespace ObjectLang

/-- Two collections of a kind. Any two other values are compared without looking into the store. -/
def Value.containers? : Value → Value → Option (Container × Container)
  | array a, array b => some (.array a, .array b)
  | hash a, hash b => some (.hash a, .hash b)
  | _, _ => none

namespace Store

variable (s : Store)

/-- Elements of an array, or keys and values of a hash in turn. -/
def children : Container → List Value
  | .array a => (s.array a).toList
  | .hash h => (s.hash h).pairs.flatMap fun p => [p.1, p.2]

/-- The comparison of two values while the pairs `path` are being compared ends with the answer.
It goes through the elements of two collections in order, up to the first two that differ. -/
inductive EqualityGives : List (Container × Container) → Value → Value → Bool → Prop where
  | atom {path : List (Container × Container)} {v w : Value} (h : v.containers? w = none) :
      EqualityGives path v w (v.sameAtom w)
  | same {path : List (Container × Container)} {v w : Value} {a : Container}
      (h : v.containers? w = some (a, a)) : EqualityGives path v w true
  | known {path : List (Container × Container)} {v w : Value} {p : Container × Container}
      (h : v.containers? w = some p) (known : p ∈ path) : EqualityGives path v w true
  | lengths {path : List (Container × Container)} {v w : Value} {a b : Container}
      (h : v.containers? w = some (a, b)) (other : a ≠ b) (new : (a, b) ∉ path)
      (lengths : (s.children a).length ≠ (s.children b).length) : EqualityGives path v w false
  | equal {path : List (Container × Container)} {v w : Value} {a b : Container}
      (h : v.containers? w = some (a, b)) (other : a ≠ b) (new : (a, b) ∉ path)
      (lengths : (s.children a).length = (s.children b).length)
      (all : ∀ p ∈ (s.children a).zip (s.children b), EqualityGives ((a, b) :: path) p.1 p.2 true) :
      EqualityGives path v w true
  | differ {path : List (Container × Container)} {v w : Value} {a b : Container}
      {before after : List (Value × Value)} {p : Value × Value}
      (h : v.containers? w = some (a, b)) (other : a ≠ b) (new : (a, b) ∉ path)
      (lengths : (s.children a).length = (s.children b).length)
      (split : (s.children a).zip (s.children b) = before ++ p :: after)
      (all : ∀ q ∈ before, EqualityGives ((a, b) :: path) q.1 q.2 true)
      (first : EqualityGives ((a, b) :: path) p.1 p.2 false) : EqualityGives path v w false

variable {s}

/-! ## One level -/

theorem length_entries (l : List (Value × Value)) :
    (l.flatMap fun p => [p.1, p.2]).length = 2 * l.length := by
  induction l with
  | nil => rfl
  | cons p l ih => simp only [List.flatMap_cons, List.length_append, ih, List.length_cons,
      List.length_nil]; omega

theorem all_entries (f : Value → Value → Bool) : ∀ xs ys : List (Value × Value),
    (xs.zip ys).all (fun x => f x.1.1 x.2.1 && f x.1.2 x.2.2) =
      ((xs.flatMap fun p => [p.1, p.2]).zip (ys.flatMap fun p => [p.1, p.2])).all
        fun x => f x.1 x.2
  | [], _ => rfl
  | _ :: _, [] => rfl
  | x :: xs, y :: ys => by
    have rest := all_entries f xs ys
    simp only [List.flatMap_cons, List.cons_append, List.nil_append, List.zip_cons_cons,
      List.all_cons, rest, Bool.and_assoc]

theorem sameIn_succ (fuel : Nat) (path : List (Container × Container)) (v w : Value) :
    s.sameIn (fuel + 1) path v w = match v.containers? w with
      | some (a, b) => if a = b ∨ (a, b) ∈ path then true else
          (s.children a).length = (s.children b).length ∧
            ((s.children a).zip (s.children b)).all fun p => s.sameIn fuel ((a, b) :: path) p.1 p.2
      | none => v.sameAtom w := by
  cases v with
  | array a =>
    cases w with
    | array b =>
      simp only [sameIn, Value.containers?, Container.array.injEq]
      rfl
    | _ => rfl
  | hash a =>
    cases w with
    | hash b =>
      have lengths : (s.hash a).pairs.length = (s.hash b).pairs.length ↔
          (s.children (.hash a)).length = (s.children (.hash b)).length := by
        simp only [children, length_entries]
        omega
      simp only [sameIn, Value.containers?, Container.hash.injEq, lengths, all_entries]
      rfl
    | _ => rfl
  | _ => cases w <;> rfl

/-! ## Termination -/

def containerPairs (s : Store) : List (Container × Container) :=
  (List.range s.arrays.size).flatMap (fun i =>
      (List.range s.arrays.size).map fun j => (.array ⟨i⟩, .array ⟨j⟩)) ++
    (List.range s.hashes.size).flatMap fun i =>
      (List.range s.hashes.size).map fun j => (.hash ⟨i⟩, .hash ⟨j⟩)

theorem length_containerPairs : s.containerPairs.length = s.pairCount := by
  simp [containerPairs, pairCount, List.length_flatMap]

theorem lt_of_mem_array {a : ArrayId} {v : Value} (h : v ∈ s.children (.array a)) :
    a.index < s.arrays.size := by
  refine Nat.lt_of_not_le fun le => ?_
  rw [children, array, Array.getElem?_eq_none le] at h
  cases h

theorem lt_of_mem_hash {a : HashId} {v : Value} (h : v ∈ s.children (.hash a)) :
    a.index < s.hashes.size := by
  refine Nat.lt_of_not_le fun le => ?_
  rw [children, hash, Array.getElem?_eq_none le] at h
  cases h

theorem mem_containerPairs {v w : Value} {a b : Container} (h : v.containers? w = some (a, b))
    {p : Value × Value} (hp : p ∈ (s.children a).zip (s.children b)) :
    (a, b) ∈ s.containerPairs := by
  obtain ⟨ha, hb⟩ := List.of_mem_zip hp
  unfold Value.containers? at h
  split at h
  · next a b =>
    cases h
    refine List.mem_append_left _ (List.mem_flatMap.mpr ⟨a.index, ?_, List.mem_map.mpr ⟨b.index, ?_, rfl⟩⟩)
    · exact List.mem_range.mpr (lt_of_mem_array ha)
    · exact List.mem_range.mpr (lt_of_mem_array hb)
  · next a b =>
    cases h
    refine List.mem_append_right _ (List.mem_flatMap.mpr ⟨a.index, ?_, List.mem_map.mpr ⟨b.index, ?_, rfl⟩⟩)
    · exact List.mem_range.mpr (lt_of_mem_hash ha)
    · exact List.mem_range.mpr (lt_of_mem_hash hb)
  · cases h

theorem exists_first_false {α : Type} {f : α → Bool} {l : List α} (h : l.all f = false) :
    ∃ before a after, l = before ++ a :: after ∧ (∀ b ∈ before, f b = true) ∧ f a = false := by
  induction l with
  | nil => cases h
  | cons a l ih =>
    cases ha : f a with
    | false => exact ⟨[], a, l, rfl, nofun, ha⟩
    | true =>
      rw [List.all_cons, ha, Bool.true_and] at h
      obtain ⟨before, b, after, rfl, alike, hb⟩ := ih h
      exact ⟨a :: before, b, after, rfl, List.forall_mem_cons.mpr ⟨ha, alike⟩, hb⟩

/-- The bound is more than the number of pairs that are not on the path. -/
theorem equalityGives_sameIn : ∀ {fuel : Nat} {path : List (Container × Container)} (v w : Value),
    path.Nodup → path ⊆ s.containerPairs → s.pairCount < path.length + fuel →
    s.EqualityGives path v w (s.sameIn fuel path v w)
  | 0, path, v, w, nodup, subset, bound => by
    have le := nodup.length_le_of_subset subset
    rw [length_containerPairs] at le
    omega
  | fuel + 1, path, v, w, nodup, subset, bound => by
    rw [sameIn_succ]
    cases e : v.containers? w with
    | none => exact .atom e
    | some p =>
      obtain ⟨a, b⟩ := p
      by_cases same : a = b
      · subst same
        simp only [true_or, if_true]
        exact .same e
      by_cases known : (a, b) ∈ path
      · simp only [known, or_true, if_true]
        exact .known e known
      simp only [same, known, or_self, if_false]
      by_cases lengths : (s.children a).length = (s.children b).length
      · -- A pair with elements is one of the store, so the path inside of it has a bound as well.
        have inner : ∀ p ∈ (s.children a).zip (s.children b), s.EqualityGives ((a, b) :: path) p.1 p.2
            (s.sameIn fuel ((a, b) :: path) p.1 p.2) := by
          intro p hp
          refine equalityGives_sameIn p.1 p.2 (List.nodup_cons.mpr ⟨known, nodup⟩)
            (List.cons_subset.mpr ⟨mem_containerPairs e hp, subset⟩) ?_
          rw [List.length_cons]
          omega
        simp only [lengths, true_and, Bool.decide_eq_true]
        cases all : ((s.children a).zip (s.children b)).all
            fun p => s.sameIn fuel ((a, b) :: path) p.1 p.2 with
        | true =>
          refine .equal e same known lengths fun p hp => ?_
          have compared := inner p hp
          rwa [List.all_eq_true.mp all p hp] at compared
        | false =>
          obtain ⟨before, p, after, split, alike, first⟩ := exists_first_false all
          rw [split] at inner
          refine .differ e same known lengths split (fun q hq => ?_) ?_
          · have compared := inner q (List.mem_append_left _ hq)
            rwa [alike q hq] at compared
          · have compared := inner p (List.mem_append_right _ List.mem_cons_self)
            rwa [first] at compared
      · simp only [lengths, false_and, decide_false]
        exact .lengths e same known lengths

theorem equalityGives_same (v w : Value) : s.EqualityGives [] v w (s.same v w) :=
  equalityGives_sameIn v w List.nodup_nil (List.nil_subset _) (by simp)

end Store

end ObjectLang
