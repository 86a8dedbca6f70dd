import ObjectLang.Eval.Calls

/-!
# What collections hold

A property of all values in a collection passes to the values read from it, and stays when values
with the property are written to it. Where a write or a call leaves a gap there is `nil`, so `nil`
has to have the property too.
-/

namespace ObjectLang

variable {P : Value → Prop}

/-! ## Hashes -/

namespace HashTable

/-- All keys and values of the table have the property. -/
def Forall (t : HashTable) (P : Value → Prop) : Prop :=
  ∀ e ∈ t.entries, P e.given ∧ P e.value

variable {t : HashTable} (h : t.Forall P)
include h

theorem Forall.get? (nil : P .nil) {k : HashKey} {v : Value} (hv : t.get? k = some v) : P v := by
  obtain ⟨i, _, rfl⟩ := Option.map_eq_some_iff.mp hv
  rw [getElem!_def]
  cases e : t.entries[i]? with
  | none => exact nil
  | some x => exact (h x (Array.mem_of_getElem? e)).2

/-- An entry keeps its key, and a new one is put behind the others. -/
theorem Forall.insert (k : HashKey) {given v : Value} (hg : P given) (hv : P v) :
    (t.insert k given v).Forall P := by
  unfold HashTable.insert
  intro x hx
  split at hx
  · obtain ⟨j, hj⟩ := Array.mem_iff_getElem?.mp hx
    rw [Array.getElem?_modify] at hj
    split at hj
    · obtain ⟨y, hy, rfl⟩ := Option.map_eq_some_iff.mp hj
      exact ⟨(h y (Array.mem_of_getElem? hy)).1, hv⟩
    · exact h x (Array.mem_of_getElem? hj)
  · rcases Array.mem_push.mp hx with hx | rfl
    · exact h x hx
    · exact ⟨hg, hv⟩

theorem Forall.pairs : ∀ p ∈ t.pairs, P p.1 ∧ P p.2 := by
  intro p hp
  obtain ⟨e, he, rfl⟩ := List.mem_map.mp hp
  exact h e (Array.mem_toList_iff.mp he)

end HashTable

/-! ## Arrays and parameters -/

theorem forall_putAt {items : Array Value} (h : ∀ v ∈ items, P v) (nil : P .nil) (i : Nat)
    {v : Value} (hv : P v) : ∀ w ∈ putAt items i v, P w := by
  unfold putAt
  intro w hw
  split at hw
  · rcases Array.mem_or_eq_of_mem_setIfInBounds hw with hw | rfl
    · exact h w hw
    · exact hv
  · rcases Array.mem_push.mp hw with hw | rfl
    · rcases Array.mem_append.mp hw with hw | hw
      · exact h w hw
      · rw [(Array.mem_replicate.mp hw).2]
        exact nil
    · exact hv

theorem forall_bindBlockParams (nil : P .nil) : ∀ (params : List String) {args : List Value},
    (∀ v ∈ args, P v) → ∀ x ∈ bindBlockParams params args, P x.2
  | [], _, _ => nofun
  | _ :: params, [], h => List.forall_mem_cons.mpr ⟨nil, forall_bindBlockParams nil params h⟩
  | _ :: params, _ :: _, h =>
    have ⟨hv, hvs⟩ := List.forall_mem_cons.mp h
    List.forall_mem_cons.mpr ⟨hv, forall_bindBlockParams nil params hvs⟩

end ObjectLang
