import ObjectLang.Proofs.Data.Inspect
import ObjectLang.Proofs.Store.Comparison

/-!
# Hash keys without a bound

The conversion of an array to a key goes on with its elements, and gives up at an array that is
open further up. A path of open arrays holds each of them once, so no conversion reaches the bound
on its depth.
-/

namespace ObjectLang

/-- The key of a value that holds no others. -/
def Value.atomKey? : Value → Option HashKey
  | nil => some .nil
  | bool b => some (.bool b)
  | int n => some (.int n)
  | real x => some (.real (.ofReal x))
  | str t => some (.str t)
  | symbol t => some (.symbol t)
  | range lower upper => some (.range lower upper)
  | object o => some (.object o)
  | cls c => some (.cls c)
  | proc p => some (.proc p)
  | array _ | hash _ | function _ => none

/-- A hash or a function. -/
inductive Value.Unkeyed : Value → Prop where
  | hash (h : HashId) : Unkeyed (.hash h)
  | function (m : Callable) : Unkeyed (.function m)

namespace Store

variable (s : Store)

/-- While the arrays `path` are open, the values have these keys. -/
inductive Keys : List ArrayId → List Value → List HashKey → Prop where
  | nil {path : List ArrayId} : Keys path [] []
  | atom {path : List ArrayId} {v : Value} {vs : List Value} {k : HashKey} {ks : List HashKey}
      (h : v.atomKey? = some k) (rest : Keys path vs ks) : Keys path (v :: vs) (k :: ks)
  | array {path : List ArrayId} {a : ArrayId} {vs : List Value} {items ks : List HashKey}
      (new : a ∉ path) (inner : Keys (a :: path) (s.array a).toList items)
      (rest : Keys path vs ks) : Keys path (.array a :: vs) (.array items :: ks)

/-- While the arrays `path` are open, the first of the values that has no key fails like this. -/
inductive Fails : List ArrayId → List Value → TypeFault → Prop where
  | unkeyed {path : List ArrayId} {v : Value} {vs : List Value} (h : v.Unkeyed) :
      Fails path (v :: vs) (.notAKey (s.inspect v))
  | opened {path : List ArrayId} {a : ArrayId} {vs : List Value} (h : a ∈ path) :
      Fails path (.array a :: vs) .recursiveKey
  | inner {path : List ArrayId} {a : ArrayId} {vs : List Value} {f : TypeFault} (new : a ∉ path)
      (h : Fails (a :: path) (s.array a).toList f) : Fails path (.array a :: vs) f
  | later {path : List ArrayId} {v : Value} {vs : List Value} {k : HashKey} {f : TypeFault}
      (head : s.Keys path [v] [k]) (h : Fails path vs f) : Fails path (v :: vs) f

/-- While the arrays `path` are open, the conversion of the value ends with the result. -/
def Converts (path : List ArrayId) (v : Value) : Except TypeFault HashKey → Prop
  | .ok k => s.Keys path [v] [k]
  | .error f => s.Fails path [v] f

variable {s} {path path' : List ArrayId} {v : Value} {vs : List Value} {k : HashKey}
  {ks ks' : List HashKey} {f f' : TypeFault}

/-! ## The result is determined -/

theorem keys_cons : s.Keys path (v :: vs) (k :: ks) ↔ s.Keys path [v] [k] ∧ s.Keys path vs ks := by
  constructor
  · intro h
    cases h with
    | atom h rest => exact ⟨.atom h .nil, rest⟩
    | array new inner rest => exact ⟨.array new inner .nil, rest⟩
  · rintro ⟨head, rest⟩
    cases head with
    | atom h => exact .atom h rest
    | array new inner => exact .array new inner rest

/-- Keys do not depend on what is open. -/
theorem Keys.unique (h : s.Keys path vs ks) (h' : s.Keys path' vs ks') : ks = ks' := by
  induction h generalizing path' ks' with
  | nil => cases h'; rfl
  | atom e _ ih =>
    cases h' with
    | atom e' rest =>
      cases e.symm.trans e'
      rw [ih rest]
    | array => cases e
  | array _ _ _ inside ih =>
    cases h' with
    | atom e' => cases e'
    | array _ inner rest => rw [inside inner, ih rest]

theorem Keys.not_fails (h : s.Keys path vs ks) : ¬ s.Fails path vs f := by
  intro h'
  induction h generalizing f with
  | nil => cases h'
  | atom e _ ih =>
    cases h' with
    | unkeyed u => cases u <;> cases e
    | opened | inner => cases e
    | later _ h' => exact ih h'
  | array new _ _ inside ih =>
    cases h' with
    | unkeyed u => cases u
    | opened known => exact new known
    | inner _ h' => exact inside h'
    | later _ h' => exact ih h'

theorem Fails.unique (h : s.Fails path vs f) (h' : s.Fails path vs f') : f = f' := by
  induction h generalizing f' with
  | unkeyed u =>
    cases h' with
    | unkeyed => rfl
    | opened | inner => cases u
    | later head => exact (head.not_fails (.unkeyed u)).elim
  | opened known =>
    cases h' with
    | unkeyed u => cases u
    | opened => rfl
    | inner new => exact absurd known new
    | later head => exact (head.not_fails (.opened known)).elim
  | inner new h ih =>
    cases h' with
    | unkeyed u => cases u
    | opened known => exact absurd known new
    | inner _ h' => exact ih h'
    | later head => exact (head.not_fails (.inner new h)).elim
  | later head h ih =>
    cases h' with
    | unkeyed u => exact (head.not_fails (.unkeyed u)).elim
    | opened known => exact (head.not_fails (.opened known)).elim
    | inner new h' => exact (head.not_fails (.inner new h')).elim
    | later _ h' => exact ih h'

theorem Converts.unique {r r' : Except TypeFault HashKey} (h : s.Converts path v r)
    (h' : s.Converts path v r') : r = r' := by
  cases r with
  | ok k =>
    cases r' with
    | ok k' => exact congrArg _ (List.cons.inj (Keys.unique h h')).1
    | error f => exact (Keys.not_fails h h').elim
  | error f =>
    cases r' with
    | ok k => exact (Keys.not_fails h' h).elim
    | error f' => exact congrArg _ (Fails.unique h h')

/-! ## Termination -/

theorem Fails.append (h : s.Fails path vs f) (ws : List Value) : s.Fails path (vs ++ ws) f := by
  induction h with
  | unkeyed u => exact .unkeyed u
  | opened known => exact .opened known
  | inner new h => exact .inner new h
  | later head _ ih => exact .later head ih

/-- The elements of an array are converted one by one. -/
theorem keys_or_fails_mapM {key : Value → Except KeyFault HashKey}
    (h : ∀ v ∈ vs, s.Converts path v ((key v).mapError (·.shown s))) :
    match vs.mapM key with
    | .ok ks => s.Keys path vs ks
    | .error f => s.Fails path vs (f.shown s) := by
  induction vs with
  | nil => exact .nil
  | cons v vs ih =>
    obtain ⟨here, later⟩ := List.forall_mem_cons.mp h
    specialize ih later
    rw [List.mapM_cons]
    cases e : key v with
    | error f =>
      rw [e] at here
      exact Fails.append here vs
    | ok k =>
      rw [e] at here
      cases e' : vs.mapM key with
      | error f =>
        rw [e'] at ih
        exact .later here ih
      | ok ks =>
        rw [e'] at ih
        exact keys_cons.mpr ⟨here, ih⟩

/-- The bound is more than the number of arrays that are not open. -/
theorem converts_keyIn : ∀ {fuel : Nat} {path : List ArrayId} (v : Value),
    path.Nodup → path ⊆ s.arrayIds → s.arrays.size < path.length + fuel →
    s.Converts path v ((s.keyIn fuel path v).mapError (·.shown s))
  | 0, path, v, nodup, subset, bound => by
    have le := nodup.length_le_of_subset subset
    rw [length_arrayIds] at le
    omega
  | fuel + 1, path, v, nodup, subset, bound => by
    cases v with
    | array a =>
      rw [keyIn]
      by_cases known : a ∈ path
      · rw [if_pos known]
        exact Fails.opened known
      rw [if_neg known]
      have each : ∀ v ∈ (s.array a).toList,
          s.Converts (a :: path) v ((s.keyIn fuel (a :: path) v).mapError (·.shown s)) := by
        intro v hv
        have lt := lt_of_mem_array hv
        refine converts_keyIn v (List.nodup_cons.mpr ⟨known, nodup⟩)
          (List.cons_subset.mpr ⟨List.mem_map.mpr ⟨_, List.mem_range.mpr lt, rfl⟩, subset⟩) ?_
        rw [List.length_cons]
        omega
      have elements := keys_or_fails_mapM each
      cases e : (s.array a).toList.mapM (s.keyIn fuel (a :: path)) with
      | error f =>
        rw [e] at elements
        exact Fails.inner known elements
      | ok ks =>
        rw [e] at elements
        exact Keys.array known elements .nil
    | hash h => exact Fails.unkeyed (.hash h)
    | function m => exact Fails.unkeyed (.function m)
    | _ => exact Keys.atom rfl .nil

theorem converts_hashKey (v : Value) : s.Converts [] v (s.hashKey v) :=
  converts_keyIn v List.nodup_nil (List.nil_subset _) (by simp)

theorem hashKey_eq_ok_iff : s.hashKey v = .ok k ↔ s.Keys [] [v] [k] := by
  constructor
  · intro e
    have h := s.converts_hashKey v
    rwa [e] at h
  · intro h
    have converts : s.Converts [] v (.ok k) := h
    exact (s.converts_hashKey v).unique converts

end Store

end ObjectLang
