import ObjectLang.Eval.Collections
import ObjectLang.Proofs.Eval.Sequence

/-!
# Hashes are ordered maps

Under any calls a hash behaves as a list of bindings with distinct keys, in the order of their
first insertion. A call finds its key in the store as it is at that moment. Values that were
given as keys may have other keys by then, so the index is related to the keys of the bindings
and never to the values in the entries.
-/

namespace ObjectLang

/-! ## Lists of bindings -/

/-- A key, the value first given as it, and the value bound to it. -/
structure Binding where
  key : HashKey
  given : Value
  value : Value

def Binding.entry (b : Binding) : HashEntry := ⟨b.given, b.value⟩

namespace Bindings

def get? (l : List Binding) (k : HashKey) : Option Value :=
  (l.find? (·.key = k)).map (·.value)

def rebind (k : HashKey) (v : Value) (b : Binding) : Binding :=
  if b.key = k then { b with value := v } else b

/-- Binds `k` to `v`: in place if it is bound already, and else behind all others. -/
def insert (l : List Binding) (k : HashKey) (given v : Value) : List Binding :=
  if k ∈ l.map (·.key) then l.map (rebind k v) else l ++ [⟨k, given, v⟩]

theorem key_rebind (k : HashKey) (v : Value) (b : Binding) : (rebind k v b).key = b.key := by
  unfold rebind
  split <;> rfl

theorem keys_rebind (l : List Binding) (k : HashKey) (v : Value) :
    (l.map (rebind k v)).map (·.key) = l.map (·.key) := by
  rw [List.map_map]
  exact List.map_congr_left fun b _ => key_rebind k v b

theorem nodup_append {l : List Binding} (h : (l.map (·.key)).Nodup) {b : Binding}
    (new : b.key ∉ l.map (·.key)) : ((l ++ [b]).map (·.key)).Nodup := by
  rw [List.map_append, List.nodup_append]
  refine ⟨h, List.pairwise_singleton _ _, fun k hk k' hk' e => ?_⟩
  rw [e, List.mem_singleton.mp hk'] at hk
  exact new hk

theorem get?_cons (b : Binding) (l : List Binding) (k : HashKey) :
    get? (b :: l) k = if b.key = k then some b.value else get? l k := by
  rw [get?, List.find?_cons]
  by_cases here : b.key = k
  · rw [if_pos here, decide_eq_true here]
    rfl
  · rw [if_neg here, decide_eq_false here]
    rfl

theorem get?_append (l m : List Binding) (k : HashKey) :
    get? (l ++ m) k = (get? l k).or (get? m k) := by
  rw [get?, List.find?_append, Option.map_or]
  rfl

theorem get?_eq_none {l : List Binding} {k : HashKey} :
    get? l k = none ↔ k ∉ l.map (·.key) := by
  rw [get?, Option.map_eq_none_iff, List.find?_eq_none]
  simp

theorem get?_of_mem {l : List Binding} (h : (l.map (·.key)).Nodup) {b : Binding} (hb : b ∈ l) :
    get? l b.key = some b.value := by
  induction l with
  | nil => cases hb
  | cons c l ih =>
    rw [List.map_cons, List.nodup_cons] at h
    rw [get?_cons]
    cases hb with
    | head => exact if_pos rfl
    | tail _ hb =>
      have other : c.key ≠ b.key := fun e => h.1 (e ▸ List.mem_map_of_mem hb)
      rw [if_neg other]
      exact ih h.2 hb

theorem get?_rebind (l : List Binding) (k k' : HashKey) (v : Value) :
    get? (l.map (rebind k v)) k' =
      if k' = k then (get? l k').map fun _ => v else get? l k' := by
  induction l with
  | nil => split <;> rfl
  | cons b l ih =>
    rw [List.map_cons, get?_cons, get?_cons, key_rebind, ih]
    by_cases here : b.key = k'
    · rw [if_pos here, if_pos here, rebind, here]
      split <;> rfl
    · rw [if_neg here, if_neg here]

/-- The value last bound to a key is found under it, and other keys keep their values. -/
theorem get?_insert (l : List Binding) (k k' : HashKey) (given v : Value) :
    get? (insert l k given v) k' = if k' = k then some v else get? l k' := by
  unfold insert
  split
  · next old =>
    rw [get?_rebind]
    split
    · next e =>
      cases hc : get? l k' with
      | none => exact absurd (e ▸ old) (get?_eq_none.mp hc)
      | some _ => rfl
    · rfl
  · next new =>
    rw [get?_append, get?_cons]
    by_cases e : k' = k
    · rw [if_pos e, if_pos e.symm, e, get?_eq_none.mpr new, Option.none_or]
    · rw [if_neg e, if_neg (Ne.symm e)]
      exact Option.or_none

end Bindings

/-! ## Tables in step with their index -/

namespace HashTable

/-- The entries of the table are the bindings, and the index leads from each of the keys to the
position of its binding and back. -/
structure Represents (t : HashTable) (l : List Binding) : Prop where
  distinct : (l.map (·.key)).Nodup
  entries : t.entries.toList = l.map Binding.entry
  index : ∀ k i, t.position? k = some i ↔ (l.map (·.key))[i]? = some k

theorem insert_of_some {t : HashTable} {k : HashKey} {i : Nat} (h : t.position? k = some i)
    (given v : Value) : t.insert k given v =
      { t with entries := t.entries.modify i fun e => { e with value := v } } := by
  rw [insert, h]

theorem insert_of_none {t : HashTable} {k : HashKey} (h : t.position? k = none)
    (given v : Value) : t.insert k given v =
      ⟨t.entries.push ⟨given, v⟩, (k, t.entries.size) :: t.index⟩ := by
  rw [insert, h]

theorem represents_empty : empty.Represents [] :=
  ⟨List.nodup_nil, rfl, fun k i => by simp [position?, empty]⟩

section
variable {t : HashTable} {l : List Binding} (h : t.Represents l)
include h

theorem Represents.size : t.size = l.length := by
  rw [HashTable.size, ← Array.length_toList, h.entries, List.length_map]

theorem Represents.pairs : t.pairs = l.map fun b => (b.given, b.value) := by
  rw [HashTable.pairs, h.entries, List.map_map]
  rfl

theorem Represents.position_lt {k : HashKey} {i : Nat} (hk : t.position? k = some i) :
    i < t.size := by
  obtain ⟨lt, _⟩ := List.getElem?_eq_some_iff.mp ((h.index k i).mp hk)
  rw [List.length_map] at lt
  rw [h.size]
  exact lt

/-- Bound keys are those with a position. -/
theorem Represents.mem_keys {k : HashKey} :
    k ∈ l.map (·.key) ↔ ∃ i, t.position? k = some i := by
  rw [List.mem_iff_getElem?]
  exact exists_congr fun i => (h.index k i).symm

theorem Represents.position_inj {k k' : HashKey} {i : Nat} (hk : t.position? k = some i)
    (hk' : t.position? k' = some i) : k = k' :=
  Option.some.inj (((h.index k i).mp hk).symm.trans ((h.index k' i).mp hk'))

/-- Each position belongs to one key. -/
theorem Represents.key_of_position {i : Nat} (hi : i < t.size) :
    ∃ k, ∀ k', t.position? k' = some i ↔ k' = k := by
  have hi' : i < (l.map (·.key)).length := by
    rw [List.length_map, ← h.size]
    exact hi
  refine ⟨(l.map (·.key))[i], fun k' => ?_⟩
  rw [h.index, List.getElem?_eq_getElem hi', Option.some.injEq]
  exact eq_comm

theorem Represents.get? (k : HashKey) : t.get? k = Bindings.get? l k := by
  rw [HashTable.get?]
  cases hk : t.position? k with
  | none =>
    have new : k ∉ l.map (·.key) := fun bound => by
      obtain ⟨i, hi⟩ := h.mem_keys.mp bound
      rw [hk] at hi
      cases hi
    exact (Bindings.get?_eq_none.mpr new).symm
  | some i =>
    have key := (h.index k i).mp hk
    rw [List.getElem?_map, Option.map_eq_some_iff] at key
    obtain ⟨b, hb, rfl⟩ := key
    have entry : t.entries[i]? = some b.entry := by
      rw [← Array.getElem?_toList, h.entries, List.getElem?_map, hb]
      rfl
    rw [Bindings.get?_of_mem h.distinct (List.mem_of_getElem? hb), Option.map_some,
      getElem!_def, entry]
    rfl

/-- Binding a key that is bound changes the value in its entry and nothing else. -/
theorem Represents.insert_bound {k : HashKey} {i : Nat} (hk : t.position? k = some i)
    (given v : Value) : (t.insert k given v).Represents (l.map (Bindings.rebind k v)) := by
  rw [insert_of_some hk]
  refine ⟨Bindings.keys_rebind l k v ▸ h.distinct, ?_, Bindings.keys_rebind l k v ▸ h.index⟩
  refine List.ext_getElem? fun j => ?_
  rw [Array.toList_modify, List.getElem?_modify, h.entries, List.getElem?_map, List.getElem?_map,
    List.getElem?_map]
  cases hb : l[j]? with
  | none => simp
  | some b =>
    -- Among the bindings only the one at the position of `k` has the key `k`.
    have key : t.position? b.key = some j := by
      rw [h.index, List.getElem?_map, hb]
      rfl
    have here : i = j ↔ b.key = k := by
      refine ⟨fun e => h.position_inj (e ▸ key) hk, fun e => ?_⟩
      rw [e, hk] at key
      exact Option.some.inj key
    by_cases e : i = j
    · simp [Bindings.rebind, Binding.entry, e, here.mp e]
    · simp [Bindings.rebind, Binding.entry, e, mt here.mpr e]

/-- A key that is not bound gets the position behind all entries. -/
theorem Represents.insert_new {k : HashKey} (new : k ∉ l.map (·.key)) (given v : Value) :
    (t.insert k given v).Represents (l ++ [⟨k, given, v⟩]) := by
  have absent : t.position? k = none :=
    Option.eq_none_iff_forall_ne_some.mpr fun i hi => new (h.mem_keys.mpr ⟨i, hi⟩)
  rw [insert_of_none absent]
  refine ⟨Bindings.nodup_append h.distinct new, ?_, fun k' i => ?_⟩
  · rw [Array.toList_push, h.entries, List.map_append]
    rfl
  · have size : t.entries.size = (l.map (·.key)).length := h.size.trans (List.length_map _).symm
    have old := h.index k' i
    rw [position?, List.lookup_cons, size, List.map_append, List.getElem?_append, List.map_cons,
      List.map_nil, List.getElem?_singleton]
    rw [position?] at old
    by_cases e : k' = k
    · rw [e] at old ⊢
      have unbound : (l.map (·.key))[i]? ≠ some k := mt List.mem_of_getElem? new
      simp only [beq_self_eq_true, Option.some.injEq]
      grind
    · rw [beq_false_of_ne e]
      simp only [old]
      grind

theorem Represents.insert (k : HashKey) (given v : Value) :
    (t.insert k given v).Represents (Bindings.insert l k given v) := by
  unfold Bindings.insert
  split
  · next old =>
    obtain ⟨i, hi⟩ := h.mem_keys.mp old
    exact h.insert_bound hi given v
  · next new => exact h.insert_new new given v

end
end HashTable

/-! ## Calls -/

section
variable {s : Store} {key : Value}

theorem Eval.hashKey_of_ok {k : HashKey} (h : s.hashKey key = .ok k) :
    Eval.hashKey key s = .value k s := by
  unfold Eval.hashKey
  simp only [bind, Eval.bind, Eval.read, h]
  rfl

theorem Eval.hashKey_of_error {f : TypeFault} (h : s.hashKey key = .error f) :
    Eval.hashKey key s = .fault (.type f) s := by
  unfold Eval.hashKey
  simp only [bind, Eval.bind, Eval.read, h]
  rfl

namespace HashTable

theorem find_of_key {k : HashKey} (h : s.hashKey key = .ok k) (t : HashTable) :
    t.find key s = .value (t.get? k) s :=
  Eval.bind_of_value (Eval.hashKey_of_ok h)

theorem put_of_key {k : HashKey} (h : s.hashKey key = .ok k) (t : HashTable) (v : Value) :
    t.put key v s = .value (t.insert k key v) s :=
  Eval.bind_of_value (Eval.hashKey_of_ok h)

theorem find_of_fault {f : TypeFault} (h : s.hashKey key = .error f) (t : HashTable) :
    t.find key s = .fault (.type f) s :=
  Eval.bind_of_fault (Eval.hashKey_of_error h)

theorem put_of_fault {f : TypeFault} (h : s.hashKey key = .error f) (t : HashTable) (v : Value) :
    t.put key v s = .fault (.type f) s :=
  Eval.bind_of_fault (Eval.hashKey_of_error h)

end HashTable
end

/-- What a hash is asked for. -/
inductive HashCall where
  | insert (key value : Value)
  | get (key : Value)

namespace HashCall

def key : HashCall → Value
  | insert key _ => key
  | get key => key

/-- The end of a call in the store `s`, and the table after it. -/
def onTable (s : Store) (t : HashTable) : HashCall → Outcome (Option Value) × HashTable
  | insert key v =>
    match t.put key v s with
    | .value t s => (.value none s, t)
    | .fault f s => (.fault f s, t)
    | @Outcome.unfinished _ halt => (@Outcome.unfinished _ halt, t)
  | get key => (t.find key s, t)

/-- What the call means for a list of bindings. Its key is the one that the value has in the
store `s`. -/
def onBindings (s : Store) (l : List Binding) :
    HashCall → Outcome (Option Value) × List Binding
  | insert key v =>
    match s.hashKey key with
    | .ok k => (.value none s, Bindings.insert l k key v)
    | .error f => (.fault (.type f) s, l)
  | get key =>
    match s.hashKey key with
    | .ok k => (.value (Bindings.get? l k) s, l)
    | .error f => (.fault (.type f) s, l)

/-- The value that the call binds to `k`, if it does. -/
def bound? (k : HashKey) (s : Store) : HashCall → Option Value
  | insert key v =>
    match s.hashKey key with
    | .ok k' => if k = k' then some v else none
    | .error _ => none
  | get _ => none

/-- The ends of calls made one after another, each in a store of its own, and what there is
after them. -/
def run {σ : Type} (call : Store → σ → HashCall → Outcome (Option Value) × σ) :
    σ → List (Store × HashCall) → List (Outcome (Option Value)) × σ
  | a, [] => ([], a)
  | a, (s, c) :: calls =>
    let after := run call (call s a c).2 calls
    ((call s a c).1 :: after.1, after.2)

/-- The value that the last of the calls to bind `k` bound to it. -/
def lastBound (k : HashKey) (calls : List (Store × HashCall)) : Option Value :=
  (calls.filterMap fun call => call.2.bound? k call.1).getLast?

/-- One call keeps the table and the bindings in step, and ends alike for both. -/
theorem onTable_represents {t : HashTable} {l : List Binding} (h : t.Represents l) (s : Store)
    (c : HashCall) :
    (c.onTable s t).1 = (c.onBindings s l).1 ∧
      (c.onTable s t).2.Represents (c.onBindings s l).2 := by
  cases c with
  | insert key v =>
    cases hk : s.hashKey key with
    | ok k => simp [onTable, onBindings, hk, HashTable.put_of_key, h.insert]
    | error f => simp [onTable, onBindings, hk, HashTable.put_of_fault, h]
  | get key =>
    cases hk : s.hashKey key with
    | ok k => simp [onTable, onBindings, hk, HashTable.find_of_key, h.get?, h]
    | error f => simp [onTable, onBindings, hk, HashTable.find_of_fault, h]

theorem onTable_of_fault {s : Store} {c : HashCall} {f : TypeFault}
    (h : s.hashKey c.key = .error f) (t : HashTable) : c.onTable s t = (.fault (.type f) s, t) := by
  cases c with
  | insert key v =>
    have none : s.hashKey key = .error f := h
    rw [onTable, HashTable.put_of_fault none]
  | get key =>
    have none : s.hashKey key = .error f := h
    rw [onTable, HashTable.find_of_fault none]

theorem run_represents (calls : List (Store × HashCall)) :
    ∀ {t : HashTable} {l : List Binding}, t.Represents l →
      (run onTable t calls).1 = (run onBindings l calls).1 ∧
        (run onTable t calls).2.Represents (run onBindings l calls).2 := by
  induction calls with
  | nil => exact fun h => ⟨rfl, h⟩
  | cons call calls ih =>
    intro t l h
    obtain ⟨same, next⟩ := onTable_represents h call.1 call.2
    obtain ⟨same', last⟩ := ih next
    refine ⟨?_, last⟩
    rw [run, run, same, same']

theorem get?_onBindings (l : List Binding) (s : Store) (c : HashCall) (k : HashKey) :
    Bindings.get? (c.onBindings s l).2 k = (c.bound? k s).or (Bindings.get? l k) := by
  cases c with
  | insert key v =>
    cases hk : s.hashKey key with
    | ok k' =>
      simp only [onBindings, bound?, hk, Bindings.get?_insert]
      split <;> rfl
    | error f => simp [onBindings, bound?, hk]
  | get key =>
    cases hk : s.hashKey key with
    | ok _ => simp [onBindings, bound?, hk]
    | error _ => simp [onBindings, bound?, hk]

theorem get?_run (calls : List (Store × HashCall)) (k : HashKey) :
    ∀ l, Bindings.get? (run onBindings l calls).2 k =
      (lastBound k calls).or (Bindings.get? l k) := by
  induction calls with
  | nil => exact fun l => rfl
  | cons call calls ih =>
    intro l
    rw [run, ih, get?_onBindings, ← Option.or_assoc]
    congr 1
    rw [lastBound, lastBound, List.filterMap_cons]
    cases call.2.bound? k call.1 with
    | none => exact Option.or_none
    | some v =>
      rw [List.getLast?_cons]
      cases (calls.filterMap _).getLast? <;> rfl

end HashCall

/-! ## Hashes -/

/-- Whatever calls are made on a new hash and whatever the store becomes between them, the
calls end as they do for a list of bindings, and the table stays in step with it. Each key leads
to the value last bound to it, the index pairs the keys with the positions, and a call with
a value that has no key changes nothing. -/
theorem hash_calls (calls : List (Store × HashCall)) :
    let t := (HashCall.run HashCall.onTable .empty calls).2
    let l := (HashCall.run HashCall.onBindings [] calls).2
    (HashCall.run HashCall.onTable .empty calls).1 =
        (HashCall.run HashCall.onBindings [] calls).1 ∧
      (l.map (·.key)).Nodup ∧
      t.size = l.length ∧
      t.pairs = l.map (fun b => (b.given, b.value)) ∧
      (∀ k, t.get? k = Bindings.get? l k ∧ t.get? k = HashCall.lastBound k calls) ∧
      (∀ k i, t.position? k = some i ↔ (l.map (·.key))[i]? = some k) ∧
      (∀ k i, t.position? k = some i → i < t.size) ∧
      (∀ i < t.size, ∃ k, ∀ k', t.position? k' = some i ↔ k' = k) ∧
      ∀ (s : Store) (c : HashCall) (f : TypeFault), s.hashKey c.key = .error f →
        c.onTable s t = (.fault (.type f) s, t) := by
  obtain ⟨same, h⟩ := HashCall.run_represents calls HashTable.represents_empty
  refine ⟨same, h.distinct, h.size, h.pairs, fun k => ⟨h.get? k, ?_⟩, h.index,
    fun k i => h.position_lt, fun i => h.key_of_position,
    fun s c f hf => HashCall.onTable_of_fault hf _⟩
  rw [h.get?, HashCall.get?_run]
  exact Option.or_none

-- An array that is changed after it was given as a key is given as another one.
example (v w : Value) :
    let s (n : Int64) : Store := { Store.empty with arrays := #[#[.int n]] }
    (HashCall.run HashCall.onTable .empty
      [(s 1, .insert (.array ⟨0⟩) v), (s 2, .insert (.array ⟨0⟩) w)]).2.pairs =
        [(.array ⟨0⟩, v), (.array ⟨0⟩, w)] := by
  rfl

end ObjectLang
