import Mathlib.Logic.Relation
import ObjectLang.Proofs.Data.Datum

/-!
# Inspecting data

Data cannot contain itself. So a collection is never met inside of itself, and as a
path of collections holds each of them once, neither the text nor the hash key of a
datum reaches its bound.
-/

namespace ObjectLang

open Relation

/-! ## Nesting -/

/-- `v` is an element, a key or a value of the collection `w`. -/
inductive Inside (s : Store) : Value → Value → Prop where
  | element {a : ArrayId} {items : Array Value} {v : Value} : s.arrays[a.index]? = some items →
      v ∈ items.toList → Inside s v (.array a)
  | key {h : HashId} {t : HashTable} {p : Value × Value} : s.hashes[h.index]? = some t →
      p ∈ t.pairs → Inside s p.1 (.hash h)
  | entry {h : HashId} {t : HashTable} {p : Value × Value} : s.hashes[h.index]? = some t →
      p ∈ t.pairs → Inside s p.2 (.hash h)

section
variable {s : Store} {v : Value} {d : Datum}

theorem Holds.acc (h : Holds s v d) : Acc (Inside s) v := by
  induction h with
  | nil | bool | int | str | symbol | range =>
    refine ⟨_, fun w hw => ?_⟩
    cases hw
  | array ha hi _ ih =>
    refine ⟨_, fun w hw => ?_⟩
    cases hw with
    | element ha' hw =>
      rw [ha] at ha'
      cases ha'
      rw [hi] at hw
      obtain ⟨x, hx, rfl⟩ := List.mem_map.mp hw
      exact ih x hx
  | hash hh hp _ _ _ _ ihk ihv =>
    refine ⟨_, fun w hw => ?_⟩
    cases hw with
    | key hh' hw =>
      rw [hh] at hh'
      cases hh'
      rw [hp] at hw
      obtain ⟨x, hx, rfl⟩ := List.mem_map.mp hw
      exact ihk x hx
    | entry hh' hw =>
      rw [hh] at hh'
      cases hh'
      rw [hp] at hw
      obtain ⟨x, hx, rfl⟩ := List.mem_map.mp hw
      exact ihv x hx

theorem not_self_of_acc {α : Type} {r : α → α → Prop} {a : α} (h : Acc r a) : ¬r a a := by
  induction h with
  | intro a _ ih => exact fun haa => ih a haa haa

/-- The collections around a value, from the inside. `value` tells what a collection is as a
value, and `all` lists the collections that there are. -/
structure Descent (s : Store) {γ : Type} (value : γ → Value) (all : List γ) (path : List γ)
    (v : Value) : Prop where
  outer : ∀ c ∈ path, TransGen (Inside s) v (value c)
  nodup : path.Nodup
  known : ∀ c ∈ path, c ∈ all

theorem Descent.nil {γ : Type} {value : γ → Value} {all : List γ} : Descent s value all [] v := by
  refine ⟨?_, List.nodup_nil, ?_⟩
  · intro c hc
    cases hc
  · intro c hc
    cases hc

theorem Descent.not_mem {γ : Type} {value : γ → Value} {all path : List γ} {c : γ}
    (h : Descent s value all path (value c)) (hv : Acc (Inside s) (value c)) : c ∉ path :=
  fun hc => not_self_of_acc hv.transGen (h.outer c hc)

theorem Descent.cons {γ : Type} {value : γ → Value} {all path : List γ} {c : γ}
    (h : Descent s value all path (value c)) (hv : Acc (Inside s) (value c)) (hc : c ∈ all)
    (hw : Inside s v (value c)) : Descent s value all (c :: path) v := by
  refine ⟨?_, List.nodup_cons.mpr ⟨h.not_mem hv, h.nodup⟩, ?_⟩
  · intro b hb
    rcases List.mem_cons.mp hb with rfl | hb
    · exact .single hw
    · exact .head hw (h.outer b hb)
  · intro b hb
    rcases List.mem_cons.mp hb with rfl | hb
    · exact hc
    · exact h.known b hb

theorem Descent.length_le {γ : Type} {value : γ → Value} {all path : List γ}
    (h : Descent s value all path v) : path.length ≤ all.length :=
  h.nodup.length_le_of_subset h.known

theorem Descent.length_lt {γ : Type} {value : γ → Value} {all path : List γ} {c : γ}
    (h : Descent s value all path (value c)) (hv : Acc (Inside s) (value c)) (hc : c ∈ all) :
    path.length < all.length := by
  have nodup : (c :: path).Nodup := List.nodup_cons.mpr ⟨h.not_mem hv, h.nodup⟩
  have subset : c :: path ⊆ all := List.cons_subset.mpr ⟨hc, h.known⟩
  exact nodup.length_le_of_subset subset

/-! ## The text of data -/

def Container.value : Container → Value
  | array a => .array a
  | hash h => .hash h

theorem Container.value_inj {a b : Container} (h : a.value = b.value) : a = b := by
  cases a <;> cases b <;> cases h <;> rfl

def Store.containers (s : Store) : List Container :=
  (List.range s.arrays.size).map (fun i => .array ⟨i⟩) ++
    (List.range s.hashes.size).map fun i => .hash ⟨i⟩

theorem length_containers (s : Store) : s.containers.length = s.collectionCount := by
  simp [Store.containers, Store.collectionCount]

theorem mem_containers_array {a : ArrayId} {items : Array Value}
    (h : s.arrays[a.index]? = some items) : .array a ∈ s.containers := by
  obtain ⟨lt, _⟩ := Array.getElem?_eq_some_iff.mp h
  simp only [Store.containers, List.mem_append, List.mem_map, List.mem_range]
  exact .inl ⟨a.index, lt, rfl⟩

theorem mem_containers_hash {h : HashId} {t : HashTable} (ht : s.hashes[h.index]? = some t) :
    .hash h ∈ s.containers := by
  obtain ⟨lt, _⟩ := Array.getElem?_eq_some_iff.mp ht
  simp only [Store.containers, List.mem_append, List.mem_map, List.mem_range]
  exact .inr ⟨h.index, lt, rfl⟩

theorem array_of_getElem? {a : ArrayId} {items : Array Value}
    (h : s.arrays[a.index]? = some items) : s.array a = items := by
  rw [Store.array, h]
  rfl

theorem hash_of_getElem? {h : HashId} {t : HashTable} (ht : s.hashes[h.index]? = some t) :
    s.hash h = t := by
  rw [Store.hash, ht]
  rfl

theorem toList_listed (l r : String) (items : List String) :
    (listed l r items).toList = l.toList ++ (Datum.joined (items.map String.toList) ++ r.toList) := by
  rw [listed, String.toList_append, String.toList_append, String.toList_intercalate,
    List.append_assoc]
  rfl

theorem text_int (n : Int64) : (toString n.toInt).toList = (Datum.int n).text := by
  rw [Datum.int]
  by_cases h : 0 ≤ n.toInt
  · rw [if_pos h]
    obtain ⟨m, hm⟩ := Int.eq_ofNat_of_zero_le h
    rw [hm]
    exact Nat.toList_repr
  · rw [if_neg h]
    obtain ⟨m, hm⟩ := Int.eq_negSucc_of_lt_zero (Int.not_le.mp h)
    rw [hm]
    show ("-" ++ Nat.repr (m + 1)).toList = _
    rw [String.toList_append, Nat.toList_repr]
    rfl

theorem inspectIn_atom {fuel : Nat} {path : List Container} (ha : ∀ a, v ≠ .array a)
    (hh : ∀ h, v ≠ .hash h) : s.inspectIn fuel path v = s.inspectAtom v := by
  cases fuel with
  | zero => rfl
  | succ fuel =>
    cases v with
    | array a => exact absurd rfl (ha a)
    | hash h => exact absurd rfl (hh h)
    | _ => rfl

/-- The bound is the number of collections that are not on the path. -/
theorem inspectIn_holds (h : Holds s v d) : ∀ {fuel : Nat} {path : List Container},
    Descent s Container.value s.containers path v → fuel + path.length = s.collectionCount →
    (s.inspectIn fuel path v).toList = d.text := by
  induction h with
  | nil =>
    intro fuel path _ _
    rw [inspectIn_atom (by simp) (by simp)]
    show "nil".toList = ['n', 'i', 'l']
    decide
  | bool b =>
    intro fuel path _ _
    rw [inspectIn_atom (by simp) (by simp)]
    cases b with
    | true =>
      show "true".toList = ['t', 'r', 'u', 'e']
      decide
    | false =>
      show "false".toList = ['f', 'a', 'l', 's', 'e']
      decide
  | @int n _ =>
    intro fuel path _ _
    rw [inspectIn_atom (by simp) (by simp)]
    exact text_int n
  | @str t _ =>
    intro fuel path _ _
    rw [inspectIn_atom (by simp) (by simp)]
    exact String.toList_ofList
  | @symbol t _ =>
    intro fuel path _ _
    rw [inspectIn_atom (by simp) (by simp)]
    exact String.toList_append
  | @range a b _ _ =>
    intro fuel path _ _
    rw [inspectIn_atom (by simp) (by simp), Store.inspectAtom, String.toList_append,
      String.toList_append, text_int, text_int]
    simp [Datum.range]
  | @array a items xs ha hi hx ih =>
    intro fuel path descent count
    have acc : Acc (Inside s) (.array a) := (Holds.array ha hi hx).acc
    have known := mem_containers_array ha
    have lt := descent.length_lt (c := Container.array a) acc known
    rw [length_containers] at lt
    cases fuel with
    | zero => omega
    | succ fuel =>
      have fresh : ¬path.contains (Container.array a) = true := by
        rw [List.contains_iff_mem]
        exact descent.not_mem (c := Container.array a) acc
      have texts : ∀ x ∈ xs, (s.inspectIn fuel (.array a :: path) x.1).toList = x.2.text := by
        intro x hxs
        have inside : Inside s x.1 (.array a) := by
          refine .element ha ?_
          rw [hi]
          exact List.mem_map_of_mem hxs
        refine ih x hxs (descent.cons (c := Container.array a) acc known inside) ?_
        rw [List.length_cons]
        omega
      have items : ((xs.map (·.1)).map (s.inspectIn fuel (.array a :: path))).map String.toList =
          (xs.map (·.2)).map Datum.text := by
        rw [List.map_map, List.map_map, List.map_map]
        exact List.map_congr_left texts
      have start : "[".toList = ['['] := by decide
      have stop : "]".toList = [']'] := by decide
      rw [Store.inspectIn, if_neg fresh, toList_listed, array_of_getElem? ha, hi, items, start, stop]
      rfl
  | @hash h t xs hh hp hk hv hs hn ihk ihv =>
    intro fuel path descent count
    have acc : Acc (Inside s) (.hash h) := (Holds.hash hh hp hk hv hs hn).acc
    have known := mem_containers_hash hh
    have lt := descent.length_lt (c := Container.hash h) acc known
    rw [length_containers] at lt
    cases fuel with
    | zero => omega
    | succ fuel =>
      have fresh : ¬path.contains (Container.hash h) = true := by
        rw [List.contains_iff_mem]
        exact descent.not_mem (c := Container.hash h) acc
      have texts : ∀ x ∈ xs, (s.inspectIn fuel (.hash h :: path) x.1.1).toList = x.1.2.text ∧
          (s.inspectIn fuel (.hash h :: path) x.2.1).toList = x.2.2.text := by
        intro x hxs
        have mem : (x.1.1, x.2.1) ∈ t.pairs := by
          rw [hp]
          exact List.mem_map_of_mem hxs
        have count' : fuel + (Container.hash h :: path).length = s.collectionCount := by
          rw [List.length_cons]
          omega
        exact ⟨ihk x hxs (descent.cons (c := Container.hash h) acc known (.key hh mem)) count',
          ihv x hxs (descent.cons (c := Container.hash h) acc known (.entry hh mem)) count'⟩
      have items : ((xs.map fun x => (x.1.1, x.2.1)).map fun p =>
          s.inspectIn fuel (.hash h :: path) p.1 ++ "=>" ++
            s.inspectIn fuel (.hash h :: path) p.2).map String.toList =
          (xs.map fun x => (x.1.2, x.2.2)).map Datum.entryText := by
        rw [List.map_map, List.map_map, List.map_map]
        refine List.map_congr_left fun x hxs => ?_
        have arrow : "=>".toList = ['=', '>'] := by decide
        obtain ⟨key, value⟩ := texts x hxs
        simp only [Function.comp, String.toList_append, key, value, arrow, Datum.entryText]
        simp
      have start : "\x7b".toList = ['{'] := by decide
      have stop : "\x7d".toList = ['}'] := by decide
      rw [Store.inspectIn, if_neg fresh, toList_listed, hash_of_getElem? hh, hp, items, start, stop]
      rfl

theorem inspect_holds (h : Holds s v d) : s.inspect v = String.ofList d.text := by
  rw [← inspectIn_holds h .nil (Nat.add_zero _), String.ofList_toList]
  rfl

/-! ## The hash keys of data -/

def Store.arrayIds (s : Store) : List ArrayId :=
  (List.range s.arrays.size).map fun i => ⟨i⟩

theorem mem_arrayIds {a : ArrayId} {items : Array Value} (h : s.arrays[a.index]? = some items) :
    a ∈ s.arrayIds := by
  obtain ⟨lt, _⟩ := Array.getElem?_eq_some_iff.mp h
  simp only [Store.arrayIds, List.mem_map, List.mem_range]
  exact ⟨a.index, lt, rfl⟩

theorem length_arrayIds (s : Store) : s.arrayIds.length = s.arrays.size := by
  simp [Store.arrayIds]

theorem mapM_ok_iff {ε α β γ : Type} {f : α → Except ε γ} {g : β → Option γ} {xs : List (α × β)}
    (h : ∀ x ∈ xs, ∀ k, f x.1 = .ok k ↔ g x.2 = some k) (ks : List γ) :
    (xs.map (·.1)).mapM f = .ok ks ↔ (xs.map (·.2)).mapM g = some ks := by
  induction xs generalizing ks with
  | nil =>
    show Except.ok [] = Except.ok ks ↔ some [] = some ks
    simp
  | cons x xs ih =>
    have here := h x List.mem_cons_self
    have rest := ih fun y hy => h y (List.mem_cons_of_mem _ hy)
    rw [List.map_cons, List.map_cons, List.mapM_cons, List.mapM_cons]
    cases hg : g x.2 with
    | none =>
      cases hf : f x.1 with
      | error e => simp [bind, Except.bind]
      | ok k =>
        rw [here k, hg] at hf
        cases hf
    | some k =>
      rw [(here k).mpr hg]
      cases hgs : (xs.map (·.2)).mapM g with
      | none =>
        cases hfs : (xs.map (·.1)).mapM f with
        | error e => simp [bind, Except.bind]
        | ok ls =>
          rw [rest ls, hgs] at hfs
          cases hfs
      | some ls =>
        rw [(rest ls).mpr hgs]
        simp [bind, Except.bind, pure, Except.pure]

theorem keyIn_holds (h : Holds s v d) : ∀ {fuel : Nat} {path : List ArrayId},
    Descent s Value.array s.arrayIds path v → fuel + path.length = s.arrays.size + 1 →
    ∀ k, s.keyIn fuel path v = .ok k ↔ d.key = some k := by
  have pos : ∀ {v : Value} {fuel : Nat} {path : List ArrayId},
      Descent s Value.array s.arrayIds path v → fuel + path.length = s.arrays.size + 1 →
      ∃ n, fuel = n + 1 := by
    intro v fuel path descent count
    have le := descent.length_le
    rw [length_arrayIds] at le
    cases fuel with
    | zero => omega
    | succ n => exact ⟨n, rfl⟩
  induction h with
  | nil | str | symbol | range =>
    intro fuel path descent count k
    obtain ⟨n, rfl⟩ := pos descent count
    rw [Store.keyIn]
    simp [Datum.nil, Datum.str, Datum.symbol, Datum.range]
  | bool b =>
    intro fuel path descent count k
    obtain ⟨n, rfl⟩ := pos descent count
    rw [Store.keyIn]
    cases b <;> simp [Datum.bool]
  | @int i _ =>
    intro fuel path descent count k
    obtain ⟨n, rfl⟩ := pos descent count
    rw [Store.keyIn, Datum.int]
    split <;> simp
  | @array a items xs ha hi hx ih =>
    intro fuel path descent count k
    obtain ⟨n, rfl⟩ := pos descent count
    have acc : Acc (Inside s) (.array a) := (Holds.array ha hi hx).acc
    have known := mem_arrayIds ha
    have keys : ∀ x ∈ xs, ∀ k, s.keyIn n (a :: path) x.1 = .ok k ↔ x.2.key = some k := by
      intro x hxs
      have inside : Inside s x.1 (.array a) := by
        refine .element ha ?_
        rw [hi]
        exact List.mem_map_of_mem hxs
      refine ih x hxs (descent.cons acc known inside) ?_
      rw [List.length_cons]
      omega
    rw [Store.keyIn, if_neg (descent.not_mem acc), array_of_getElem? ha, hi, Datum.array]
    cases hk : (xs.map (·.2)).mapM Datum.key with
    | some ls =>
      rw [(mapM_ok_iff keys ls).mpr hk]
      simp [Functor.map, Except.map]
    | none =>
      cases hf : (xs.map (·.1)).mapM (s.keyIn n (a :: path)) with
      | error e => simp [Functor.map, Except.map]
      | ok ls =>
        rw [mapM_ok_iff keys ls, hk] at hf
        cases hf
  | hash =>
    intro fuel path descent count k
    obtain ⟨n, rfl⟩ := pos descent count
    rw [Store.keyIn]
    simp [Datum.hash]

theorem hashKey_eq_ok {k : HashKey} : s.hashKey v = .ok k ↔ s.convert v = .ok k := by
  unfold Store.hashKey
  cases s.convert v with
  | ok key =>
    constructor <;>
    · rintro ⟨⟩
      rfl
  | error fault => exact ⟨(nomatch ·), (nomatch ·)⟩

theorem hashKey_holds (h : Holds s v d) (k : HashKey) : s.hashKey v = .ok k ↔ d.key = some k :=
  hashKey_eq_ok.trans (keyIn_holds h .nil rfl k)

/-! ## Data as data -/

theorem exists_holds (h : IsData s v) : ∃ d, Holds s v d := by
  induction h with
  | nil => exact ⟨_, .nil⟩
  | bool b => exact ⟨_, .bool b⟩
  | int hn => exact ⟨_, .int hn⟩
  | str ht => exact ⟨_, .str ht⟩
  | symbol ht => exact ⟨_, .symbol ht⟩
  | range ha hb => exact ⟨_, .range ha hb⟩
  | @array a items ha _ ih =>
    have each : ∀ v ∈ items.toList, ∃ x : Value × Datum, x.1 = v ∧ Holds s x.1 x.2 := by
      intro v hv
      obtain ⟨d, hd⟩ := ih v hv
      exact ⟨(v, d), rfl, hd⟩
    obtain ⟨xs, hxs, hx⟩ := exists_map each
    exact ⟨_, .array ha hxs.symm hx⟩
  | @hash h t hh _ _ keys distinct ihk ihv =>
    have each : ∀ p ∈ t.pairs, ∃ x : (Value × Datum) × (Value × Datum), (x.1.1, x.2.1) = p ∧
        Holds s x.1.1 x.1.2 ∧ Holds s x.2.1 x.2.2 ∧ ∃ k, s.hashKey x.1.1 = .ok k := by
      intro p hp
      obtain ⟨c, hc⟩ := ihk p hp
      obtain ⟨d, hd⟩ := ihv p hp
      exact ⟨((p.1, c), (p.2, d)), rfl, hc, hd, keys p hp⟩
    obtain ⟨xs, hxs, hx⟩ := exists_map each
    have found : ∀ x ∈ xs, ∃ k, s.hashKey x.1.1 = .ok k ∧ x.1.2.key = some k := by
      intro x hxs
      obtain ⟨hc, _, k, hk⟩ := hx x hxs
      exact ⟨k, hk, (hashKey_holds hc k).mp hk⟩
    have same : t.pairs.map (fun p => s.hashKey p.1) =
        (xs.map fun x => x.1.2.key).map (·.elim (.error .recursiveKey) .ok) := by
      rw [← hxs, List.map_map, List.map_map]
      refine List.map_congr_left fun x hx => ?_
      obtain ⟨k, hk, hk'⟩ := found x hx
      simp only [Function.comp, hk, hk']
      rfl
    have nodup : (xs.map fun x => x.1.2.key).Nodup := by
      rw [same] at distinct
      refine List.Pairwise.of_map _ ?_ distinct
      intro k l ne e
      exact ne (by rw [e])
    refine ⟨_, .hash hh hxs.symm (fun x h => (hx x h).1) (fun x h => (hx x h).2.1) ?_ nodup⟩
    intro x hxs
    obtain ⟨k, _, hk⟩ := found x hxs
    rw [hk]
    rfl

end

end ObjectLang
