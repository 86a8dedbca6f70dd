import ObjectLang.Proofs.Data.Inspect
import ObjectLang.Proofs.Data.Text
import ObjectLang.Proofs.Eval.Monotone
import ObjectLang.Proofs.HashCalls

/-!
# Data are evaluated

The expression of a datum makes a copy of it in any store. The keys of a hash are
distinct, so no entry of the copy replaces another one.
-/

namespace ObjectLang

open Eval

/-! ## Under large bounds -/

namespace Eval

/-- From some bound on, the step ends with `a` and leaves `s'`. -/
def Settles {α : Type} (x : Nat → Eval α) (s : Store) (a : α) (s' : Store) : Prop :=
  ∃ n, ∀ fuel, n ≤ fuel → x fuel s = .value a s'

variable {α β : Type} {x : Nat → Eval α} {k : Nat → α → Eval β} {s s' s'' : Store} {a : α} {b : β}

theorem settles_of_eq (h : ∀ fuel, x fuel s = .value a s') : Settles x s a s' :=
  ⟨0, fun fuel _ => h fuel⟩

theorem Settles.bind (hx : Settles x s a s') (hk : Settles (fun fuel => k fuel a) s' b s'') :
    Settles (fun fuel => x fuel >>= k fuel) s b s'' := by
  obtain ⟨m, hm⟩ := hx
  obtain ⟨n, hn⟩ := hk
  refine ⟨max m n, fun fuel le => ?_⟩
  exact (bind_of_value (hm fuel (by omega))).trans (hn fuel (by omega))

theorem Settles.performer {t : Task} {v : Value} (h : Settles (fun fuel => perform fuel t) s v s') :
    performer t s = .value v s' := by
  obtain ⟨n, hn⟩ := h
  exact (performer_eq_iff t s rfl).mpr ⟨n, hn n (Nat.le_refl n)⟩

theorem settles_expr {f : FrameId} {e : Expr} {v : Value}
    (h : Settles (fun fuel => evalExpr (perform fuel) fuel f e) s v s') :
    Settles (fun fuel => perform fuel (.expr f e)) s v s' := by
  obtain ⟨n, hn⟩ := h
  refine ⟨n + 1, fun fuel le => ?_⟩
  cases fuel with
  | zero => omega
  | succ fuel => exact hn fuel (by omega)

end Eval

/-! ## Copies -/

/-- The value of one store is made up like the value of the other. -/
inductive MadeLike (s s' : Store) : Value → Value → Prop where
  | atom {v : Value} : (∀ a, v ≠ .array a) → (∀ h, v ≠ .hash h) → v.sameAtom v = true →
      MadeLike s s' v v
  | array {a b : ArrayId} {items items' : Array Value} {xs : List (Value × Value)} :
      s.arrays[a.index]? = some items → s'.arrays[b.index]? = some items' →
      items.toList = xs.map (·.1) → items'.toList = xs.map (·.2) →
      (∀ x ∈ xs, MadeLike s s' x.1 x.2) → MadeLike s s' (.array a) (.array b)
  | hash {h i : HashId} {t t' : HashTable} {xs : List ((Value × Value) × (Value × Value))} :
      s.hashes[h.index]? = some t → s'.hashes[i.index]? = some t' →
      t.pairs = xs.map (fun x => (x.1.1, x.2.1)) → t'.pairs = xs.map (fun x => (x.1.2, x.2.2)) →
      (∀ x ∈ xs, MadeLike s s' x.1.1 x.1.2) → (∀ x ∈ xs, MadeLike s s' x.2.1 x.2.2) →
      MadeLike s s' (.hash h) (.hash i)

section
variable {s s' t : Store} {v w : Value}

theorem MadeLike.mono (h : MadeLike s s' v w) (hs : s'.Extends t) : MadeLike s t v w := by
  induction h with
  | atom ha hh he => exact .atom ha hh he
  | array ha hb hi hi' _ ih => exact .array ha (hs.arrays _ _ hb) hi hi' ih
  | hash hh hi hp hp' _ _ ihk ihv => exact .hash hh (hs.hashes _ _ hi) hp hp' ihk ihv

theorem sameIn_atom {fuel : Nat} {path : List (Container × Container)} (ha : ∀ a, v ≠ .array a)
    (hh : ∀ h, v ≠ .hash h) (he : v.sameAtom v = true) : s.sameIn fuel path v v = true := by
  cases fuel with
  | zero => rfl
  | succ fuel =>
    cases v with
    | array a => exact absurd rfl (ha a)
    | hash h => exact absurd rfl (hh h)
    | _ => exact he

/-- Where both values are, they are equal. -/
theorem MadeLike.sameIn (h : MadeLike s s' v w) (hs : s.Extends t) (hs' : s'.Extends t) :
    ∀ (fuel : Nat) (path : List (Container × Container)), t.sameIn fuel path w v = true := by
  induction h with
  | atom ha hh he =>
    intro fuel path
    exact sameIn_atom ha hh he
  | @array a b items items' xs ha hb hi hi' _ ih =>
    intro fuel path
    cases fuel with
    | zero => rfl
    | succ fuel =>
      have here := array_of_getElem? (hs.arrays _ _ ha)
      have there := array_of_getElem? (hs'.arrays _ _ hb)
      rw [Store.sameIn]
      by_cases met : b = a ∨ (Container.array b, Container.array a) ∈ path
      · rw [if_pos met]
      · rw [if_neg met, here, there, hi, hi']
        simp only [List.length_map, List.zip_map', List.all_map, true_and, decide_eq_true_eq]
        rw [List.all_eq_true]
        intro x hx
        exact ih x hx fuel _
  | @hash h i t t' xs hh hi hp hp' _ _ ihk ihv =>
    intro fuel path
    cases fuel with
    | zero => rfl
    | succ fuel =>
      have here := hash_of_getElem? (hs.hashes _ _ hh)
      have there := hash_of_getElem? (hs'.hashes _ _ hi)
      rw [Store.sameIn]
      by_cases met : i = h ∨ (Container.hash i, Container.hash h) ∈ path
      · rw [if_pos met]
      · rw [if_neg met, here, there, hp, hp']
        simp only [List.length_map, List.zip_map', List.all_map, true_and, decide_eq_true_eq]
        rw [List.all_eq_true]
        intro x hx
        show (_ && _) = true
        rw [ihk x hx fuel _, ihv x hx fuel _]
        rfl

theorem MadeLike.same (h : MadeLike s s' v w) (hs : s.Extends t) (hs' : s'.Extends t) :
    t.same w v = true :=
  h.sameIn hs hs' _ _

end

/-- In a frame of the store `s₀`, the expression of the datum makes a copy of `v`. -/
structure Copies (f : FrameId) (s : Store) (v : Value) (d : Datum) (s₀ : Store) (w : Value)
    (s' : Store) : Prop where
  settles : Settles (fun fuel => perform fuel (.expr f d.expr)) s₀ w s'
  kept : s₀.Extends s'
  holds : Holds s' w d
  alike : MadeLike s s' v w

section
variable {f : FrameId} {s s₀ : Store}

/-! ## Integers -/

theorem settles_literal (l : Literal) :
    Settles (fun fuel => perform fuel (.expr f (.literal l))) s (.ofLiteral l) s :=
  settles_expr (settles_of_eq fun _ => rfl)

theorem checked_of_toInt (n : Int64) : Number.checked? n.toInt = some n := by
  have upper := n.toInt_lt
  have lower := n.le_toInt
  rw [Number.checked?, if_pos, Int64.ofInt_toInt]
  exact ⟨lower, by rw [Number.largest]; omega⟩

theorem settles_int {n : Int64} (hn : n ≠ Int64.minValue) :
    Settles (fun fuel => perform fuel (.expr f (Datum.int n).expr)) s (.int n) s := by
  rw [Datum.int]
  by_cases h : 0 ≤ n.toInt
  · rw [if_pos h]
    exact settles_literal (.integer n)
  · rw [if_neg h]
    refine settles_expr ((settles_literal (.integer _)).bind (settles_of_eq fun _ => ?_))
    show Eval.integer .negation (-(Int64.ofInt (-n.toInt)).toInt) s = _
    rw [toInt_negated hn, Int.neg_neg, Eval.integer, checked_of_toInt]
    rfl

theorem settles_range {a b : Int64} (ha : a ≠ Int64.minValue) (hb : b ≠ Int64.minValue) :
    Settles (fun fuel => perform fuel (.expr f (Datum.range a b).expr)) s (.range a b) s :=
  settles_expr ((settles_int ha).bind ((settles_int hb).bind (settles_of_eq fun _ => rfl)))

theorem copies_atom {v : Value} {d : Datum} (h : ∀ s, Holds s v d) (ha : ∀ a, v ≠ .array a)
    (hh : ∀ h, v ≠ .hash h) (he : v.sameAtom v = true)
    (hs : Settles (fun fuel => perform fuel (.expr f d.expr)) s₀ v s₀) :
    Copies f s v d s₀ v s₀ :=
  ⟨hs, .refl s₀, h s₀, .atom ha hh he⟩

/-! ## Arrays -/

/-- The copies of some values, each of them where all of them are. -/
def Copied (s s' : Store) (z : (Value × Datum) × Value) : Prop :=
  Holds s' z.2 z.1.2 ∧ MadeLike s s' z.1.1 z.2

theorem settles_items {xs : List (Value × Datum)}
    (h : ∀ x ∈ xs, ∀ s₀, ∃ w s', Copies f s x.1 x.2 s₀ w s') (s₀ : Store) (done : Array Value) :
    ∃ (zs : List ((Value × Datum) × Value)) (s' : Store),
      Settles (fun fuel => eachOnto (fun e => perform fuel (.expr f e)) done
        (xs.map fun x => x.2.expr)) s₀ (done ++ (zs.map (·.2)).toArray) s' ∧
      s₀.Extends s' ∧ zs.map (·.1) = xs ∧ ∀ z ∈ zs, Copied s s' z := by
  induction xs generalizing s₀ done with
  | nil =>
    refine ⟨[], s₀, settles_of_eq fun _ => ?_, .refl s₀, rfl, by simp⟩
    simp [eachOnto, pure, Eval.pure]
  | cons x xs ih =>
    obtain ⟨w, s₁, hw⟩ := h x List.mem_cons_self s₀
    obtain ⟨zs, s₂, hs, kept, e, hz⟩ :=
      ih (fun y hy => h y (List.mem_cons_of_mem _ hy)) s₁ (done.push w)
    refine ⟨(x, w) :: zs, s₂, ?_, hw.kept.trans kept, by rw [List.map_cons, e], ?_⟩
    · have both := hw.settles.bind (k := fun fuel b => eachOnto
        (fun e => perform fuel (.expr f e)) (done.push b) (xs.map fun x => x.2.expr)) hs
      have here : done ++ (((x, w) :: zs).map (·.2)).toArray =
          done.push w ++ (zs.map (·.2)).toArray := by simp
      rw [here]
      exact both
    · intro z hz'
      rcases List.mem_cons.mp hz' with rfl | hz'
      · exact ⟨hw.holds.mono kept, hw.alike.mono kept⟩
      · exact hz z hz'

theorem getElem?_push_size {α : Type} (xs : Array α) (x : α) : (xs.push x)[xs.size]? = some x := by
  simp

theorem copies_array {a : ArrayId} {items : Array Value} {xs : List (Value × Datum)}
    (ha : s.arrays[a.index]? = some items) (hi : items.toList = xs.map (·.1))
    (h : ∀ x ∈ xs, ∀ s₀, ∃ w s', Copies f s x.1 x.2 s₀ w s') (s₀ : Store) :
    ∃ w s', Copies f s (.array a) (.array (xs.map (·.2))) s₀ w s' := by
  obtain ⟨zs, s', hs, kept, e, hz⟩ := settles_items h s₀ #[]
  have made : s'.Extends (s'.addArray (zs.map (·.2)).toArray).2 := extends_addArray s' _
  have there : (s'.addArray (zs.map (·.2)).toArray).2.arrays[s'.arrays.size]? =
      some (zs.map (·.2)).toArray := getElem?_push_size _ _
  refine ⟨.array ⟨s'.arrays.size⟩, (s'.addArray (zs.map (·.2)).toArray).2, ?_, kept.trans made,
    ?_, ?_⟩
  · rw [Array.empty_append] at hs
    have values : Settles (fun fuel => evalArgs (perform fuel) f (xs.map fun x => x.2.expr)) s₀
        (zs.map (·.2)) s' :=
      hs.bind (k := fun _ (vs : Array Value) => pure vs.toList) (settles_of_eq fun _ => rfl)
    have written : (Datum.array (xs.map (·.2))).expr = .array (xs.map fun x => x.2.expr) :=
      congrArg Expr.array List.map_map
    rw [written]
    exact settles_expr (values.bind (k := fun _ (vs : List Value) => newArray vs.toArray)
      (settles_of_eq fun _ => rfl))
  · have items' : (zs.map (·.2)).toArray.toList = (zs.map fun z => (z.2, z.1.2)).map (·.1) := by
      simp
    have copy := Holds.array (a := ⟨s'.arrays.size⟩) there items' ?_
    · rw [List.map_map] at copy
      rw [← e, List.map_map]
      exact copy
    · intro x hx
      obtain ⟨z, hz', rfl⟩ := List.mem_map.mp hx
      exact (hz z hz').1.mono made
  · have items' : items.toList = (zs.map fun z => (z.1.1, z.2)).map (·.1) := by
      rw [hi, ← e]
      simp
    refine .array ha there items' (by simp) fun x hx => ?_
    obtain ⟨z, hz', rfl⟩ := List.mem_map.mp hx
    exact (hz z hz').2.mono made

/-! ## Hashes -/

theorem insert_new {t : HashTable} {k : HashKey} (h : ∀ x ∈ t.index, x.1 ≠ k)
    (given value : Value) : t.insert k given value =
      ⟨t.entries.push ⟨given, value⟩, (k, t.entries.size) :: t.index⟩ := by
  have new : t.position? k = none := by
    rw [HashTable.position?, List.lookup_eq_none_iff]
    intro x hx
    exact bne_iff_ne.mpr (h x hx).symm
  exact HashTable.insert_of_none new given value

theorem settles_entries {xs : List ((Value × Datum) × (Value × Datum))}
    (hk : ∀ x ∈ xs, ∀ s₀, ∃ w s', Copies f s x.1.1 x.1.2 s₀ w s')
    (hv : ∀ x ∈ xs, ∀ s₀, ∃ w s', Copies f s x.2.1 x.2.2 s₀ w s')
    (keys : ∀ x ∈ xs, x.1.2.key.isSome = true) (distinct : (xs.map fun x => x.1.2.key).Nodup)
    (s₀ : Store) (t : HashTable) (new : ∀ x ∈ xs, ∀ e ∈ t.index, x.1.2.key ≠ some e.1) :
    ∃ (zs : List (((Value × Datum) × Value) × ((Value × Datum) × Value))) (t' : HashTable)
      (s' : Store), Settles (fun fuel => evalEntries (perform fuel) f t
        (xs.map fun x => (x.1.2.expr, x.2.2.expr))) s₀ t' s' ∧
      t'.pairs = t.pairs ++ zs.map (fun z => (z.1.2, z.2.2)) ∧ s₀.Extends s' ∧
      zs.map (fun z => (z.1.1, z.2.1)) = xs ∧ ∀ z ∈ zs, Copied s s' z.1 ∧ Copied s s' z.2 := by
  induction xs generalizing s₀ t with
  | nil => exact ⟨[], t, s₀, settles_of_eq fun _ => rfl, by simp, .refl s₀, rfl, by simp⟩
  | cons x xs ih =>
    obtain ⟨w, s₁, hw⟩ := hk x List.mem_cons_self s₀
    obtain ⟨u, s₂, hu⟩ := hv x List.mem_cons_self s₁
    obtain ⟨k, key⟩ := Option.isSome_iff_exists.mp (keys x List.mem_cons_self)
    have found : s₂.hashKey w = .ok k := (hashKey_holds (hw.holds.mono hu.kept) k).mpr key
    have fresh : ∀ e ∈ t.index, e.1 ≠ k := by
      intro e he same
      rw [← same] at key
      exact new x List.mem_cons_self e he key
    rw [List.map_cons, List.nodup_cons] at distinct
    obtain ⟨other, distinct⟩ := distinct
    have new' : ∀ y ∈ xs, ∀ e ∈ (t.insert k w u).index, y.1.2.key ≠ some e.1 := by
      intro y hy e he
      rw [insert_new fresh] at he
      rcases List.mem_cons.mp he with rfl | he
      · intro same
        rw [← key] at same
        exact other (List.mem_map.mpr ⟨y, hy, same⟩)
      · exact new y (List.mem_cons_of_mem _ hy) e he
    obtain ⟨zs, t', s', hs, pairs, kept, e, hz⟩ :=
      ih (fun y hy => hk y (List.mem_cons_of_mem _ hy)) (fun y hy => hv y (List.mem_cons_of_mem _ hy))
        (fun y hy => keys y (List.mem_cons_of_mem _ hy)) distinct s₂ (t.insert k w u) new'
    refine ⟨((x.1, w), (x.2, u)) :: zs, t', s', ?_, ?_, hw.kept.trans (hu.kept.trans kept), ?_, ?_⟩
    · exact hw.settles.bind (hu.settles.bind
        ((settles_of_eq fun _ => HashTable.put_of_key found t u).bind hs))
    · rw [pairs, insert_new fresh]
      simp [HashTable.pairs]
    · rw [List.map_cons, e]
    · intro z hz'
      rcases List.mem_cons.mp hz' with rfl | hz'
      · exact ⟨⟨hw.holds.mono (hu.kept.trans kept), hw.alike.mono (hu.kept.trans kept)⟩,
          hu.holds.mono kept, hu.alike.mono kept⟩
      · exact hz z hz'

theorem copies_hash {h : HashId} {t : HashTable} {xs : List ((Value × Datum) × (Value × Datum))}
    (hh : s.hashes[h.index]? = some t) (hp : t.pairs = xs.map fun x => (x.1.1, x.2.1))
    (hk : ∀ x ∈ xs, ∀ s₀, ∃ w s', Copies f s x.1.1 x.1.2 s₀ w s')
    (hv : ∀ x ∈ xs, ∀ s₀, ∃ w s', Copies f s x.2.1 x.2.2 s₀ w s')
    (keys : ∀ x ∈ xs, x.1.2.key.isSome = true) (distinct : (xs.map fun x => x.1.2.key).Nodup)
    (s₀ : Store) :
    ∃ w s', Copies f s (.hash h) (.hash (xs.map fun x => (x.1.2, x.2.2))) s₀ w s' := by
  obtain ⟨zs, t', s', hs, pairs, kept, e, hz⟩ :=
    settles_entries hk hv keys distinct s₀ .empty (by simp [HashTable.empty])
  have made : s'.Extends (s'.addHash t').2 := extends_addHash s' t'
  have there : (s'.addHash t').2.hashes[s'.hashes.size]? = some t' := getElem?_push_size _ _
  have pairs : t'.pairs = zs.map fun z => (z.1.2, z.2.2) := pairs
  refine ⟨.hash ⟨s'.hashes.size⟩, (s'.addHash t').2, ?_, kept.trans made, ?_, ?_⟩
  · have written : (Datum.hash (xs.map fun x => (x.1.2, x.2.2))).expr =
        .hash (xs.map fun x => (x.1.2.expr, x.2.2.expr)) :=
      congrArg Expr.hash List.map_map
    rw [written]
    exact settles_expr (hs.bind (settles_of_eq fun _ => rfl))
  · have pairs' : t'.pairs = (zs.map fun z => ((z.1.2, z.1.1.2), (z.2.2, z.2.1.2))).map
        fun x => (x.1.1, x.2.1) := by
      rw [pairs, List.map_map]
      rfl
    have copy := Holds.hash (h := ⟨s'.hashes.size⟩) there pairs' ?_ ?_ ?_ ?_
    · rw [List.map_map] at copy
      rw [← e, List.map_map]
      exact copy
    · intro x hx
      obtain ⟨z, hz', rfl⟩ := List.mem_map.mp hx
      exact (hz z hz').1.1.mono made
    · intro x hx
      obtain ⟨z, hz', rfl⟩ := List.mem_map.mp hx
      exact (hz z hz').2.1.mono made
    · intro x hx
      obtain ⟨z, hz', rfl⟩ := List.mem_map.mp hx
      rw [← e] at keys
      exact keys (z.1.1, z.2.1) (List.mem_map.mpr ⟨z, hz', rfl⟩)
    · rw [← e, List.map_map] at distinct
      rw [List.map_map]
      exact distinct
  · have pairs' : t.pairs = (zs.map fun z => ((z.1.1.1, z.1.2), (z.2.1.1, z.2.2))).map
        fun x => (x.1.1, x.2.1) := by
      rw [hp, ← e, List.map_map, List.map_map]
      rfl
    refine .hash hh there pairs' ?_ ?_ ?_
    · rw [pairs, List.map_map]
      rfl
    · intro x hx
      obtain ⟨z, hz', rfl⟩ := List.mem_map.mp hx
      exact (hz z hz').1.2.mono made
    · intro x hx
      obtain ⟨z, hz', rfl⟩ := List.mem_map.mp hx
      exact (hz z hz').2.2.mono made

/-! ## All data -/

theorem Holds.copies {v : Value} {d : Datum} (h : Holds s v d) (f : FrameId) :
    ∀ s₀, ∃ w s', Copies f s v d s₀ w s' := by
  induction h with
  | nil =>
    intro s₀
    exact ⟨_, _, copies_atom (fun _ => .nil) (by simp) (by simp) rfl (settles_literal .nil)⟩
  | bool b =>
    intro s₀
    refine ⟨_, _, copies_atom (fun _ => .bool b) (by simp) (by simp) (by simp [Value.sameAtom]) ?_⟩
    cases b with
    | true => exact settles_literal (.bool true)
    | false => exact settles_literal (.bool false)
  | @int n hn =>
    intro s₀
    exact ⟨_, _, copies_atom (fun _ => .int hn) (by simp) (by simp) (by simp [Value.sameAtom])
      (settles_int hn)⟩
  | @str t ht =>
    intro s₀
    exact ⟨_, _, copies_atom (fun _ => .str ht) (by simp) (by simp) (by simp [Value.sameAtom])
      (settles_literal (.str t))⟩
  | @symbol t ht =>
    intro s₀
    exact ⟨_, _, copies_atom (fun _ => .symbol ht) (by simp) (by simp) (by simp [Value.sameAtom])
      (settles_literal (.symbol t))⟩
  | @range a b ha hb =>
    intro s₀
    exact ⟨_, _, copies_atom (fun _ => .range ha hb) (by simp) (by simp) (by simp [Value.sameAtom])
      (settles_range ha hb)⟩
  | array ha hi _ ih => exact copies_array ha hi ih
  | hash hh hp _ _ keys distinct ihk ihv => exact copies_hash hh hp ihk ihv keys distinct

end

end ObjectLang
