import ObjectLang.Proofs.Eval.Loops
import ObjectLang.Proofs.Eval.Preserve

/-!
# Iterators

`for`, `each`, `map`, `times` and `upto` run their body once for each element of a sequence that is
fixed when the iteration begins: the elements of an array, the entries of a hash, or integers in
increasing order. What a run of the body does to the collection comes too late to matter, also to
the arrays in which the entries of a hash are handed out one by one.
-/

namespace ObjectLang

open Eval Store

/-! ## Sequences -/

/-- The list has the integers with the property, in increasing order. -/
structure Ascending (ns : List Int64) (p : Int64 → Prop) : Prop where
  sorted : ns.Pairwise (· < ·)
  mem : ∀ n, n ∈ ns ↔ p n

/-- The store with an array for each pair, behind the others. -/
def Store.withPairs (s : Store) (pairs : List (Value × Value)) : Store :=
  { s with arrays := s.arrays ++ (pairs.map fun p => #[p.1, p.2]).toArray }

/-- The pairs as elements, in the arrays that they have there. -/
def Store.pairElements (s : Store) (pairs : List (Value × Value)) : List ObjectLang.Element :=
  pairs.mapIdx fun i p => .pair ⟨s.arrays.size + i⟩ p.1 p.2

/-- What a collection has in it, in order, and the store in which the iteration begins. -/
inductive Store.Enumerates (s : Store) : Value → List ObjectLang.Element → Store → Prop where
  | array (a : ArrayId) : s.Enumerates (.array a) ((s.array a).toList.map .value) s
  | hash (t : HashId) : s.Enumerates (.hash t) (s.pairElements (s.hash t).pairs)
      (s.withPairs (s.hash t).pairs)
  | range {lower upper : Int64} {ns : List Int64}
      (all : Ascending ns fun n => lower ≤ n ∧ n ≤ upper) :
      s.Enumerates (.range lower upper) ((ns.map Value.int).map .value) s

def Value.IsCollection : Value → Prop
  | .array _ | .hash _ | .range _ _ => True
  | _ => False

/-- A turn of a `for` loop. -/
def bodyTurn (f : FrameId) (n : String) (body : Expr) (x : Element) : Eval Value := do
  change (·.setLocal f n x.toValue)
  performer (.expr f body)

/-- A turn of a method that is given a block. -/
def blockTurn (b : ProcId) (spread : Bool) (x : Element) : Eval Value :=
  callBlock performer b (x.arguments spread)

/-! ## Integers -/

theorem exists_ascending {lower upper : Int} (low : Number.smallest ≤ lower)
    (high : upper ≤ Number.largest) :
    ∃ ns, Ascending ns (fun n => lower ≤ n.toInt ∧ n.toInt ≤ upper) ∧
      (Elements.between lower upper).list = ns.map Value.int := by
  simp only [Number.smallest, Number.largest] at low high
  have back {i : Nat} (hi : i < (upper - lower + 1).toNat) :
      (Int64.ofInt (lower + i)).toInt = lower + i :=
    Int64.toInt_ofInt_of_le (by omega) (by omega)
  refine ⟨(List.range (upper - lower + 1).toNat).map fun i : Nat => Int64.ofInt (lower + i),
    ⟨?_, fun n => ⟨fun h => ?_, fun between => ?_⟩⟩, (List.map_map ..).symm⟩
  · refine List.pairwise_map.mpr (List.pairwise_lt_range.imp_of_mem fun {i j} hi hj lt => ?_)
    rw [Int64.lt_iff_toInt_lt, back (List.mem_range.mp hi), back (List.mem_range.mp hj)]
    omega
  · obtain ⟨i, hi, rfl⟩ := List.mem_map.mp h
    have lt := List.mem_range.mp hi
    rw [back lt]
    omega
  · have lt : (n.toInt - lower).toNat < (upper - lower + 1).toNat := by omega
    refine List.mem_map.mpr ⟨_, List.mem_range.mpr lt, Int64.toInt_inj.mp ?_⟩
    rw [back lt]
    omega

-- The largest integer can be the last one, and there can be none.
example : (Elements.between Number.largest Number.largest).list = [.int 9223372036854775807] ∧
    (Elements.between 1 0).list = [] := ⟨rfl, rfl⟩

theorem exists_range (a b : Int64) : ∃ ns, Ascending ns (fun n => a ≤ n ∧ n ≤ b) ∧
    (Elements.between a.toInt b.toInt).list = ns.map Value.int := by
  simp only [Int64.le_iff_toInt_le]
  exact exists_ascending a.le_toInt (Int.le_of_lt_add_one b.toInt_lt)

/-- The integers below `n`, also if it is the smallest of all and nothing is below it. -/
theorem exists_below (n : Int64) : ∃ ns, Ascending ns (fun m => 0 ≤ m ∧ m < n) ∧
    (Elements.between 0 (n.toInt - 1)).list = ns.map Value.int := by
  have low : Number.smallest ≤ 0 := by decide
  have high : n.toInt - 1 ≤ Number.largest := by
    have lt := n.toInt_lt
    simp only [Number.largest]
    omega
  obtain ⟨ns, ⟨sorted, mem⟩, list⟩ := exists_ascending low high
  refine ⟨ns, ⟨sorted, fun m => (mem m).trans ?_⟩, list⟩
  rw [Int64.le_iff_toInt_le, Int64.lt_iff_toInt_lt, Int64.toInt_zero, Int.le_sub_one_iff]

/-! ## The beginning of an iteration -/

section
variable {s t : Store} {v : Value} {xs : List Element}

theorem pairElements_cons (p : Value × Value) (pairs : List (Value × Value)) :
    s.pairElements (p :: pairs) = .pair ⟨s.arrays.size⟩ p.1 p.2 ::
      (s.addArray #[p.1, p.2]).2.pairElements pairs := by
  have next (i : Nat) : s.arrays.size + (i + 1) = (s.addArray #[p.1, p.2]).2.arrays.size + i := by
    simp only [addArray, Array.size_push]
    omega
  simp only [pairElements, List.mapIdx_cons, next, Nat.add_zero]

theorem withPairs_cons (p : Value × Value) (pairs : List (Value × Value)) :
    s.withPairs (p :: pairs) = (s.addArray #[p.1, p.2]).2.withPairs pairs := by
  simp [withPairs, addArray]

theorem newPairsOnto_eq (pairs : List (Value × Value)) (s : Store) (done : Array Value) :
    eachOnto (fun p : Value × Value => newArray #[p.1, p.2]) done pairs s =
      .value (done ++ ((s.pairElements pairs).map Element.toValue).toArray)
        (s.withPairs pairs) := by
  induction pairs generalizing s done with
  | nil => simp [pairElements, withPairs, eachOnto]; rfl
  | cons p pairs ih =>
    have first : newArray #[p.1, p.2] s =
      .value (.array ⟨s.arrays.size⟩) (s.addArray #[p.1, p.2]).2 := rfl
    rw [eachOnto, bind_of_value first, ih, pairElements_cons, withPairs_cons]
    simp [Element.toValue]

theorem newPairs_eq (pairs : List (Value × Value)) (s : Store) :
    newPairs pairs s =
      .value ((s.pairElements pairs).map Element.toValue) (s.withPairs pairs) := by
  have all := newPairsOnto_eq pairs s #[]
  rw [Array.empty_append] at all
  exact bind_of_value all

theorem mem_pairElements {pairs : List (Value × Value)} {x : Element}
    (h : x ∈ s.pairElements pairs) : ∃ (i : Nat) (p : Value × Value), pairs[i]? = some p ∧
      x = .pair ⟨s.arrays.size + i⟩ p.1 p.2 := by
  obtain ⟨i, hi, rfl⟩ := List.mem_mapIdx.mp h
  exact ⟨i, pairs[i], List.getElem?_eq_getElem hi, rfl⟩

theorem not_hasArray_pair (s : Store) (i : Nat) : ¬ s.HasArray ⟨s.arrays.size + i⟩ :=
  Nat.not_lt.mpr (Nat.le_add_right _ _)

theorem pairElements_apart {pairs : List (Value × Value)}
    (known : ∀ p ∈ pairs, ∀ v ∈ [p.1, p.2], s.Knows v) :
    (s.pairElements pairs).Pairwise Element.Apart := by
  refine List.pairwise_iff_getElem.mpr fun i j hi hj lt => ?_
  simp only [pairElements, List.length_mapIdx] at hi hj
  simp only [pairElements, List.getElem_mapIdx]
  have self : Value.array ⟨s.arrays.size + i⟩ ≠ .array ⟨s.arrays.size + j⟩ := by
    simp only [ne_eq, Value.array.injEq, ArrayId.mk.injEq]
    omega
  refine ⟨self, fun spread w hw => ?_⟩
  cases spread with
  | true => exact (known _ (List.getElem_mem hi) w hw).ne_array (not_hasArray_pair s j)
  | false => exact List.mem_singleton.mp hw ▸ self

theorem pairElements_hidden (h : s.Sound) {pairs : List (Value × Value)}
    (known : ∀ p ∈ pairs, ∀ v ∈ [p.1, p.2], s.Knows v) :
    ∀ x ∈ s.pairElements pairs, x.Hidden (s.withPairs pairs) := by
  intro x hx
  obtain ⟨i, p, hp, rfl⟩ := mem_pairElements hx
  refine h.hides (not_hasArray_pair s i) ?_ fun vs hvs v hv => ?_
  · rw [Array.getElem?_append_right (Nat.le_add_right _ _), Nat.add_sub_cancel_left]
    simp [hp]
  · rcases Array.mem_append.mp hvs with old | new
    · exact h.arrays _ vs (Array.getElem?_of_mem old).choose_spec v hv
    · obtain ⟨q, hq, rfl⟩ := List.mem_map.mp (List.mem_toArray.mp new)
      exact known q hq v (List.mem_toArray.mp hv)

theorem elements_hash (h : s.Sound) (a : HashId) : ∃ es,
    elements (.hash a) s = .value es (s.withPairs (s.hash a).pairs) ∧
      es.Lists (s.withPairs (s.hash a).pairs) (s.pairElements (s.hash a).pairs) := by
  have known : ∀ p ∈ (s.hash a).pairs, ∀ v ∈ [p.1, p.2], s.Knows v := fun p hp =>
    have both := HashTable.Forall.pairs (h.hash a) p hp
    List.forall_mem_cons.mpr ⟨both.1, List.forall_mem_singleton.mpr both.2⟩
  refine ⟨.values ((s.pairElements (s.hash a).pairs).map Element.toValue), ?_, rfl,
    pairElements_apart known, pairElements_hidden h known⟩
  exact bind_of_value (newPairs_eq _ s)

theorem exists_enumerates (h : s.Sound) (collection : v.IsCollection) : ∃ xs t es,
    s.Enumerates v xs t ∧ elements v s = .value es t ∧ es.Lists t xs := by
  cases v with
  | array a => exact ⟨_, s, .values (s.array a).toList, .array a, rfl, Elements.lists_values rfl⟩
  | hash a =>
    obtain ⟨es, begins, lists⟩ := elements_hash h a
    exact ⟨_, _, es, .hash a, begins, lists⟩
  | range lower upper =>
    obtain ⟨ns, all, list⟩ := exists_range lower upper
    exact ⟨_, s, .between lower.toInt upper.toInt, .range all, rfl, Elements.lists_values list⟩
  | _ => exact collection.elim

/-! ## Turns -/

theorem bodyTurn_kept (f : FrameId) (n : String) (body : Expr) (x : Element) (a : ArrayId)
    (items : Array Value) (h : x.Spares a) : Passes (.hiding a items) (bodyTurn f n body x) :=
  .change (fun _ hs => hs.setLocal f n (Value.obeys_hiding h.toValue))
    (performer_upholds (G := .hiding a items) (.expr f body) trivial).passes

theorem blockTurn_kept (b : ProcId) (spread : Bool) (x : Element) (a : ArrayId)
    (items : Array Value) (h : x.Spares a) : Passes (.hiding a items) (blockTurn b spread x) :=
  (upholds_callBlock performer_upholds b fun v hv =>
    Value.obeys_hiding (h.arguments spread v hv)).passes

/-- A block that is given the element as it is. -/
theorem blockTurn_toValue (b : ProcId) (x : Element) :
    callBlock performer b [x.toValue] = blockTurn b false x := by
  cases x <;> rfl

/-- Only the pairs of a hash are spread, and they are what they were when the iteration began. -/
theorem blockTurn_spread {b : ProcId} {params : Nat} (xs_of : s.Enumerates v xs t) :
    ∀ x ∈ xs, ∀ t, x.Holds t →
      (blockArguments (v.isHash && 1 < params) x.toValue >>= callBlock performer b) t =
        blockTurn b (1 < params) x t := by
  have value (w : Value) : blockArguments false w >>= callBlock performer b =
      blockTurn b (1 < params) (.value w) := by
    cases w <;> rfl
  intro x hx t holds
  cases xs_of with
  | array | range =>
    obtain ⟨w, _, rfl⟩ := List.mem_map.mp hx
    exact congrFun (value w) t
  | hash =>
    obtain ⟨i, p, _, rfl⟩ := mem_pairElements hx
    change (blockArguments (decide (1 < params)) _ >>= _) t = _
    unfold blockTurn Element.arguments
    cases decide (1 < params) with
    | true => exact bind_of_read (congrArg Array.toList holds)
    | false => rfl

/-! ## Rules without a bound -/

theorem performer_forIn (f : FrameId) (n : String) (c body : Expr) :
    performer (.expr f (.forIn n c body)) = evalForIn performer f n c body := by
  have rule : Limit (fun fuel => evalForIn (perform fuel) f n c body)
      (evalForIn performer f n c body) :=
    (limit_perform _).bind fun v => (limit_const _).bind fun es =>
      (limit_elementsVisit (fun w => (limit_const _).bind fun _ =>
        (limit_perform _).bind fun _ => limit_const _) es).bind fun _ => limit_const _
  exact (limit_perform _).later.unique rule

variable (f : FrameId) (b : ProcId)

theorem performer_each (v : Value) :
    performer (.invoke f (.builtin .each) (some v) [.proc b]) =
      eachElement performer v [.proc b] := by
  have rule : Limit (fun fuel => eachElement (perform fuel) v [.proc b])
      (eachElement performer v [.proc b]) :=
    (limit_const _).bind fun b => (limit_const _).bind fun _ => (limit_const _).bind fun es =>
      (limit_elementsVisit (fun w => (limit_const _).bind fun vs =>
        (limit_callBlock b vs).bind fun _ => limit_const _) es).bind fun _ => limit_const _
  exact (limit_perform _).later.unique rule

theorem performer_map (v : Value) :
    performer (.invoke f (.builtin .map) (some v) [.proc b]) =
      mapElements performer v [.proc b] := by
  have rule : Limit (fun fuel => mapElements (perform fuel) v [.proc b])
      (mapElements performer v [.proc b]) :=
    (limit_const _).bind fun b => (limit_const _).bind fun es =>
      (limit_elementsMap (fun w => limit_callBlock b [w]) es).bind fun _ => limit_const _
  exact (limit_perform _).later.unique rule

/-- The block for each integer between the bounds, as `times` and `upto` run it. -/
theorem limit_count (lower upper : Int) (v : Value) :
    Limit (fun fuel => do
        (Elements.between lower upper).visit fun v => do
          let _ ← callBlock (perform fuel) b [v]
        pure v)
      (do
        (Elements.between lower upper).visit fun v => do
          let _ ← callBlock performer b [v]
        pure v) :=
  (limit_elementsVisit (fun w => (limit_callBlock b [w]).bind fun _ => limit_const _) _).bind
    fun _ => limit_const _

theorem performer_upto (lower upper : Int64) :
    performer (.invoke f (.builtin .upto) (some (.int lower)) [.int upper, .proc b]) =
      upto performer (.int lower) (.int upper) [.int upper, .proc b] := by
  have rule : Limit
      (fun fuel => upto (perform fuel) (.int lower) (.int upper) [.int upper, .proc b])
      (upto performer (.int lower) (.int upper) [.int upper, .proc b]) :=
    limit_count b lower.toInt upper.toInt (.int lower)
  exact (limit_perform _).later.unique rule

theorem performer_times (n : Int64) :
    performer (.invoke f (.builtin .times) (some (.int n)) [.proc b]) =
      times performer (.int n) [.proc b] := by
  have rule : Limit (fun fuel => times (perform fuel) (.int n) [.proc b])
      (times performer (.int n) [.proc b]) :=
    limit_count b 0 (n.toInt - 1) (.int n)
  exact (limit_perform _).later.unique rule

theorem performer_toArray (v : Value) :
    performer (.invoke f (.builtin .toA) (some v) []) = toArray v :=
  (limit_perform _).later.unique (limit_const _)

/-! ## Iterators -/

theorem forIn_iterates (h : s.Sound) (hf : s.HasFrame f) (n : String) {c : Expr} (body : Expr)
    (begun : performer (.expr f c) s = .value v t) (collection : v.IsCollection) : ∃ xs t',
      t.Enumerates v xs t' ∧ Iterates (bodyTurn f n body) t' xs (fun _ => .value v)
        (performer (.expr f (.forIn n c body)) s) := by
  have sound : t.Sound := by
    have does := performer_sound.expr c h hf
    rw [Answers, Does, begun] at does
    exact does.1.sound
  obtain ⟨xs, t', es, enumerates, begins, lists⟩ := exists_enumerates sound collection
  refine ⟨xs, t', enumerates, ?_⟩
  rw [performer_forIn, evalForIn, bind_of_value begun, bind_of_value begins]
  exact lists.visits (bodyTurn_kept f n body) (fun _ _ _ _ => rfl)
    (fun _ => (bind_assoc ..).symm) (pure v)

theorem each_iterates {es : Elements} (enumerates : s.Enumerates v xs t)
    (begins : elements v s = .value es t) (lists : es.Lists t xs) :
    Iterates (blockTurn b (1 < (s.block b).params.length)) t xs (fun _ => .value v)
      (performer (.invoke f (.builtin .each) (some v) [.proc b]) s) := by
  rw [performer_each]
  change Iterates _ _ _ _ ((elements v >>= _) s)
  rw [bind_of_value begins]
  exact lists.visits (blockTurn_kept b _) (blockTurn_spread enumerates)
    (fun _ => (bind_assoc ..).symm) (pure v)

theorem map_iterates {es : Elements} (begins : elements v s = .value es t)
    (lists : es.Lists t xs) :
    Iterates (blockTurn b false) t xs
      (fun vs t => .value (.array ⟨t.arrays.size⟩) { t with arrays := t.arrays.push vs.toArray })
      (performer (.invoke f (.builtin .map) (some v) [.proc b]) s) := by
  rw [performer_map]
  change Iterates _ _ _ _ ((elements v >>= _) s)
  rw [bind_of_value begins, es.map_eq]
  exact lists.collects (blockTurn_kept b false)
    (fun x _ t _ => congrFun (blockTurn_toValue b x) t) newArray

theorem count_iterates {lower upper : Int} {ns : List Int64}
    (list : (Elements.between lower upper).list = ns.map Value.int) (v : Value) :
    Iterates (blockTurn b false) s ((ns.map Value.int).map .value) (fun _ => .value v)
      ((do
        (Elements.between lower upper).visit fun v => do
          let _ ← callBlock performer b [v]
        pure v : Eval Value) s) :=
  (Elements.lists_values list).visits (blockTurn_kept b false)
    (fun x _ t _ => congrFun (blockTurn_toValue b x) t) (fun _ => rfl) (pure v)

theorem toArray_lists {lower upper : Int64} {ns : List Int64}
    (list : (Elements.between lower.toInt upper.toInt).list = ns.map Value.int) :
    performer (.invoke f (.builtin .toA) (some (.range lower upper)) []) s =
      if s.hasRoom ns.length then
        .value (.array ⟨s.arrays.size⟩)
          { s with arrays := s.arrays.push (ns.map Value.int).toArray }
      else .fault .allocationFailed s := by
  have size := (Elements.between lower.toInt upper.toInt).size_eq
  rw [list, List.length_map] at size
  rw [performer_toArray, toArray]
  change (if s.hasRoom (Elements.between _ _).size then _ else _ : Eval Value) s = _
  rw [size, Elements.toArray_eq, list]
  split <;> rfl

end

/-- Every iterator visits its sequence. `for`, `each` and `map` take a turn for each element that
the collection has when the iteration begins, `upto` and `times` for each integer between their
bounds, and `to_a` lists the integers of a range or has no room for them. -/
theorem iterators_visit {s : Store} (h : s.Sound) (f : FrameId) :
    (∀ n c body v t, s.HasFrame f → performer (.expr f c) s = .value v t → v.IsCollection →
      ∃ xs t', t.Enumerates v xs t' ∧ Iterates (bodyTurn f n body) t' xs (fun _ => .value v)
        (performer (.expr f (.forIn n c body)) s)) ∧
    (∀ b v, v.IsCollection → ∃ xs t, s.Enumerates v xs t ∧
      Iterates (blockTurn b (1 < (s.block b).params.length)) t xs (fun _ => .value v)
        (performer (.invoke f (.builtin .each) (some v) [.proc b]) s) ∧
      Iterates (blockTurn b false) t xs
        (fun vs t => .value (.array ⟨t.arrays.size⟩) { t with arrays := t.arrays.push vs.toArray })
        (performer (.invoke f (.builtin .map) (some v) [.proc b]) s)) ∧
    (∀ lower upper, ∃ ns, Ascending ns (fun n => lower ≤ n ∧ n ≤ upper) ∧
      (∀ b, Iterates (blockTurn b false) s ((ns.map Value.int).map .value)
        (fun _ => .value (.int lower))
        (performer (.invoke f (.builtin .upto) (some (.int lower)) [.int upper, .proc b]) s)) ∧
      performer (.invoke f (.builtin .toA) (some (.range lower upper)) []) s =
        if s.hasRoom ns.length then
          .value (.array ⟨s.arrays.size⟩)
            { s with arrays := s.arrays.push (ns.map Value.int).toArray }
        else .fault .allocationFailed s) ∧
    (∀ n, ∃ ns, Ascending ns (fun m => 0 ≤ m ∧ m < n) ∧
      ∀ b, Iterates (blockTurn b false) s ((ns.map Value.int).map .value)
        (fun _ => .value (.int n))
        (performer (.invoke f (.builtin .times) (some (.int n)) [.proc b]) s)) := by
  refine ⟨fun n c body v t hf begun collection => ?_, fun b v collection => ?_,
    fun lower upper => ?_, fun n => ?_⟩
  · exact forIn_iterates f h hf n body begun collection
  · obtain ⟨xs, t, es, enumerates, begins, lists⟩ := exists_enumerates h collection
    exact ⟨xs, t, enumerates, each_iterates f b enumerates begins lists,
      map_iterates f b begins lists⟩
  · obtain ⟨ns, all, list⟩ := exists_range lower upper
    refine ⟨ns, all, fun b => ?_, toArray_lists f list⟩
    rw [performer_upto]
    exact count_iterates b list (.int lower)
  · obtain ⟨ns, all, list⟩ := exists_below n
    refine ⟨ns, all, fun b => ?_⟩
    rw [performer_times]
    exact count_iterates b list (.int n)

/-- The hash `{1 => 2}`, bound to a name. -/
def boundPair : Expr :=
  .assign "h" (.hash [(.literal (.integer 1), .literal (.integer 2))])

/-- Adds an entry to the hash. -/
def addEntry : Expr :=
  .assignIndexed (.name "h") (.literal (.integer 3)) (.literal (.integer 4))

-- The new entry is not visited, and does not keep the loop from ending.
example : ∃ s, perform 4 (.expr Machine.root (.forIn "x" boundPair addEntry)) coreStore =
    .value (.hash ⟨0⟩) s := ⟨_, rfl⟩

/-- A loop over a hash that grows meanwhile. -/
theorem iterators_visit_hash : coreStore.Sound ∧ coreStore.HasFrame Machine.root ∧ ∃ t,
    performer (.expr Machine.root boundPair) coreStore = .value (.hash ⟨0⟩) t ∧
    (Value.hash ⟨0⟩).IsCollection ∧
    ∃ xs t', t.Enumerates (.hash ⟨0⟩) xs t' ∧
      Iterates (bodyTurn Machine.root "x" addEntry) t' xs (fun _ => .value (.hash ⟨0⟩))
        (performer (.expr Machine.root (.forIn "x" boundPair addEntry)) coreStore) := by
  have sound := core_sound .usual coreStore.output
  have root : coreStore.HasFrame Machine.root := sound.hasRoot
  have begun : performer (.expr Machine.root boundPair) coreStore = .value (.hash ⟨0⟩) _ :=
    (performer_eq_iff _ _ rfl).mpr ⟨3, rfl⟩
  exact ⟨sound, root, _, begun, trivial,
    (iterators_visit sound Machine.root).1 "x" boundPair addEntry _ _ root begun trivial⟩

end ObjectLang
