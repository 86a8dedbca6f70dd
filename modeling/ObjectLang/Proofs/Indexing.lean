import ObjectLang.Proofs.Iterators

/-!
# Indexing

An index counts from the front, or from the end if it is negative. Reading gives the element there,
and `nil` where there is none. Writing replaces one element and makes an array only as long as it
has to be; where it fails, nothing has changed.
-/

namespace ObjectLang

open Eval Store

/-! ## Positions -/

/-- The index stands for position `p` of a sequence of `size` elements. -/
def Denotes (i : Int64) (size p : Nat) : Prop :=
  i.toInt = p ∨ (p < size ∧ i.toInt = p - size)

theorem position?_eq_some_iff {i : Int64} {size p : Nat} :
    position? i.toInt size = some p ↔ Denotes i size p := by
  unfold position? Denotes
  split
  · rw [Option.some.injEq]
    omega
  split
  · rw [Option.some.injEq]
    omega
  · simp only [reduceCtorEq, false_iff]
    omega

theorem position?_eq_none_iff {i : Int64} {size : Nat} :
    position? i.toInt size = none ↔ i.toInt < -size := by
  unfold position?
  split
  · simp only [reduceCtorEq, false_iff]
    omega
  split
  · simp only [reduceCtorEq, false_iff]
    omega
  · simp only [true_iff]
    omega

/-! ## Reading -/

/-- What is read from a sequence. -/
inductive ReadAt (vs : List Value) (i : Int64) : Value → Prop where
  | element {p : Nat} {v : Value} (denotes : Denotes i vs.length p) (here : vs[p]? = some v) :
      ReadAt vs i v
  | missing (outside : i.toInt < -vs.length ∨ vs.length ≤ i.toInt) : ReadAt vs i .nil

theorem readAt_position (vs : List Value) (i : Int64) :
    ReadAt vs i (((position? i.toInt vs.length).bind (vs[·]?)).getD .nil) := by
  cases hp : position? i.toInt vs.length with
  | none => exact .missing (.inl (position?_eq_none_iff.mp hp))
  | some p =>
    have denotes := position?_eq_some_iff.mp hp
    rw [Option.bind_some]
    cases hv : vs[p]? with
    | some v => exact .element denotes hv
    | none =>
      have beyond := List.getElem?_eq_none_iff.mp hv
      refine .missing (.inr ?_)
      rcases denotes with e | ⟨lt, _⟩
      · omega
      · omega

/-- The characters of a text, each as a text of its own. -/
def characters (t : String) : List Value :=
  t.toList.map fun c => .str c.toString

section
variable {s : Store} {a : ArrayId} {t : String} {i : Int64} {v : Value}

theorem ReadAt.unique {vs : List Value} {w : Value} (h : ReadAt vs i v) (h' : ReadAt vs i w) :
    v = w := by
  have inside {p : Nat} {v : Value} (d : Denotes i vs.length p) (here : vs[p]? = some v) :
      -vs.length ≤ i.toInt ∧ i.toInt < vs.length := by
    have lt := (List.getElem?_eq_some_iff.mp here).1
    rcases d with e | ⟨_, e⟩ <;> omega
  cases h with
  | element d here =>
    have range := inside d here
    cases h' with
    | element d' here' =>
      have same := (position?_eq_some_iff.mpr d).symm.trans (position?_eq_some_iff.mpr d')
      cases same
      exact Option.some.inj (here.symm.trans here')
    | missing outside => omega
  | missing outside =>
    cases h' with
    | element d here =>
      have range := inside d here
      omega
    | missing => rfl

theorem getIndex_array (s : Store) (a : ArrayId) (i : Int64) :
    ∃ v, Value.getIndex (.array a) (.int i) s = .value v s ∧ ReadAt (s.array a).toList i v := by
  refine ⟨_, rfl, ?_⟩
  have reads := readAt_position (s.array a).toList i
  simpa only [Array.length_toList, Array.getElem?_toList] using reads

theorem getIndex_str (s : Store) (t : String) (i : Int64) :
    ∃ v, Value.getIndex (.str t) (.int i) s = .value v s ∧ ReadAt (characters t) i v := by
  refine ⟨_, rfl, ?_⟩
  have reads := readAt_position (characters t) i
  rw [characters, List.length_map] at reads
  cases hp : position? i.toInt t.toList.length with
  | none =>
    rw [hp] at reads
    exact reads
  | some p =>
    rw [hp, Option.bind_some, List.getElem?_map] at reads
    rw [Option.bind_some]
    cases hc : t.toList[p]? <;> rw [hc] at reads <;> exact reads

/-! ## Writing -/

/-- The array `after` comes from `before` by writing `v` at position `p`. -/
structure Written (before after : Array Value) (p : Nat) (v : Value) : Prop where
  size : after.size = max before.size (p + 1)
  here : after[p]? = some v
  others : ∀ q, q < before.size → q ≠ p → after[q]? = before[q]?
  gap : ∀ q, before.size ≤ q → q < p → after[q]? = some .nil

theorem written_putAt (items : Array Value) (p : Nat) (v : Value) :
    Written items (putAt items p v) p v := by
  unfold putAt
  split
  · next inside =>
    refine ⟨?_, ?_, fun q _ other => ?_, fun q _ _ => ?_⟩
    · rw [Array.size_setIfInBounds]
      omega
    · exact Array.getElem?_setIfInBounds_self_of_lt inside
    · exact Array.getElem?_setIfInBounds_ne other.symm
    · omega
  · next beyond =>
    have size : (items ++ Array.replicate (p - items.size) Value.nil).size = p := by
      rw [Array.size_append, Array.size_replicate]
      omega
    refine ⟨?_, ?_, fun q inside _ => ?_, fun q behind before => ?_⟩
    · rw [Array.size_push, size]
      omega
    · rw [Array.getElem?_push, size, if_pos rfl]
    · rw [Array.getElem?_push, size, if_neg (by omega), Array.getElem?_append_left inside]
    · rw [Array.getElem?_push, size, if_neg (by omega), Array.getElem?_append_right behind,
        Array.getElem?_replicate, if_pos (by omega)]

/-- The store with other elements in one of its arrays. -/
def Store.withArray (s : Store) (a : ArrayId) (items : Array Value) : Store :=
  { s with arrays := s.arrays.setIfInBounds a.index items }

theorem array_withArray (h : s.HasArray a) (items : Array Value) :
    (s.withArray a items).array a = items := by
  unfold Store.withArray Store.array
  rw [Array.getElem?_setIfInBounds_self_of_lt h, Option.getD_some]

theorem modifyArray_eq (h : s.HasArray a) (g : Array Value → Array Value) :
    s.modifyArray a g = s.withArray a (g (s.array a)) := by
  have items : s.array a = s.arrays[a.index] := by
    rw [Store.array, Array.getElem?_eq_getElem h, Option.getD_some]
  have arrays : s.arrays.modify a.index g = s.arrays.setIfInBounds a.index (g (s.array a)) := by
    refine Array.ext (by simp) fun j hj hj' => ?_
    rw [Array.getElem_modify, Array.getElem_setIfInBounds, items]
    split
    · next same => subst same; rfl
    · rfl
  rw [Store.modifyArray, arrays]
  rfl

/-- What writing `v` to an array comes to: it is refused in front of the array, and behind it where
there is no room for so many elements. -/
inductive WriteAt (s : Store) (a : ArrayId) (i : Int64) (v : Value) : Outcome Unit → Prop where
  | outside (before : i.toInt < -(s.array a).size) :
      WriteAt s a i v (.fault (.indexOutOfRange i) s)
  | full (behind : (s.array a).size ≤ i.toInt) (none : s.hasRoom (i.toInt + 1).toNat = false) :
      WriteAt s a i v (.fault .allocationFailed s)
  | written {p : Nat} {items : Array Value} (denotes : Denotes i (s.array a).size p)
      (room : p < (s.array a).size ∨ s.hasRoom (p + 1) = true)
      (all : Written (s.array a) items p v) :
      WriteAt s a i v (.value () (s.withArray a items))

theorem setIndex_array (h : s.HasArray a) (i : Int64) (v : Value) :
    WriteAt s a i v (Value.setIndex (.array a) (.int i) v s) := by
  have integer : indexInteger (.int i) s = .value i.toInt s := rfl
  rw [Value.setIndex, bind_of_value integer, bind_of_read rfl]
  cases hp : position? i.toInt (s.array a).size with
  | none =>
    dsimp only
    rw [Int64.ofInt_toInt]
    exact .outside (position?_eq_none_iff.mp hp)
  | some p =>
    have denotes := position?_eq_some_iff.mp hp
    dsimp only
    rw [bind_of_read rfl]
    split
    · next room =>
      change WriteAt s a i v (.value () (s.modifyArray a _))
      rw [modifyArray_eq h]
      exact .written denotes room (written_putAt _ p v)
    · next full =>
      obtain ⟨behind, none⟩ := not_or.mp full
      rcases denotes with e | ⟨inside, _⟩
      · refine .full (by omega) ?_
        rw [show (i.toInt + 1).toNat = p + 1 by omega]
        exact Bool.eq_false_iff.mpr none
      · omega

theorem getIndex_written {after : Store} (h : s.HasArray a)
    (written : WriteAt s a i v (.value () after)) :
    Value.getIndex (.array a) (.int i) after = .value v after := by
  cases written with
  | @written p items denotes room all =>
    obtain ⟨w, reads, found⟩ := getIndex_array (s.withArray a items) a i
    rw [array_withArray h] at found
    have here : items.toList[p]? = some v := by
      rw [Array.getElem?_toList]
      exact all.here
    have size := all.size
    have denotes' : Denotes i items.toList.length p := by
      rw [Array.length_toList]
      rcases denotes with e | ⟨inside, e⟩
      · exact .inl e
      · exact .inr ⟨by omega, by omega⟩
    rw [reads, found.unique (.element denotes' here)]

/-! ## Texts -/

theorem performer_textLength (f : FrameId) (t : String) (s : Store) :
    performer (.invoke f (.builtin .textLength) (some (.str t)) []) s =
      .value (.int (Int64.ofInt t.length)) s := by
  have rule : performer (.invoke f (.builtin .textLength) (some (.str t)) []) =
      withoutArgs .textLength [] (onText "length" (fun t => intValue t.length) (.str t)) :=
    (limit_perform _).later.unique (limit_const _)
  rw [rule]
  rfl

theorem join_characters (t : String) : String.join (t.toList.map Char.toString) = t := by
  rw [← String.toList_inj, String.toList_join, List.flatMap_map]
  exact (congrArg (List.flatMap · t.toList) (funext fun c => String.toList_singleton c)).trans
    (List.flatMap_singleton' _)

/-- A text is read in front of its end at the character with that number. -/
theorem getIndex_character (s : Store) {t : String} {i : Int64} {p : Nat}
    (denotes : Denotes i t.length p) (inside : p < t.length) :
    ∃ c, (t.toList.map Char.toString)[p]? = some c ∧
      Value.getIndex (.str t) (.int i) s = .value (.str c) s := by
  have inside' : p < (t.toList.map Char.toString).length := by
    rw [List.length_map, String.length_toList]
    exact inside
  have here : (t.toList.map Char.toString)[p]? = some _ := List.getElem?_eq_getElem inside'
  refine ⟨_, here, ?_⟩
  obtain ⟨v, reads, found⟩ := getIndex_str s t i
  have texts : characters t = (t.toList.map Char.toString).map Value.str := by
    rw [characters, List.map_map]
    rfl
  have element : (characters t)[p]? = some (.str (t.toList.map Char.toString)[p]) := by
    rw [texts, List.getElem?_map, here]
    rfl
  have size : (characters t).length = t.length := by
    rw [characters, List.length_map, String.length_toList]
  rw [reads, found.unique (.element (size ▸ denotes) element)]

theorem toInt_sub_of_lt {i n : Int64} (first : 0 ≤ i.toInt) (last : i.toInt < n.toInt) :
    (i - n).toInt = i.toInt - n.toInt := by
  have bound := n.toInt_lt
  rw [Int64.toInt_sub]
  exact Int.bmod_eq_of_le (by omega) (by omega)

theorem getIndex_from_end (s : Store) {t : String} {i n : Int64} (size : n.toInt = t.length)
    (first : 0 ≤ i.toInt) (last : i.toInt < n.toInt) :
    Value.getIndex (.str t) (.int (i - n)) s = Value.getIndex (.str t) (.int i) s := by
  have inside : i.toInt.toNat < t.length := by omega
  have front : Denotes i t.length i.toInt.toNat := .inl (by omega)
  have back : Denotes (i - n) t.length i.toInt.toNat :=
    .inr ⟨inside, by rw [toInt_sub_of_lt first last]; omega⟩
  obtain ⟨c, here, reads⟩ := getIndex_character s front inside
  obtain ⟨c', here', reads'⟩ := getIndex_character s back inside
  rw [reads, reads', Option.some.inj (here'.symm.trans here)]

end

/-- Arrays and texts follow one rule for positions. Writing to an array succeeds with the element
in place, or nothing has changed; what was written is read back. The characters of a text, from the
first to the last, make up the text. -/
theorem indexing_laws (s : Store) (f : FrameId) :
    (∀ a, s.HasArray a → ∀ i v,
      WriteAt s a i v (Value.setIndex (.array a) (.int i) v s) ∧
      ∀ s', Value.setIndex (.array a) (.int i) v s = .value () s' →
        Value.getIndex (.array a) (.int i) s' = .value v s') ∧
    (∀ a i, ∃ v, Value.getIndex (.array a) (.int i) s = .value v s ∧
      ReadAt (s.array a).toList i v) ∧
    (∀ t i, ∃ v, Value.getIndex (.str t) (.int i) s = .value v s ∧
      ReadAt (characters t) i v) ∧
    ∀ t : String, (t.length : Int) ≤ Number.largest → ∃ n : Int64, n.toInt = t.length ∧
      performer (.invoke f (.builtin .textLength) (some (.str t)) []) s = .value (.int n) s ∧
      (∃ cs : List String, cs.length = t.length ∧ String.join cs = t ∧
        ∀ i : Int64, 0 ≤ i.toInt → i.toInt < n.toInt → ∃ c, cs[i.toInt.toNat]? = some c ∧
          Value.getIndex (.str t) (.int i) s = .value (.str c) s) ∧
      ∀ i : Int64, 0 ≤ i.toInt → i.toInt < n.toInt →
        Value.getIndex (.str t) (.int (i - n)) s = Value.getIndex (.str t) (.int i) s := by
  refine ⟨fun a there i v => ⟨setIndex_array there i v, fun s' wrote => ?_⟩,
    getIndex_array s, getIndex_str s, fun t short => ?_⟩
  · exact getIndex_written there (wrote ▸ setIndex_array there i v)
  · have size : (Int64.ofInt t.length).toInt = t.length :=
      Int64.toInt_ofInt_of_le (by omega) (by simp only [Number.largest] at short; omega)
    refine ⟨_, size, performer_textLength f t s, ⟨t.toList.map Char.toString, ?_,
      join_characters t, fun i first last => ?_⟩, fun i => getIndex_from_end s size⟩
    · rw [List.length_map, String.length_toList]
    · exact getIndex_character s (.inl (by omega)) (by omega)

/-- An array without elements has no place for the smallest index of all, and grows for the index
one. A letter with an accent is one character. -/
theorem indexing_laws_smallest_index :
    let s := (Store.empty.addArray #[]).2
    WriteAt s ⟨0⟩ Int64.minValue .nil
      (Value.setIndex (.array ⟨0⟩) (.int Int64.minValue) .nil s) ∧
    (∃ s', Value.setIndex (.array ⟨0⟩) (.int 1) (.bool true) s = .value () s' ∧
      Value.getIndex (.array ⟨0⟩) (.int 1) s' = .value (.bool true) s') ∧
    ∃ n : Int64, n.toInt = 5 ∧
      performer (.invoke ⟨0⟩ (.builtin .textLength) (some (.str "héllo")) []) s =
        .value (.int n) s :=
  have laws := indexing_laws (Store.empty.addArray #[]).2 ⟨0⟩
  have there : (Store.empty.addArray #[]).2.HasArray ⟨0⟩ := show 0 < 1 by decide
  have length := laws.2.2.2 "héllo" (by decide)
  ⟨(laws.1 ⟨0⟩ there Int64.minValue .nil).1,
    ⟨_, rfl, (laws.1 ⟨0⟩ there 1 (.bool true)).2 _ rfl⟩, length.choose,
    length.choose_spec.1, length.choose_spec.2.1⟩

end ObjectLang
