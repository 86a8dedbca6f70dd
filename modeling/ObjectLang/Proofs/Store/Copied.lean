import ObjectLang.Proofs.Store.Shown

/-!
# Copies that share nothing

A value without a cycle is copied by copying each collection as often as it is met. The text of the
copy is that of the value, since neither has a collection inside of itself.
-/

namespace ObjectLang

open Relation

namespace Store

/-- `t` has the collections of `s`, and all else is shown as in `s`. -/
structure Enlarged (s t : Store) : Prop where
  collections : s.Extends t
  atoms : ∀ v : Value, v.IsAtom → t.inspectAtom v = s.inspectAtom v

/-- `w` in the store `t` is a copy of `v` in `s`: the same atoms in collections of the same kinds.
`made` lists the collections of the copy, each of them as often as it occurs. -/
inductive Copied (s t : Store) : Value → Value → List Container → Prop where
  | atom {v : Value} (h : v.IsAtom) : Copied s t v v []
  | collection {c d : Container} {items : List (Value × Value × List Container)}
      (kind : c.value.containers? d.value = some (c, d)) (known : d ∈ t.containers)
      (children : s.children c = items.map fun x => x.1)
      (copies : t.children d = items.map fun x => x.2.1)
      (each : ∀ x ∈ items, Copied s t x.1 x.2.1 x.2.2) :
      Copied s t c.value d.value (d :: items.flatMap fun x => x.2.2)

variable {s t t' : Store} {v w x : Value} {c d : Container} {made : List Container}

/-! ## More collections -/

theorem Enlarged.refl (s : Store) : s.Enlarged s :=
  ⟨.refl s, fun _ _ => rfl⟩

theorem Enlarged.trans (h : s.Enlarged t) (h' : t.Enlarged t') : s.Enlarged t' :=
  ⟨h.collections.trans h'.collections, fun v hv => (h'.atoms v hv).trans (h.atoms v hv)⟩

theorem enlarged_addArray (s : Store) (items : Array Value) : s.Enlarged (s.addArray items).2 :=
  ⟨extends_addArray s items, fun v _ => by cases v <;> rfl⟩

theorem enlarged_addHash (s : Store) (table : HashTable) : s.Enlarged (s.addHash table).2 :=
  ⟨extends_addHash s table, fun v _ => by cases v <;> rfl⟩

theorem mem_containers_iff : c ∈ s.containers ↔ match c with
    | .array a => a.index < s.arrays.size
    | .hash h => h.index < s.hashes.size := by
  cases c with
  | array a =>
    refine ⟨fun h => ?_, fun h => mem_containers_array (Array.getElem?_eq_getElem h)⟩
    simp only [containers, List.mem_append, List.mem_map, List.mem_range] at h
    rcases h with ⟨_, lt, e⟩ | ⟨_, _, e⟩ <;> cases e
    exact lt
  | hash g =>
    refine ⟨fun h => ?_, fun h => mem_containers_hash (Array.getElem?_eq_getElem h)⟩
    simp only [containers, List.mem_append, List.mem_map, List.mem_range] at h
    rcases h with ⟨_, _, e⟩ | ⟨_, lt, e⟩ <;> cases e
    exact lt

theorem Extends.mem (h : s.Extends t) (hc : c ∈ s.containers) : c ∈ t.containers := by
  rw [mem_containers_iff] at hc
  cases c with
  | array a => exact mem_containers_array (h.arrays _ _ (Array.getElem?_eq_getElem hc))
  | hash g => exact mem_containers_hash (h.hashes _ _ (Array.getElem?_eq_getElem hc))

theorem Extends.children (h : s.Extends t) (hc : c ∈ s.containers) :
    t.children c = s.children c := by
  rw [mem_containers_iff] at hc
  cases c with
  | array a =>
    have ha := Array.getElem?_eq_getElem hc
    rw [Store.children, Store.children, array_of_getElem? ha, array_of_getElem? (h.arrays _ _ ha)]
  | hash g =>
    have hg := Array.getElem?_eq_getElem hc
    rw [Store.children, Store.children, hash_of_getElem? hg, hash_of_getElem? (h.hashes _ _ hg)]

theorem Copied.mono (h : s.Copied t v w made) (le : t.Extends t') : s.Copied t' v w made := by
  induction h with
  | atom h => exact .atom h
  | collection kind known children copies _ ih =>
    exact .collection kind (le.mem known) children ((le.children known).trans copies) ih

theorem Copied.known (h : s.Copied t v w made) : made ⊆ t.containers := by
  induction h with
  | atom => exact List.nil_subset _
  | collection kind known children copies _ ih =>
    refine List.cons_subset.mpr ⟨known, fun d hd => ?_⟩
    obtain ⟨x, hx, hd⟩ := List.mem_flatMap.mp hd
    exact ih x hx hd

/-! ## Making a copy -/

theorem exists_entries : ∀ {n : Nat} {ws : List Value}, ws.length = 2 * n →
    ∃ pairs : List (Value × Value), (pairs.flatMap fun p => [p.1, p.2]) = ws
  | 0, [], _ => ⟨[], rfl⟩
  | n + 1, x :: y :: ws, h => by
    have rest : ws.length = 2 * n := by
      simp only [List.length_cons] at h
      omega
    obtain ⟨pairs, e⟩ := exists_entries rest
    exact ⟨(x, y) :: pairs, by rw [List.flatMap_cons, e]; rfl⟩
  | n + 1, [x], h => by simp at h; omega

/-- A new collection of the kind of `c`, for as many elements. -/
theorem exists_collection (t : Store) (ws : List Value) (h : ws.length = (s.children c).length) :
    ∃ t' d, t.Enlarged t' ∧ c.value.containers? d.value = some (c, d) ∧ d ∈ t'.containers ∧
      d ∉ t.containers ∧ t'.children d = ws := by
  cases c with
  | array a =>
    refine ⟨(t.addArray ws.toArray).2, .array ⟨t.arrays.size⟩, enlarged_addArray _ _, rfl, ?_,
      ?_, ?_⟩
    · simp [mem_containers_iff, addArray]
    · simp [mem_containers_iff]
    · simp [children, array, addArray]
  | hash g =>
    rw [children, length_entries] at h
    obtain ⟨pairs, e⟩ := exists_entries h
    let table : HashTable := ⟨(pairs.map fun p => ⟨p.1, p.2⟩).toArray, (s.hash g).index⟩
    have same : table.pairs = pairs := by
      simp [table, HashTable.pairs, Function.comp_def]
    refine ⟨(t.addHash table).2, .hash ⟨t.hashes.size⟩, enlarged_addHash _ _, rfl, ?_, ?_, ?_⟩
    · simp [mem_containers_iff, addHash]
    · simp [mem_containers_iff]
    · simp [children, hash, addHash, same, e]

/-- With more collections than those of `t`, there is a copy of `v` that shares nothing. -/
def HasCopy (s t : Store) (v : Value) : Prop :=
  ∃ (t' : Store) (w : Value) (made : List Container), t.Enlarged t' ∧ s.Copied t' v w made ∧
    made.Nodup ∧ ∀ d ∈ made, d ∉ t.containers

/-- Copies of several values, one made after the other. -/
theorem exists_copies {vs : List Value} (h : ∀ v ∈ vs, ∀ t, s.HasCopy t v) (t : Store) :
    ∃ (t' : Store) (items : List (Value × Value × List Container)),
      t.Enlarged t' ∧ vs = items.map (fun x => x.1) ∧
      (∀ x ∈ items, s.Copied t' x.1 x.2.1 x.2.2) ∧ (items.flatMap fun x => x.2.2).Nodup ∧
      ∀ x ∈ items, ∀ d ∈ x.2.2, d ∉ t.containers := by
  induction vs generalizing t with
  | nil => exact ⟨t, [], .refl t, rfl, by simp⟩
  | cons v vs ih =>
    obtain ⟨t₁, w, made, le₁, copied, nodup, new⟩ := h v List.mem_cons_self t
    obtain ⟨t₂, items, le₂, rfl, each, nodups, news⟩ :=
      ih (fun v hv => h v (List.mem_cons_of_mem _ hv)) t₁
    refine ⟨t₂, (v, w, made) :: items, le₁.trans le₂, rfl, ?_, ?_, ?_⟩
    · exact List.forall_mem_cons.mpr ⟨copied.mono le₂.collections, each⟩
    · -- The later copies are made of what was not there after the first one.
      refine nodup.append nodups fun d hd hd' => ?_
      obtain ⟨x, hx, hd'⟩ := List.mem_flatMap.mp hd'
      exact news x hx d hd' (copied.known hd)
    · refine List.forall_mem_cons.mpr ⟨new, fun x hx d hd old => ?_⟩
      exact news x hx d hd (le₁.collections.mem old)

theorem hasCopy (h : Acc (Inside s) v) (t : Store) : s.HasCopy t v := by
  induction h generalizing t with
  | intro v _ ih =>
    rcases isAtom_or v with atom | ⟨c, rfl⟩
    · exact ⟨t, v, [], .refl t, .atom atom, List.nodup_nil, nofun⟩
    obtain ⟨t₁, items, le₁, children, each, nodup, new⟩ :=
      exists_copies (fun x hx => ih x (inside_value hx)) t
    have size : (items.map fun x => x.2.1).length = (s.children c).length := by
      rw [children, List.length_map, List.length_map]
    obtain ⟨t₂, d, le₂, kind, known, fresh, copies⟩ := exists_collection t₁ _ size
    refine ⟨t₂, d.value, _, le₁.trans le₂,
      .collection kind known children copies fun x hx => (each x hx).mono le₂.collections, ?_, ?_⟩
    · refine List.nodup_cons.mpr ⟨fun hd => ?_, nodup⟩
      obtain ⟨x, hx, hd⟩ := List.mem_flatMap.mp hd
      exact fresh ((each x hx).known hd)
    · refine List.forall_mem_cons.mpr ⟨fun old => fresh (le₁.collections.mem old), fun e he => ?_⟩
      obtain ⟨x, hx, he⟩ := List.mem_flatMap.mp he
      exact new x hx e he

/-! ## The text of a copy -/

/-- No collection of the path is in `v`. -/
def Apart (s : Store) (path : List Container) (v : Value) : Prop :=
  ∀ c ∈ path, ¬ ReflTransGen (Inside s) c.value v

theorem Apart.not_mem {path : List Container} (h : s.Apart path c.value) : c ∉ path :=
  fun hc => h c hc .refl

theorem Apart.child {path : List Container} (h : s.Apart path c.value)
    (acc : Acc (Inside s) c.value) (hx : x ∈ s.children c) : s.Apart (c :: path) x := by
  have inside := inside_value hx
  refine List.forall_mem_cons.mpr ⟨fun back => ?_, fun d hd back => h d hd (back.tail inside)⟩
  exact not_self_of_acc acc.transGen (.tail' back inside)

theorem acc_value (h : ∀ x ∈ s.children c, Acc (Inside s) x) : Acc (Inside s) c.value := by
  refine ⟨_, fun x inside => ?_⟩
  obtain ⟨c', e, hx⟩ := inside_iff.mp inside
  obtain rfl := Container.value_inj e
  exact h x hx

theorem acc_of_isAtom (h : v.IsAtom) : Acc (Inside s) v := by
  refine ⟨_, fun x inside => ?_⟩
  obtain ⟨c, e, _⟩ := inside_iff.mp inside
  exact absurd e (h c)

theorem Copied.acc (h : s.Copied t v w made) : Acc (Inside s) v ∧ Acc (Inside t) w := by
  induction h with
  | atom h => exact ⟨acc_of_isAtom h, acc_of_isAtom h⟩
  | collection kind known children copies _ ih =>
    refine ⟨acc_value fun x hx => ?_, acc_value fun x hx => ?_⟩
    · rw [children] at hx
      obtain ⟨y, hy, rfl⟩ := List.mem_map.mp hx
      exact (ih y hy).1
    · rw [copies] at hx
      obtain ⟨y, hy, rfl⟩ := List.mem_map.mp hx
      exact (ih y hy).2

theorem Copied.intact (h : s.Copied t v w made) : t.Intact w := by
  induction h with
  | atom h =>
    intro x c path e
    rcases path.cases_tail with rfl | ⟨_, _, inside⟩
    · exact absurd e (h c)
    · obtain ⟨c, e, _⟩ := inside_iff.mp inside
      exact absurd e (h c)
  | collection kind known children copies _ ih =>
    intro x c path e
    rcases path.cases_tail with rfl | ⟨y, path, inside⟩
    · rwa [← Container.value_inj e]
    · obtain ⟨d, e', hy⟩ := inside_iff.mp inside
      obtain rfl := Container.value_inj e'
      rw [copies] at hy
      obtain ⟨z, hz, rfl⟩ := List.mem_map.mp hy
      exact ih z hz x c path e

theorem text_of_kind (h : c.value.containers? d.value = some (c, d)) (texts : List String) :
    c.text texts = d.text texts := by
  cases c <;> cases d <;> first | rfl | cases h

/-- Whatever collections are around it, `v` is shown by the text. -/
def HasText (s : Store) (v : Value) (text : String) : Prop :=
  ∀ path, s.Apart path v → s.Shows path v text

theorem HasText.collection {items : List (Value × String)} (acc : Acc (Inside s) c.value)
    (children : s.children c = items.map Prod.fst) (each : ∀ x ∈ items, s.HasText x.1 x.2) :
    s.HasText c.value (c.text (items.map Prod.snd)) := by
  intro path apart
  refine .collection apart.not_mem children fun x hx => each x hx _ (apart.child acc ?_)
  rw [children]
  exact List.mem_map_of_mem hx

/-- A value and its copy have one text, as neither is inside of itself. -/
theorem Copied.hasText (h : s.Copied t v w made)
    (atoms : ∀ v : Value, v.IsAtom → t.inspectAtom v = s.inspectAtom v) :
    ∃ text, s.HasText v text ∧ t.HasText w text := by
  have acc := h.acc
  induction h with
  | @atom v h =>
    refine ⟨s.inspectAtom v, fun path _ => .atom h, fun path _ => ?_⟩
    rw [← atoms v h]
    exact .atom h
  | @collection c d items kind known children copies each ih =>
    have texts : ∀ x ∈ items, ∃ y : (Value × Value × List Container) × String, y.1 = x ∧
        s.HasText y.1.1 y.2 ∧ t.HasText y.1.2.1 y.2 := by
      intro x hx
      obtain ⟨text, same⟩ := ih x hx (each x hx).acc
      exact ⟨(x, text), rfl, same⟩
    obtain ⟨shown, rfl, same⟩ := exists_map texts
    rw [List.map_map] at children copies
    have source : s.HasText c.value (c.text ((shown.map fun y => (y.1.1, y.2)).map Prod.snd)) :=
      .collection acc.1 (by rw [children, List.map_map]; rfl)
        (List.forall_mem_map.mpr fun y hy => (same y hy).1)
    have copy : t.HasText d.value (d.text ((shown.map fun y => (y.1.2.1, y.2)).map Prod.snd)) :=
      .collection acc.2 (by rw [copies, List.map_map]; rfl)
        (List.forall_mem_map.mpr fun y hy => (same y hy).2)
    rw [List.map_map] at source copy
    refine ⟨_, source, ?_⟩
    rw [text_of_kind kind]
    exact copy

theorem Copied.inspect_eq (h : s.Copied t v w made) (hv : s.Intact v)
    (atoms : ∀ v : Value, v.IsAtom → t.inspectAtom v = s.inspectAtom v) :
    t.inspect w = s.inspect v := by
  obtain ⟨text, source, copy⟩ := h.hasText atoms
  rw [← (shows_iff hv).mp (source [] nofun), ← (shows_iff h.intact).mp (copy [] nofun)]

theorem Copied.display_eq (h : s.Copied t v w made) (hv : s.Intact v)
    (atoms : ∀ v : Value, v.IsAtom → t.inspectAtom v = s.inspectAtom v) :
    t.display w = s.display v := by
  have inspect := h.inspect_eq hv atoms
  cases h with
  | atom => cases v <;> first | rfl | exact inspect
  | @collection c d => cases c <;> cases d <;> exact inspect

end Store

end ObjectLang
