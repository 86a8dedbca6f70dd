import ObjectLang.Proofs.Store.Nesting

/-!
# Texts without a bound

A value is shown with the texts of everything inside of it, and dots stand for a collection exactly
where it is inside of itself: where it is on the path of the collections around that place. A path
holds each collection once, so no text reaches the bound on its depth. What a value prints is found
in the same way, with a path of arrays alone: a hash is one line, whatever it is in.
-/

namespace ObjectLang

/-- The entries of a hash, from the texts of its keys and values in turn. -/
def entryTexts : List String → List String
  | key :: value :: rest => (key ++ "=>" ++ value) :: entryTexts rest
  | _ => []

namespace Container

def text : Container → List String → String
  | array _, items => listed "[" "]" items
  | hash _, items => listed "\x7b" "\x7d" (entryTexts items)

def dots : Container → String
  | array _ => "[...]"
  | hash _ => "\x7b...\x7d"

end Container

/-- A value that is no collection. -/
def Value.IsAtom (v : Value) : Prop :=
  ∀ c : Container, v ≠ c.value

namespace Store

variable {s : Store} {v w x : Value} {c : Container} {path : List Container} {t : String}
  {lines : List String} {fuel : Nat}

/-! ## What a value is shown by -/

/-- The developers' form of a value inside the collections `path`. -/
inductive Shows (s : Store) : List Container → Value → String → Prop where
  | atom {path : List Container} {v : Value} (h : v.IsAtom) : Shows s path v (s.inspectAtom v)
  | dots {path : List Container} {c : Container} (again : c ∈ path) : Shows s path c.value c.dots
  | collection {path : List Container} {c : Container} {items : List (Value × String)}
      (new : c ∉ path) (children : s.children c = items.map Prod.fst)
      (each : ∀ x ∈ items, Shows s (c :: path) x.1 x.2) :
      Shows s path c.value (c.text (items.map Prod.snd))

/-- The users' form of a value. -/
inductive Displays (s : Store) : Value → String → Prop where
  | nil : Displays s .nil ""
  | str (t : String) : Displays s (.str t) t
  | symbol (t : String) : Displays s (.symbol t) t
  | other {v : Value} {t : String} (h : s.Shows [] v t) (full : v ≠ .nil)
      (noText : ∀ t, v ≠ .str t ∧ v ≠ .symbol t) : Displays s v t

/-- The lines that a value prints inside the arrays `path`: those of its elements one after the
other if it is an array, and otherwise one line. -/
inductive Prints (s : Store) : List ArrayId → Value → List String → Prop where
  | leaf {path : List ArrayId} {v : Value} {t : String} (h : ∀ a, v ≠ .array a)
      (text : s.Displays v t) : Prints s path v [t]
  | dots {path : List ArrayId} {a : ArrayId} (again : a ∈ path) : Prints s path (.array a) ["[...]"]
  | array {path : List ArrayId} {a : ArrayId} {items : List (Value × List String)}
      (new : a ∉ path) (elements : (s.array a).toList = items.map Prod.fst)
      (each : ∀ x ∈ items, Prints s (a :: path) x.1 x.2) :
      Prints s path (.array a) (items.flatMap Prod.snd)

/-! ## The bound -/

theorem length_lt_of_new {α : Type} {path all : List α} {a : α} (nodup : path.Nodup)
    (known : path ⊆ all) (new : a ∉ path) (ha : a ∈ all) : path.length < all.length :=
  List.Nodup.length_le_of_subset (List.nodup_cons.mpr ⟨new, nodup⟩) (List.cons_subset.mpr ⟨ha, known⟩)

/-- A path on the way to `v` that leaves `fuel` for what is inside. -/
structure Room (s : Store) (fuel : Nat) (path : List Container) (v : Value) : Prop where
  nodup : path.Nodup
  known : path ⊆ s.containers
  intact : s.Intact v
  bound : s.collectionCount ≤ fuel + path.length

theorem Room.start (h : s.Intact v) : s.Room s.collectionCount [] v :=
  ⟨List.nodup_nil, List.nil_subset _, h, Nat.le_refl _⟩

theorem Room.child (h : s.Room (fuel + 1) path c.value) (new : c ∉ path)
    (hx : x ∈ s.children c) : s.Room fuel (c :: path) x where
  nodup := List.nodup_cons.mpr ⟨new, h.nodup⟩
  known := List.cons_subset.mpr ⟨h.intact.mem, h.known⟩
  intact := h.intact.child hx
  bound := by
    have bound := h.bound
    rw [List.length_cons]
    omega

/-- Without fuel, all collections are on the path. -/
theorem Room.mem (h : s.Room 0 path c.value) : c ∈ path := by
  by_contra new
  have lt := length_lt_of_new h.nodup h.known new h.intact.mem
  have bound := h.bound
  rw [length_containers] at lt
  omega

/-! ## Inspecting -/

theorem inspectAtom_value (s : Store) (c : Container) : s.inspectAtom c.value = c.dots := by
  cases c <;> rfl

theorem entryTexts_map (f : Value → String) (pairs : List (Value × Value)) :
    entryTexts ((pairs.flatMap fun p => [p.1, p.2]).map f) =
      pairs.map fun p => f p.1 ++ "=>" ++ f p.2 := by
  induction pairs with
  | nil => rfl
  | cons p pairs ih =>
    simp only [List.flatMap_cons, List.cons_append, List.nil_append, List.map_cons, entryTexts, ih]

theorem inspectIn_value (s : Store) (fuel : Nat) (path : List Container) (c : Container) :
    s.inspectIn (fuel + 1) path c.value =
      if c ∈ path then c.dots
      else c.text ((s.children c).map (s.inspectIn fuel (c :: path))) := by
  cases c with
  | array a => simp only [Container.value, inspectIn, List.contains_iff_mem]; rfl
  | hash h =>
    simp only [Container.value, inspectIn, List.contains_iff_mem, Container.text, children,
      entryTexts_map]
    rfl

theorem inspectIn_of_isAtom (h : v.IsAtom) : s.inspectIn fuel path v = s.inspectAtom v :=
  inspectIn_atom (fun a => h (.array a)) fun a => h (.hash a)

theorem isAtom_or (v : Value) : v.IsAtom ∨ ∃ c : Container, v = c.value := by
  rw [Value.IsAtom, ← not_exists]
  exact Classical.em _ |>.symm

theorem shows_inspectIn (h : s.Room fuel path v) : s.Shows path v (s.inspectIn fuel path v) := by
  induction fuel generalizing path v with
  | zero =>
    rcases isAtom_or v with atom | ⟨c, rfl⟩
    · exact .atom atom
    · rw [inspectIn, inspectAtom_value]
      exact .dots h.mem
  | succ fuel ih =>
    rcases isAtom_or v with atom | ⟨c, rfl⟩
    · rw [inspectIn_of_isAtom atom]
      exact .atom atom
    rw [inspectIn_value]
    split
    · next again => exact .dots again
    · next new =>
      have shown : s.Shows path c.value (c.text
          (((s.children c).map fun x => (x, s.inspectIn fuel (c :: path) x)).map Prod.snd)) := by
        refine .collection new ?_ (List.forall_mem_map.mpr fun x hx => ih (h.child new hx))
        rw [List.map_map]
        exact (List.map_id _).symm
      rwa [List.map_map] at shown

theorem Shows.eq_inspectIn (h : s.Shows path v t) (room : s.Room fuel path v) :
    t = s.inspectIn fuel path v := by
  induction h generalizing fuel with
  | atom atom => rw [inspectIn_of_isAtom atom]
  | dots again =>
    cases fuel with
    | zero => rw [inspectIn, inspectAtom_value]
    | succ fuel => rw [inspectIn_value, if_pos again]
  | @collection path c items new children each ih =>
    cases fuel with
    | zero => exact absurd room.mem new
    | succ fuel =>
      rw [inspectIn_value, if_neg new, children, List.map_map]
      congr 1
      refine List.map_congr_left fun x hx => ih x hx (room.child new ?_)
      rw [children]
      exact List.mem_map_of_mem hx

theorem shows_iff (h : s.Intact v) : s.Shows [] v t ↔ t = s.inspect v := by
  constructor
  · exact fun shown => shown.eq_inspectIn (.start h)
  · rintro rfl
    exact shows_inspectIn (.start h)

theorem displays_iff (h : s.Intact v) : s.Displays v t ↔ t = s.display v := by
  constructor
  · intro displayed
    cases displayed with
    | nil | str | symbol => rfl
    | other shown full noText =>
      rw [(shows_iff h).mp shown]
      unfold display
      split
      · exact absurd rfl full
      · exact absurd rfl (noText _).1
      · exact absurd rfl (noText _).2
      · rfl
  · rintro rfl
    unfold display
    split
    · exact .nil
    · exact .str _
    · exact .symbol _
    · next full noStr noSymbol => exact .other ((shows_iff h).mpr rfl) full fun t => ⟨noStr t, noSymbol t⟩

/-! ## Printing -/

theorem Intact.mem_arrayIds {a : ArrayId} (h : s.Intact (.array a)) : a ∈ s.arrayIds := by
  have known := Intact.mem (c := .array a) h
  simp only [containers, List.mem_append, List.mem_map, List.mem_range] at known
  rcases known with ⟨i, lt, e⟩ | ⟨i, lt, e⟩
  · cases e
    exact List.mem_map_of_mem (List.mem_range.mpr lt)
  · cases e

/-- A path of arrays on the way to `v` that leaves more than enough `fuel`. -/
structure LineRoom (s : Store) (fuel : Nat) (path : List ArrayId) (v : Value) : Prop where
  nodup : path.Nodup
  known : path ⊆ s.arrayIds
  intact : s.Intact v
  bound : s.arrays.size < fuel + path.length

theorem LineRoom.start (h : s.Intact v) : s.LineRoom (s.arrays.size + 1) [] v :=
  ⟨List.nodup_nil, List.nil_subset _, h, Nat.lt_succ_self _⟩

theorem LineRoom.succ {path : List ArrayId} (h : s.LineRoom fuel path v) : ∃ n, fuel = n + 1 := by
  have le := h.nodup.length_le_of_subset h.known
  have bound := h.bound
  rw [length_arrayIds] at le
  exact Nat.exists_eq_add_one.mpr (by omega)

theorem LineRoom.child {path : List ArrayId} {a : ArrayId}
    (h : s.LineRoom (fuel + 1) path (.array a)) (new : a ∉ path) (hx : x ∈ (s.array a).toList) :
    s.LineRoom fuel (a :: path) x where
  nodup := List.nodup_cons.mpr ⟨new, h.nodup⟩
  known := List.cons_subset.mpr ⟨h.intact.mem_arrayIds, h.known⟩
  intact := Intact.child (c := .array a) h.intact hx
  bound := by
    have bound := h.bound
    rw [List.length_cons]
    omega

theorem linesIn_leaf {path : List ArrayId} (h : ∀ a, v ≠ .array a) :
    s.linesIn fuel path v = [s.display v] := by
  cases fuel with
  | zero => rfl
  | succ fuel =>
    cases v with
    | array a => exact absurd rfl (h a)
    | _ => rfl

theorem linesIn_array (s : Store) (fuel : Nat) (path : List ArrayId) (a : ArrayId) :
    s.linesIn (fuel + 1) path (.array a) =
      if a ∈ path then ["[...]"] else (s.array a).toList.flatMap (s.linesIn fuel (a :: path)) := by
  simp only [linesIn, List.contains_iff_mem]

theorem prints_linesIn {path : List ArrayId} (h : s.LineRoom fuel path v) :
    s.Prints path v (s.linesIn fuel path v) := by
  induction fuel generalizing path v with
  | zero =>
    obtain ⟨_, e⟩ := h.succ
    cases e
  | succ fuel ih =>
    by_cases leaf : ∀ a, v ≠ .array a
    · rw [linesIn_leaf leaf]
      exact .leaf leaf ((displays_iff h.intact).mpr rfl)
    obtain ⟨a, rfl⟩ : ∃ a, v = .array a := by simpa using leaf
    rw [linesIn_array]
    split
    · next again => exact .dots again
    · next new =>
      have printed : s.Prints path (.array a)
          (((s.array a).toList.map fun x => (x, s.linesIn fuel (a :: path) x)).flatMap Prod.snd) := by
        refine .array new ?_ (List.forall_mem_map.mpr fun x hx => ih (h.child new hx))
        rw [List.map_map]
        exact (List.map_id _).symm
      rwa [List.flatMap_map] at printed

theorem Prints.eq_linesIn {path : List ArrayId} (h : s.Prints path v lines)
    (room : s.LineRoom fuel path v) : lines = s.linesIn fuel path v := by
  induction h generalizing fuel with
  | leaf leaf text => rw [linesIn_leaf leaf, (displays_iff room.intact).mp text]
  | dots again =>
    obtain ⟨n, rfl⟩ := room.succ
    rw [linesIn_array, if_pos again]
  | @array path a items new elements each ih =>
    obtain ⟨n, rfl⟩ := room.succ
    rw [linesIn_array, if_neg new, elements, List.flatMap_map]
    refine List.flatMap_congr fun x hx => ih x hx (room.child new ?_)
    rw [elements]
    exact List.mem_map_of_mem hx

theorem prints_iff (h : s.Intact v) : s.Prints [] v lines ↔ lines = s.lines v := by
  constructor
  · exact fun printed => printed.eq_linesIn (.start h)
  · rintro rfl
    exact prints_linesIn (.start h)

end Store

end ObjectLang
