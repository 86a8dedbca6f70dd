/-!
# Tables from names

A table binds each of finitely many names to a value. Its entries are kept in
the order of their names, so a table is determined by its bindings.
-/

namespace ObjectLang

structure Table (α : Type) where
  entries : List (String × α)
  ordered : entries.Pairwise (·.1 < ·.1)

namespace Table

variable {α : Type}

def empty : Table α := ⟨[], .nil⟩

instance : Inhabited (Table α) := ⟨empty⟩

/-- Binds `n` to `a` in a list ordered by name. -/
def place (n : String) (a : α) : List (String × α) → List (String × α)
  | [] => [(n, a)]
  | (m, b) :: rest =>
    if n = m then (n, a) :: rest
    else if n < m then (n, a) :: (m, b) :: rest
    else (m, b) :: place n a rest

theorem mem_place {n : String} {a : α} {l : List (String × α)} {x : String × α}
    (h : x ∈ place n a l) : x = (n, a) ∨ x ∈ l := by
  induction l with
  | nil => simpa [place] using h
  | cons y rest ih =>
    obtain ⟨m, b⟩ := y
    simp only [place] at h
    split at h
    · rcases List.mem_cons.mp h with h | h
      · exact .inl h
      · exact .inr (List.mem_cons_of_mem _ h)
    · split at h
      · rcases List.mem_cons.mp h with h | h
        · exact .inl h
        · exact .inr h
      · rcases List.mem_cons.mp h with h | h
        · exact .inr (h ▸ List.mem_cons_self)
        · exact (ih h).imp_right (List.mem_cons_of_mem _)

theorem place_ordered (n : String) (a : α) {l : List (String × α)}
    (h : l.Pairwise (·.1 < ·.1)) : (place n a l).Pairwise (·.1 < ·.1) := by
  induction l with
  | nil => simp [place]
  | cons y rest ih =>
    obtain ⟨m, b⟩ := y
    obtain ⟨hm, hr⟩ := List.pairwise_cons.mp h
    simp only [place]
    split
    · next e => subst e; exact List.pairwise_cons.mpr ⟨hm, hr⟩
    · next ne =>
      split
      · next lt =>
        refine List.pairwise_cons.mpr ⟨fun x hx => ?_, h⟩
        rcases List.mem_cons.mp hx with rfl | hx
        · exact lt
        · exact String.lt_trans lt (hm x hx)
      · next nlt =>
        refine List.pairwise_cons.mpr ⟨fun x hx => ?_, ih hr⟩
        rcases mem_place hx with rfl | hx
        · exact Std.lt_of_le_of_ne nlt (Ne.symm ne)
        · exact hm x hx

def set (t : Table α) (n : String) (a : α) : Table α :=
  ⟨place n a t.entries, place_ordered n a t.ordered⟩

def get? (t : Table α) (n : String) : Option α :=
  t.entries.lookup n

def contains (t : Table α) (n : String) : Bool :=
  (t.get? n).isSome

def names (t : Table α) : List String :=
  t.entries.map (·.1)

/-- The table of the given bindings, a later one overriding an earlier one of its name. -/
def ofList (l : List (String × α)) : Table α :=
  l.foldl (fun t (n, a) => t.set n a) empty

/-! ## Lookup -/

theorem lookup_cons_ite (m : String) (x : String × α) (l : List (String × α)) :
    (x :: l).lookup m = if m = x.1 then some x.2 else l.lookup m := by
  rw [List.lookup_cons]
  by_cases h : m = x.1
  · simp [h]
  · rw [if_neg h, beq_false_of_ne h]

theorem lookup_place (n m : String) (a : α) (l : List (String × α)) :
    (place n a l).lookup m = if m = n then some a else l.lookup m := by
  induction l with
  | nil => exact lookup_cons_ite m (n, a) []
  | cons x rest ih =>
    obtain ⟨k, b⟩ := x
    simp only [place]
    by_cases hk : n = k
    · subst hk
      by_cases h : m = n <;> simp [lookup_cons_ite, h]
    · by_cases hl : n < k
      · simp [hk, hl, lookup_cons_ite]
      · simp only [hk, hl, ite_false, lookup_cons_ite, ih]
        by_cases h : m = n
        · subst h; simp [hk]
        · simp [h]

theorem get?_set (t : Table α) (n m : String) (a : α) :
    (t.set n a).get? m = if m = n then some a else t.get? m :=
  lookup_place n m a t.entries

/-! ## Tables of values with a property -/

def Forall (t : Table α) (P : α → Prop) : Prop :=
  ∀ x ∈ t.entries, P x.2

theorem forall_empty (P : α → Prop) : (empty : Table α).Forall P := by
  intro x hx
  cases hx

theorem Forall.mono {t : Table α} {P Q : α → Prop} (h : t.Forall P) (hpq : ∀ a, P a → Q a) :
    t.Forall Q :=
  fun x hx => hpq x.2 (h x hx)

theorem Forall.set {t : Table α} {P : α → Prop} (h : t.Forall P) {a : α} (ha : P a)
    (n : String) : (t.set n a).Forall P := by
  intro x hx
  rcases mem_place hx with rfl | hx
  · exact ha
  · exact h x hx

theorem Forall.get? {t : Table α} {P : α → Prop} (h : t.Forall P) {n : String} {a : α}
    (hn : t.get? n = some a) : P a := by
  obtain ⟨l, r, e, _⟩ := List.lookup_eq_some_iff.mp hn
  exact h (n, a) (by rw [e]; simp)

theorem forall_ofList {P : α → Prop} {l : List (String × α)} (h : ∀ x ∈ l, P x.2) :
    (ofList l).Forall P := by
  have fold : ∀ (l : List (String × α)) (t : Table α), t.Forall P → (∀ x ∈ l, P x.2) →
      (l.foldl (fun t x => t.set x.1 x.2) t).Forall P := by
    intro l
    induction l with
    | nil => intro t ht _; exact ht
    | cons x rest ih =>
      intro t ht hl
      exact ih _ (ht.set (hl x List.mem_cons_self) x.1)
        fun y hy => hl y (List.mem_cons_of_mem _ hy)
  exact fold l empty (forall_empty P) h

end Table

end ObjectLang
