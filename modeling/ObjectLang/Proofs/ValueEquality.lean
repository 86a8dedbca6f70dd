import ObjectLang.Proofs.Store.Comparison

/-!
# Equality is bisimilarity

Two values are equal exactly when they unfold to the same data, however the collections share
elements or contain themselves. A comparison that meets a pair again on its path assumes it to be
equal. That is sound as the pair is part of the relation that the comparison builds up.
-/

namespace ObjectLang.Store

variable (s : Store) {R S P : Value → Value → Prop} {v w : Value}

/-! ## Bisimilarity -/

/-- The two values are of a kind and alike, given that their elements are related by `R`. -/
inductive Matches (R : Value → Value → Prop) : Value → Value → Prop where
  | nil : Matches R .nil .nil
  | bool (b : Bool) : Matches R (.bool b) (.bool b)
  | int (n : Int64) : Matches R (.int n) (.int n)
  | intReal {n : Int64} {y : Float} (h : (Number.toReal n == y) = true) :
      Matches R (.int n) (.real y)
  | realInt {x : Float} {n : Int64} (h : (x == Number.toReal n) = true) :
      Matches R (.real x) (.int n)
  | real {x y : Float} (h : (x == y) = true) : Matches R (.real x) (.real y)
  | str (t : String) : Matches R (.str t) (.str t)
  | symbol (t : String) : Matches R (.symbol t) (.symbol t)
  | range (lower upper : Int64) : Matches R (.range lower upper) (.range lower upper)
  | object (o : ObjectId) : Matches R (.object o) (.object o)
  | cls (c : ClassId) : Matches R (.cls c) (.cls c)
  | proc (p : ProcId) : Matches R (.proc p) (.proc p)
  | sameArray (a : ArrayId) : Matches R (.array a) (.array a)
  | array {a b : ArrayId} (h : List.Forall₂ R (s.array a).toList (s.array b).toList) :
      Matches R (.array a) (.array b)
  | sameHash (a : HashId) : Matches R (.hash a) (.hash a)
  | hash {a b : HashId}
      (h : List.Forall₂ (fun x y => R x.1 y.1 ∧ R x.2 y.2) (s.hash a).pairs (s.hash b).pairs) :
      Matches R (.hash a) (.hash b)

/-- Related values are of a kind and alike, and so are their elements in turn. -/
def Respects (R : Value → Value → Prop) : Prop :=
  ∀ v w, R v w → s.Matches R v w

def Bisimilar (v w : Value) : Prop :=
  ∃ R, s.Respects R ∧ R v w

variable {s}

theorem forall₂_entries {xs ys : List (Value × Value)} :
    List.Forall₂ (fun x y => R x.1 y.1 ∧ R x.2 y.2) xs ys ↔
      List.Forall₂ R (xs.flatMap fun p => [p.1, p.2]) (ys.flatMap fun p => [p.1, p.2]) := by
  induction xs generalizing ys with
  | nil => cases ys <;> simp
  | cons x xs ih =>
    cases ys with
    | nil => simp
    | cons y ys =>
      simp only [List.flatMap_cons, List.cons_append, List.nil_append, List.forall₂_cons, ih,
        and_assoc]

theorem matches_of_sameAtom (h : v.sameAtom w = true) : s.Matches R v w := by
  unfold Value.sameAtom at h
  split at h
  · exact .nil
  · obtain rfl := of_decide_eq_true h
    exact .bool _
  · obtain rfl := of_decide_eq_true h
    exact .int _
  · exact .intReal h
  · exact .realInt h
  · exact .real h
  · obtain rfl := of_decide_eq_true h
    exact .str _
  · obtain rfl := of_decide_eq_true h
    exact .symbol _
  · obtain ⟨rfl, rfl⟩ := of_decide_eq_true h
    exact .range _ _
  · obtain rfl := of_decide_eq_true h
    exact .object _
  · obtain rfl := of_decide_eq_true h
    exact .cls _
  · obtain rfl := of_decide_eq_true h
    exact .proc _
  · cases h

/-- Collections match by their elements, and all other values without the relation. -/
theorem matches_iff : s.Matches R v w ↔ match v.containers? w with
    | some (a, b) => a = b ∨ List.Forall₂ R (s.children a) (s.children b)
    | none => v.sameAtom w = true := by
  constructor
  · intro h
    cases h with
    | array h => exact .inr h
    | hash h => exact .inr (forall₂_entries.mp h)
    | sameArray a | sameHash a => exact .inl rfl
    | intReal h | realInt h | real h => exact h
    | _ => simp [Value.containers?, Value.sameAtom]
  · intro h
    split at h
    · next a b e =>
      unfold Value.containers? at e
      split at e
      · cases e
        rcases h with same | elements
        · cases same
          exact .sameArray _
        · exact .array elements
      · cases e
        rcases h with same | elements
        · cases same
          exact .sameHash _
        · exact .hash (forall₂_entries.mpr elements)
      · cases e
    · exact matches_of_sameAtom h

theorem Matches.mono (h : s.Matches R v w) (le : ∀ v w, R v w → S v w) : s.Matches S v w := by
  rw [matches_iff] at h ⊢
  split at h
  · exact h.imp id fun elements => elements.imp le
  · exact h

theorem Respects.bisimilar (h : s.Respects R) (hv : R v w) : s.Bisimilar v w :=
  ⟨R, h, hv⟩

theorem bisimilar_respects : s.Respects s.Bisimilar := by
  rintro v w ⟨R, h, hv⟩
  exact (h v w hv).mono fun v w hv => h.bisimilar hv

/-! ## Values that are alike are found to be equal -/

theorem EqualityGives.complete {path : List (Container × Container)} {b : Bool}
    (h : s.EqualityGives path v w b) (hR : s.Respects R) (hv : R v w) : b = true := by
  induction h with
  | atom e =>
    have alike := matches_iff.mp (hR _ _ hv)
    rwa [e] at alike
  | same | known | equal => rfl
  | lengths e other _ lengths =>
    have alike := matches_iff.mp (hR _ _ hv)
    rw [e] at alike
    exact absurd (alike.resolve_left other).length_eq lengths
  | differ e other _ _ split _ _ _ first =>
    have alike := matches_iff.mp (hR _ _ hv)
    rw [e] at alike
    refine first ((List.forall₂_iff_zip.mp (alike.resolve_left other)).2 ?_)
    rw [split]
    exact List.mem_append_right _ List.mem_cons_self

/-! ## Values that are found to be equal are alike -/

/-- The values are related by some relation that is respected as long as the pairs of `P` are
taken to be related as well. -/
def BisimilarUpTo (s : Store) (P : Value → Value → Prop) (v w : Value) : Prop :=
  ∃ R : Value → Value → Prop, (∀ v w, R v w → s.Matches (fun v w => R v w ∨ P v w) v w) ∧ R v w

def OnPath (path : List (Container × Container)) (v w : Value) : Prop :=
  ∃ p ∈ path, v.containers? w = some p

theorem bisimilarUpTo_of_matches (h : s.Matches (fun _ _ => False) v w) :
    s.BisimilarUpTo P v w := by
  refine ⟨fun v' w' => v' = v ∧ w' = w, ?_, rfl, rfl⟩
  rintro _ _ ⟨rfl, rfl⟩
  exact h.mono fun _ _ => False.elim

theorem containers?_inj {x y : Value} {p : Container × Container} (h : x.containers? y = some p)
    (h' : v.containers? w = some p) : x = v ∧ y = w := by
  unfold Value.containers? at h h'
  split at h <;> split at h' <;> cases h <;> cases h' <;> exact ⟨rfl, rfl⟩

/-- A pair can be taken to be related if its elements are alike on that assumption: the pair
itself becomes a part of the relation. -/
theorem bisimilarUpTo_of_elements {path : List (Container × Container)} {a b : Container}
    (e : v.containers? w = some (a, b))
    (elements : List.Forall₂
      (fun x y => OnPath ((a, b) :: path) x y ∨ s.BisimilarUpTo (OnPath ((a, b) :: path)) x y)
      (s.children a) (s.children b)) :
    s.BisimilarUpTo (OnPath path) v w := by
  let Built (x y : Value) : Prop :=
    (x = v ∧ y = w) ∨ s.BisimilarUpTo (OnPath ((a, b) :: path)) x y
  have assumed {x y : Value} (h : OnPath ((a, b) :: path) x y) : Built x y ∨ OnPath path x y := by
    obtain ⟨p, hp, e'⟩ := h
    rcases List.mem_cons.mp hp with rfl | hp
    · exact .inl (.inl (containers?_inj e' e))
    · exact .inr ⟨p, hp, e'⟩
  refine ⟨Built, fun x y built => ?_, .inl ⟨rfl, rfl⟩⟩
  rcases built with ⟨rfl, rfl⟩ | ⟨R, hR, hxy⟩
  · rw [matches_iff, e]
    refine .inr (elements.imp fun x y alike => ?_)
    exact alike.elim assumed fun h => .inl (.inr h)
  · refine (hR x y hxy).mono fun x y alike => ?_
    exact alike.elim (fun h => .inl (.inr ⟨R, hR, h⟩)) assumed

theorem EqualityGives.sound {path : List (Container × Container)} {b : Bool}
    (h : s.EqualityGives path v w b) (hb : b = true) :
    OnPath path v w ∨ s.BisimilarUpTo (OnPath path) v w := by
  induction h with
  | atom e => exact .inr (bisimilarUpTo_of_matches (matches_of_sameAtom hb))
  | same e =>
    refine .inr (bisimilarUpTo_of_matches (matches_iff.mpr ?_))
    rw [e]
    exact .inl rfl
  | known e known => exact .inl ⟨_, known, e⟩
  | lengths | differ => cases hb
  | equal e _ _ lengths _ ih =>
    exact .inr (bisimilarUpTo_of_elements e (List.forall₂_iff_zip.mpr ⟨lengths, fun hp => ih _ hp rfl⟩))

theorem bisimilar_of_upTo (h : s.BisimilarUpTo (OnPath []) v w) : s.Bisimilar v w := by
  obtain ⟨R, hR, hv⟩ := h
  refine Respects.bisimilar (fun v w hv => (hR v w hv).mono fun v w alike => ?_) hv
  exact alike.resolve_right fun ⟨_, hp, _⟩ => List.not_mem_nil hp

/-! ## The decision -/

theorem equalityGives_iff_bisimilar {b : Bool} (h : s.EqualityGives [] v w b) :
    b = true ↔ s.Bisimilar v w := by
  constructor
  · intro hb
    refine bisimilar_of_upTo ((h.sound hb).resolve_left ?_)
    exact fun ⟨_, hp, _⟩ => List.not_mem_nil hp
  · rintro ⟨R, hR, hv⟩
    exact h.complete hR hv

end ObjectLang.Store

namespace ObjectLang

/-- A comparison without a bound ends, with the answer of `same`. It is true of exactly the
bisimilar values, and bisimilarity is the largest of the relations by which values are of a kind and
alike and their elements are related in turn. -/
theorem same_decides_bisimilarity (s : Store) :
    (∀ v w b, s.EqualityGives [] v w b ↔ b = s.same v w) ∧
    (∀ v w, s.same v w = true ↔ s.Bisimilar v w) ∧
    s.Respects s.Bisimilar ∧ ∀ R, s.Respects R → ∀ v w, R v w → s.Bisimilar v w := by
  have decides (v w : Value) := Store.equalityGives_iff_bisimilar (s.equalityGives_same v w)
  refine ⟨fun v w b => ⟨fun h => ?_, ?_⟩, decides, Store.bisimilar_respects, ?_⟩
  · exact Bool.eq_iff_iff.mpr ((Store.equalityGives_iff_bisimilar h).trans (decides v w).symm)
  · rintro rfl
    exact s.equalityGives_same v w
  · exact fun R hR v w hv => hR.bisimilar hv

/-- An array that is its own element, and two that are the elements of each other. -/
def loopedStore : Store :=
  { Store.empty with arrays := #[#[.array ⟨0⟩], #[.array ⟨2⟩], #[.array ⟨1⟩]] }

/-- The array inside of itself is equal to both others, as all of them unfold without end. -/
theorem same_decides_loops : ∃ R, loopedStore.Respects R ∧ R (.array ⟨0⟩) (.array ⟨1⟩) ∧
    loopedStore.Bisimilar (.array ⟨0⟩) (.array ⟨1⟩) ∧
    loopedStore.same (.array ⟨0⟩) (.array ⟨1⟩) = true := by
  let R (v w : Value) : Prop := v = .array ⟨0⟩ ∧ (w = .array ⟨1⟩ ∨ w = .array ⟨2⟩)
  have respects : loopedStore.Respects R := by
    rintro v w ⟨rfl, rfl | rfl⟩
    · exact .array (.cons ⟨rfl, .inr rfl⟩ .nil)
    · exact .array (.cons ⟨rfl, .inl rfl⟩ .nil)
  have related : R (.array ⟨0⟩) (.array ⟨1⟩) := ⟨rfl, .inl rfl⟩
  have decides := same_decides_bisimilarity loopedStore
  have bisimilar := decides.2.2.2 R respects _ _ related
  exact ⟨R, respects, related, bisimilar, (decides.2.1 _ _).mpr bisimilar⟩

end ObjectLang
