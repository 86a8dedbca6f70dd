import Mathlib
import ObjectLang.Proofs.Store.Keys
import ObjectLang.Proofs.ValueEquality

/-!
# Hash keys and equality

Two values with hash keys have the same one exactly when they are equal and integers stand where
integers stand. A value has none when it holds a hash or a function, or an array inside of itself.
-/

namespace ObjectLang

open Relation

/-! ## Reals -/

theorem beq_self_of_not_isNaN {x : Float} (hx : x.isNaN = false) : (x == x) = true := by
  rw [Float.isNaN_eq_decide_eq_nan, decide_eq_false_iff_not] at hx
  exact Float.beq_self_iff.mpr hx

theorem RealKey.ofReal_of_ne {x : Float} (hx : x.isNaN = false) (h : ¬ (x == 0.0) = true) :
    RealKey.ofReal x = ⟨x.toBits⟩ ∧ RealKey.ofReal x ≠ ⟨0⟩ := by
  have bits : RealKey.ofReal x = ⟨x.toBits⟩ := by
    rw [RealKey.ofReal, if_neg h, hx]
    rfl
  refine ⟨bits, fun e => h ?_⟩
  have same : x.toBits = (0.0 : Float).toBits := by
    rw [show (0.0 : Float).toBits = 0 by decide +kernel]
    exact RealKey.mk.inj (bits.symm.trans e)
  rw [← Float.toBits_inj.mp same]
  exact beq_self_of_not_isNaN hx

theorem RealKey.ofReal_inj {x y : Float} (hx : x.isNaN = false) (hy : y.isNaN = false) :
    RealKey.ofReal x = RealKey.ofReal y ↔ (x == y) = true := by
  have zero {z : Float} (h : (z == 0.0) = true) : RealKey.ofReal z = ⟨0⟩ := by
    rw [RealKey.ofReal, if_pos h]
  by_cases h : (x == 0.0) = true
  · by_cases h' : (y == 0.0) = true
    · rw [zero h, zero h']
      exact iff_of_true rfl (BEq.trans h (BEq.symm h'))
    · rw [zero h]
      refine iff_of_false (RealKey.ofReal_of_ne hy h').2.symm fun e => h' ?_
      exact BEq.trans (BEq.symm e) h
  · by_cases h' : (y == 0.0) = true
    · rw [zero h']
      exact iff_of_false (RealKey.ofReal_of_ne hx h).2 fun e => h (BEq.trans e h')
    · rw [(RealKey.ofReal_of_ne hx h).1, (RealKey.ofReal_of_ne hy h').1, RealKey.mk.injEq,
        Float.toBits_inj]
      constructor
      · rintro rfl
        exact beq_self_of_not_isNaN hx
      · intro e
        obtain ⟨_, _, same | ⟨rfl, _⟩ | ⟨_, rfl⟩⟩ := Float.beq_iff_ne_nan_and_eq.mp e
        · exact same
        · exact absurd (by decide +kernel) h
        · exact absurd (by decide +kernel) h'

namespace Store

/-! ## What a value holds -/

inductive Element (s : Store) : Value → Value → Prop where
  | of {a : ArrayId} {v : Value} (h : v ∈ (s.array a).toList) : Element s (.array a) v

/-- The value itself, or an element of an array that it holds. -/
abbrev Contains (s : Store) : Value → Value → Prop :=
  ReflTransGen s.Element

/-- The elements at one position of two arrays. -/
inductive ElementPair (s : Store) : Value × Value → Value × Value → Prop where
  | of {a b : ArrayId} {p : Value × Value} (h : p ∈ (s.array a).toList.zip (s.array b).toList) :
      ElementPair s (.array a, .array b) p

/-- `x` in `v` stands where `y` stands in `w`. -/
def Corresponds (s : Store) (v w x y : Value) : Prop :=
  ReflTransGen s.ElementPair (v, w) (x, y)

/-- An integer is matched with an integer and a real with a real. -/
def SameNumeral (x y : Value) : Prop :=
  ((∃ n, x = .int n) ↔ ∃ n, y = .int n) ∧ ((∃ r, x = .real r) ↔ ∃ r, y = .real r)

def NoNaN (s : Store) (v : Value) : Prop :=
  ∀ x, s.Contains v (.real x) → x.isNaN = false

/-- A hash, a function or an array inside of itself. -/
inductive NoKey (s : Store) : Value → Prop where
  | unkeyed {v : Value} (h : v.Unkeyed) : NoKey s v
  | cyclic {v : Value} (h : TransGen s.Element v v) : NoKey s v

variable {s : Store} {path : List ArrayId} {v w x y : Value} {vs : List Value} {k : HashKey}
  {ks : List HashKey} {f : TypeFault} {a : ArrayId}

/-! ## Values without a key -/

/-- A failure is due to one of the values, as the open arrays all hold them. -/
theorem Fails.noKey (h : s.Fails path vs f)
    (opened : ∀ a ∈ path, ∀ v ∈ vs, TransGen s.Element (.array a) v) :
    ∃ v ∈ vs, ∃ w, s.Contains v w ∧ s.NoKey w := by
  induction h with
  | unkeyed u => exact ⟨_, List.mem_cons_self, _, .refl, .unkeyed u⟩
  | opened known =>
    exact ⟨_, List.mem_cons_self, _, .refl, .cyclic (opened _ known _ List.mem_cons_self)⟩
  | @inner path a vs f new h ih =>
    obtain ⟨u, hu, w, contains, noKey⟩ := ih (by
      intro b hb u hu
      rcases List.mem_cons.mp hb with rfl | hb
      · exact .single (.of hu)
      · exact (opened b hb _ List.mem_cons_self).tail (.of hu))
    exact ⟨_, List.mem_cons_self, w, .head (.of hu) contains, noKey⟩
  | later _ _ ih =>
    obtain ⟨v, hv, w, found⟩ := ih fun a ha v hv => opened a ha v (List.mem_cons_of_mem _ hv)
    exact ⟨v, List.mem_cons_of_mem _ hv, w, found⟩

theorem Keys.mem (h : s.Keys path vs ks) (hv : v ∈ vs) : ∃ k, s.Keys path [v] [k] := by
  induction h with
  | nil => cases hv
  | atom e _ ih =>
    rcases List.mem_cons.mp hv with rfl | hv
    · exact ⟨_, .atom e .nil⟩
    · exact ih hv
  | array new inner _ _ ih =>
    rcases List.mem_cons.mp hv with rfl | hv
    · exact ⟨_, .array new inner .nil⟩
    · exact ih hv

theorem Keys.not_unkeyed (h : s.Keys path [v] [k]) : ¬ v.Unkeyed := by
  intro u
  cases u <;> cases h with | atom e => cases e

theorem Keys.element (h : s.Keys path [v] [k]) (hw : s.Element v w) :
    ∃ a k', v = .array a ∧ a ∉ path ∧ s.Keys (a :: path) [w] [k'] := by
  obtain ⟨hw⟩ := hw
  cases h with
  | atom e => cases e
  | array new inner =>
    obtain ⟨k', hk⟩ := inner.mem hw
    exact ⟨_, k', rfl, new, hk⟩

/-- Whatever a value holds has a key of its own while all arrays around it are open. -/
theorem Keys.contains (h : s.Keys path [v] [k]) (hw : s.Contains v w) :
    ∃ path' k', path ⊆ path' ∧ s.Keys path' [w] [k'] := by
  induction hw with
  | refl => exact ⟨path, k, List.Subset.refl _, h⟩
  | tail _ step ih =>
    obtain ⟨path', _, le, h⟩ := ih
    obtain ⟨a, k', _, _, h⟩ := h.element step
    exact ⟨a :: path', k', fun b hb => List.mem_cons_of_mem _ (le hb), h⟩

theorem Keys.acyclic (h : s.Keys path [v] [k]) : ¬ TransGen s.Element v v := by
  intro cycle
  obtain ⟨u, step, back⟩ := TransGen.head'_iff.mp cycle
  obtain ⟨a, _, rfl, _, h⟩ := h.element step
  obtain ⟨path', _, le, h⟩ := h.contains back
  obtain ⟨_, _, ⟨⟩, new, _⟩ := h.element step
  exact new (le List.mem_cons_self)

/-! ## Equal keys -/

/-- Two values with one key and without NaN. -/
def SameKey (s : Store) (v w : Value) : Prop :=
  ∃ k, s.Keys [] [v] [k] ∧ s.Keys [] [w] [k] ∧ s.NoNaN v ∧ s.NoNaN w

theorem Keys.weaken (h : s.Keys path vs ks) {path' : List ArrayId} (le : path' ⊆ path) :
    s.Keys path' vs ks := by
  induction h generalizing path' with
  | nil => exact .nil
  | atom e _ ih => exact .atom e (ih le)
  | array new _ _ inside ih =>
    exact .array (fun h => new (le h)) (inside (List.cons_subset_cons _ le)) (ih le)

theorem Keys.forall₂ (h : s.Keys path vs ks) :
    List.Forall₂ (fun v k => s.Keys [] [v] [k]) vs ks := by
  induction h with
  | nil => exact .nil
  | atom e _ ih => exact .cons (.atom e .nil) ih
  | array _ inner _ _ ih =>
    exact .cons (.array List.not_mem_nil (inner.weaken (by simp)) .nil) ih

theorem containers?_of_atom (h : v.atomKey? = some k) : v.containers? w = none := by
  cases v with
  | array | hash => cases h
  | _ => rfl

/-- Where no elements are looked at, equality and keys differ only on an integer and a real. -/
theorem atomKey?_inj {l : HashKey} (h : v.atomKey? = some k) (h' : w.atomKey? = some l)
    (hv : s.NoNaN v) (hw : s.NoNaN w) : k = l ↔ v.sameAtom w = true ∧ SameNumeral v w := by
  cases v with
  | real x =>
    cases w with
    | real y =>
      cases h
      cases h'
      rw [HashKey.real.injEq, RealKey.ofReal_inj (hv x .refl) (hw y .refl)]
      simp [Value.sameAtom, SameNumeral]
    | _ => cases h; cases h' <;> simp [SameNumeral]
  | _ => cases w <;> cases h <;> cases h' <;> simp [Value.sameAtom, SameNumeral]

theorem NoNaN.element (h : s.NoNaN (.array a)) (hv : v ∈ (s.array a).toList) : s.NoNaN v :=
  fun x hx => h x (.head (.of hv) hx)

theorem Keys.sameKeys {path' : List ArrayId} {ws : List Value} (h : s.Keys path vs ks)
    (h' : s.Keys path' ws ks) (hv : ∀ v ∈ vs, s.NoNaN v) (hw : ∀ w ∈ ws, s.NoNaN w) :
    List.Forall₂ s.SameKey vs ws := by
  have left := h.forall₂
  have right := h'.forall₂
  clear h h'
  induction left generalizing ws with
  | nil => cases right; exact .nil
  | cons here _ ih =>
    cases right with
    | cons there right =>
      rw [List.forall_mem_cons] at hv hw
      exact .cons ⟨_, here, there, hv.1, hw.1⟩ (ih hv.2 hw.2 right)

theorem SameKey.elements {b : ArrayId} (h : s.SameKey (.array a) (.array b)) :
    List.Forall₂ s.SameKey (s.array a).toList (s.array b).toList := by
  obtain ⟨k, hk, hl, hv, hw⟩ := h
  cases hk with
  | atom e => cases e
  | array _ inner =>
    cases hl with
    | atom e => cases e
    | array _ inner' => exact inner.sameKeys inner' (fun _ => hv.element) fun _ => hw.element

theorem SameKey.alike (h : s.SameKey v w) : s.Matches s.SameKey v w ∧ SameNumeral v w := by
  have ⟨k, hk, hl, hv, hw⟩ := h
  cases hk with
  | atom e =>
    cases hl with
    | atom e' =>
      obtain ⟨same, numeral⟩ := (atomKey?_inj e e' hv hw).mp rfl
      exact ⟨matches_of_sameAtom same, numeral⟩
    | array => cases v <;> cases e
  | array _ inner =>
    cases hl with
    | atom e' => cases w <;> cases e'
    | array => exact ⟨.array h.elements, by simp [SameNumeral]⟩

theorem SameKey.bisimilar (h : s.SameKey v w) : s.Bisimilar v w :=
  Respects.bisimilar (fun _ _ h => h.alike.1) h

theorem SameKey.corresponds (h : s.SameKey v w) (positions : s.Corresponds v w x y) :
    s.SameKey x y := by
  have along : ∀ p, ReflTransGen s.ElementPair (v, w) p → s.SameKey p.1 p.2 := by
    intro p hp
    induction hp with
    | refl => exact h
    | tail _ step ih =>
      obtain ⟨hp⟩ := step
      exact (List.forall₂_iff_zip.mp ih.elements).2 hp
  exact along _ positions

/-- Keys of values that are alike, where integers are matched with integers. -/
theorem Keys.eq_of_bisimilar {path' : List ArrayId} {ws : List Value} {ls : List HashKey}
    (h : s.Keys path vs ks) (h' : s.Keys path' ws ls)
    (alike : List.Forall₂ (fun v w => s.Bisimilar v w ∧
      (∀ x y, s.Corresponds v w x y → SameNumeral x y) ∧ s.NoNaN v ∧ s.NoNaN w) vs ws) :
    ks = ls := by
  induction h generalizing path' ws ls with
  | nil => cases alike; cases h'; rfl
  | @atom path v vs k ks e _ ih =>
    obtain _ | ⟨⟨bisimilar, numerals, hv, hw⟩, alike⟩ := alike
    have same := bisimilar_respects _ _ bisimilar
    cases h' with
    | atom e' rest =>
      rw [ih rest alike]
      rw [matches_iff, containers?_of_atom e] at same
      rw [(atomKey?_inj e e' hv hw).mpr ⟨same, numerals _ _ .refl⟩]
    | array => cases same <;> cases e
  | array _ inner _ inside ih =>
    obtain _ | ⟨⟨bisimilar, numerals, hv, hw⟩, alike⟩ := alike
    have same := bisimilar_respects _ _ bisimilar
    cases h' with
    | atom e' => cases same <;> cases e'
    | array _ inner' rest =>
      rw [ih rest alike]
      cases same with
      | sameArray => rw [inner.unique inner']
      | array elements =>
        rw [inside inner' ?_]
        obtain ⟨lengths, elements⟩ := List.forall₂_iff_zip.mp elements
        refine List.forall₂_iff_zip.mpr ⟨lengths, fun {x y} hp => ⟨elements hp, ?_⟩⟩
        obtain ⟨hx, hy⟩ := List.of_mem_zip hp
        exact ⟨fun x y positions => numerals x y (.head (.of hp) positions), hv.element hx,
          hw.element hy⟩

/-! ## Identity -/

/-- The values that are compared by identity. -/
inductive ByIdentity : Value → Prop where
  | object (o : ObjectId) : ByIdentity (.object o)
  | cls (c : ClassId) : ByIdentity (.cls c)
  | proc (p : ProcId) : ByIdentity (.proc p)

theorem ByIdentity.key_inj (h : ByIdentity v) (hk : s.Keys [] [v] [k]) (hl : s.Keys [] [w] [k]) :
    v = w := by
  cases hl with
  | atom e' => cases h <;> cases hk with | atom e => cases e; cases w <;> cases e'; rfl
  | array => cases h <;> cases hk with | atom e => cases e

end Store

open Store

/-- The conversion to a key ends, and fails on exactly the values that hold a hash, a function or an
array inside of itself. Without NaN, two keys are the same exactly when the values are equal and
integers are matched with integers. What is compared by identity shares its key with nothing. -/
theorem hash_keys_agree (s : Store) :
    (∀ v r, s.Converts [] v r ↔ r = s.hashKey v) ∧
    (∀ v, (∃ f, s.hashKey v = .error f) ↔ ∃ w, s.Contains v w ∧ s.NoKey w) ∧
    (∀ v w k l, s.NoNaN v → s.NoNaN w → s.hashKey v = .ok k → s.hashKey w = .ok l →
      (k = l ↔ s.same v w = true ∧ ∀ x y, s.Corresponds v w x y → SameNumeral x y)) ∧
    ∀ v w k, ByIdentity v → s.hashKey v = .ok k → s.hashKey w = .ok k → v = w := by
  refine ⟨fun v r => ⟨fun h => h.unique (s.converts_hashKey v), ?_⟩, fun v => ⟨?_, ?_⟩, ?_, ?_⟩
  · rintro rfl
    exact s.converts_hashKey v
  · rintro ⟨f, e⟩
    have converts := s.converts_hashKey v
    rw [e] at converts
    obtain ⟨_, hv, found⟩ := Fails.noKey converts nofun
    rwa [List.mem_singleton.mp hv] at found
  · rintro ⟨w, contains, noKey⟩
    cases e : s.hashKey v with
    | error f => exact ⟨f, rfl⟩
    | ok k =>
      obtain ⟨_, _, _, keys⟩ := (hashKey_eq_ok_iff.mp e).contains contains
      cases noKey with
      | unkeyed u => exact absurd u keys.not_unkeyed
      | cyclic cycle => exact absurd cycle keys.acyclic
  · intro v w k l hv hw hk hl
    rw [hashKey_eq_ok_iff] at hk hl
    rw [equalityGives_iff_bisimilar (s.equalityGives_same v w)]
    constructor
    · rintro rfl
      have same : s.SameKey v w := ⟨k, hk, hl, hv, hw⟩
      exact ⟨same.bisimilar, fun x y positions => (same.corresponds positions).alike.2⟩
    · rintro ⟨bisimilar, numerals⟩
      exact (List.cons.inj (hk.eq_of_bisimilar hl (.cons ⟨bisimilar, numerals, hv, hw⟩ .nil))).1
  · intro v w k h hk hl
    exact h.key_inj (hashKey_eq_ok_iff.mp hk) (hashKey_eq_ok_iff.mp hl)

/-- Two arrays of an integer and one of the same number as a real. -/
def numeralStore : Store :=
  { Store.empty with arrays := #[#[.int 1], #[.int 1], #[.real 1.0]] }

/-- All three arrays are equal, but only the first two have the same key. -/
theorem hash_keys_agree_numerals :
    (∃ k, numeralStore.hashKey (.array ⟨0⟩) = .ok k ∧ numeralStore.hashKey (.array ⟨1⟩) = .ok k ∧
      numeralStore.same (.array ⟨0⟩) (.array ⟨1⟩) = true) ∧
    ∃ k l, numeralStore.hashKey (.array ⟨0⟩) = .ok k ∧ numeralStore.hashKey (.array ⟨2⟩) = .ok l ∧
      numeralStore.same (.array ⟨0⟩) (.array ⟨2⟩) = true ∧ k ≠ l := by
  have agree := (hash_keys_agree numeralStore).2.2.1
  have nan (a : ArrayId) (v : Value) (h : (numeralStore.array a).toList = [v])
      (real : ∀ x, v = .real x → x.isNaN = false) (atom : ∀ b, v ≠ .array b) :
      numeralStore.NoNaN (.array a) := by
    intro x hx
    obtain e | ⟨u, ⟨hu⟩, inside⟩ := hx.cases_head
    · cases e
    rw [h, List.mem_singleton] at hu
    subst hu
    obtain e | ⟨_, ⟨_⟩, _⟩ := inside.cases_head
    · exact real x e
    · exact absurd rfl (atom _)
  have first : numeralStore.NoNaN (.array ⟨0⟩) := nan _ _ rfl nofun nofun
  have second : numeralStore.NoNaN (.array ⟨1⟩) := nan _ _ rfl nofun nofun
  have third : numeralStore.NoNaN (.array ⟨2⟩) :=
    nan _ _ rfl (by rintro _ ⟨⟩; decide +kernel) nofun
  refine ⟨⟨_, rfl, rfl, ?_⟩, _, _, rfl, rfl, ?_, ?_⟩
  · exact ((agree _ _ _ _ first second rfl rfl).mp rfl).1
  · decide +kernel
  · intro e
    have numerals := ((agree _ _ _ _ first third rfl rfl).mp e).2 (.int 1) (.real 1.0)
      (.single (.of (List.mem_singleton_self _)))
    obtain ⟨n, hn⟩ := numerals.1.mp ⟨1, rfl⟩
    cases hn

end ObjectLang
