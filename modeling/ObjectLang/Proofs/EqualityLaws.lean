import ObjectLang.Proofs.HashKeys
import ObjectLang.Proofs.Number.Reals
import ObjectLang.Proofs.Store.Nesting

/-!
# The laws of equality

Equality is symmetric, and reflexive but for NaN and functions. Three integers need not be equal when
a real between them is, as several of them are rounded to it; apart from that, equality is
transitive. The laws hold of bisimilarity, whatever collections share or contain.
-/

namespace ObjectLang.Store

open Relation

variable {s : Store} {R : Value → Value → Prop} {u v w x y z : Value}

/-! ## Reflexivity and symmetry -/

theorem Matches.flip (h : s.Matches R v w) : s.Matches (fun x y => R y x) w v := by
  cases h with
  | intReal h => exact .realInt (BEq.symm h)
  | realInt h => exact .intReal (BEq.symm h)
  | real h => exact .real (BEq.symm h)
  | array h => exact .array h.flip
  | hash h => exact .hash h.flip
  | _ => constructor

theorem Bisimilar.symm (h : s.Bisimilar v w) : s.Bisimilar w v := by
  have respects : s.Respects fun x y => s.Bisimilar y x :=
    fun x y h => (bisimilar_respects y x h).flip
  exact respects.bisimilar h

/-- Neither NaN nor a function. -/
def SelfEqual (v : Value) : Prop :=
  (∀ x, v = .real x → x.isNaN = false) ∧ ∀ m, v ≠ .function m

theorem isNaN_eq_false_of_beq {x y : Float} (h : (x == y) = true) : x.isNaN = false := by
  rw [Float.isNaN_eq_decide_eq_nan, decide_eq_false_iff_not]
  exact (Float.beq_iff_ne_nan_and_eq.mp h).1

theorem matches_self_iff : s.Matches R v v ↔ SelfEqual v := by
  constructor
  · intro h
    refine ⟨?_, ?_⟩
    · rintro x rfl
      cases h with | real h => exact isNaN_eq_false_of_beq h
    · rintro m rfl
      cases h
  · rintro ⟨number, noFunction⟩
    cases v with
    | real x => exact .real (beq_self_of_not_isNaN (number x rfl))
    | function m => exact absurd rfl (noFunction m)
    | _ => constructor

theorem bisimilar_self_iff : s.Bisimilar v v ↔ SelfEqual v := by
  constructor
  · intro h
    exact matches_self_iff.mp (bisimilar_respects v v h)
  · intro h
    have respects : s.Respects fun x y => x = y ∧ SelfEqual x := by
      rintro x _ ⟨rfl, h⟩
      exact matches_self_iff.mpr h
    exact respects.bisimilar ⟨rfl, h⟩

/-! ## Places of collections -/

/-- The elements at one place of two collections of a kind. -/
inductive Beside (s : Store) : Value × Value → Value × Value → Prop where
  | of {v w : Value} {a b : Container} {p : Value × Value} (kinds : v.containers? w = some (a, b))
      (h : p ∈ (s.children a).zip (s.children b)) : Beside s (v, w) p

/-- `x` is as deep in `v` as `y` is in `w`, and at the same place. -/
def Aligned (s : Store) (v w x y : Value) : Prop :=
  ReflTransGen s.Beside (v, w) (x, y)

theorem value_of_containers? {a b : Container} (h : v.containers? w = some (a, b)) :
    v = a.value ∧ w = b.value := by
  unfold Value.containers? at h
  split at h <;> cases h <;> exact ⟨rfl, rfl⟩

theorem Aligned.inside (h : s.Aligned v w x y) :
    ReflTransGen (Inside s) x v ∧ ReflTransGen (Inside s) y w := by
  have path {p q : Value × Value} (h : ReflTransGen s.Beside p q) :
      ReflTransGen (Inside s) q.1 p.1 ∧ ReflTransGen (Inside s) q.2 p.2 := by
    induction h with
    | refl => exact ⟨.refl, .refl⟩
    | tail _ step ih =>
      obtain ⟨kinds, hp⟩ := step
      obtain ⟨rfl, rfl⟩ := value_of_containers? kinds
      obtain ⟨hx, hy⟩ := List.of_mem_zip hp
      exact ⟨.head (inside_value hx) ih.1, .head (inside_value hy) ih.2⟩
  exact path h

/-! ## Transitivity -/

theorem forall₂_between {S : Value → Value → Prop} {us vs ws : List Value}
    (h : List.Forall₂ R us vs) (h' : List.Forall₂ S vs ws) :
    List.Forall₂ (fun u w => ∃ v, R u v ∧ S v w) us ws := by
  induction h generalizing ws with
  | nil =>
    cases h'
    exact .nil
  | cons first _ ih =>
    cases h' with
    | cons first' rest => exact .cons ⟨_, first, first'⟩ (ih rest)

/-- Two equal values, or two with another one between them that both are equal to, unless they hold
different integers at one place. -/
inductive Composed (s : Store) (u w : Value) : Prop where
  | bisimilar (h : s.Bisimilar u w)
  | between {v : Value} (h : s.Bisimilar u v) (h' : s.Bisimilar v w)
      (integers : ∀ a c, s.Aligned u w (.int a) (.int c) → a = c)

theorem Composed.elements {a b c : Container} (kinds : u.containers? w = some (a, c))
    (integers : ∀ a c, s.Aligned u w (.int a) (.int c) → a = c)
    (h : List.Forall₂ s.Bisimilar (s.children a) (s.children b))
    (h' : List.Forall₂ s.Bisimilar (s.children b) (s.children c)) :
    List.Forall₂ s.Composed (s.children a) (s.children c) := by
  obtain ⟨length, between⟩ := List.forall₂_iff_zip.mp (forall₂_between h h')
  refine List.forall₂_iff_zip.mpr ⟨length, fun {x z} hp => ?_⟩
  obtain ⟨y, hxy, hyz⟩ := between hp
  exact .between hxy hyz fun m n inner => integers m n (.head (.of kinds hp) inner)

theorem composed_respects : s.Respects s.Composed := by
  intro u w composed
  have direct {u w : Value} (h : s.Bisimilar u w) : s.Matches s.Composed u w :=
    (bisimilar_respects u w h).mono fun _ _ => .bisimilar
  obtain h | ⟨huv, hvw, integers⟩ := composed
  · exact direct h
  cases bisimilar_respects _ _ huv with
  | int n =>
    cases bisimilar_respects _ _ hvw with
    | int => exact .int n
    | intReal h' => exact .intReal h'
  | intReal h =>
    cases bisimilar_respects _ _ hvw with
    | realInt h' =>
      -- Both integers are rounded to the real between them.
      obtain rfl := integers _ _ .refl
      exact .int _
    | real h' => exact .intReal (BEq.trans h h')
  | realInt h =>
    cases bisimilar_respects _ _ hvw with
    | int => exact .realInt h
    | intReal h' => exact .real (BEq.trans h h')
  | real h =>
    cases bisimilar_respects _ _ hvw with
    | realInt h' => exact .realInt (BEq.trans h h')
    | real h' => exact .real (BEq.trans h h')
  | @array a b h =>
    cases bisimilar_respects _ _ hvw with
    | sameArray => exact direct huv
    | @array _ c h' =>
      exact .array (Composed.elements (a := .array a) (b := .array b) (c := .array c) rfl integers
        h h')
  | @hash a b h =>
    cases bisimilar_respects _ _ hvw with
    | sameHash => exact direct huv
    | @hash _ c h' =>
      exact .hash (forall₂_entries.mpr (Composed.elements (a := .hash a) (b := .hash b)
        (c := .hash c) rfl integers (forall₂_entries.mp h) (forall₂_entries.mp h')))
  | _ => exact direct hvw

/-! ## What is aligned in equal values -/

/-- The same value, or two that are equal. -/
def SameOrEqual (s : Store) (v w : Value) : Prop :=
  v = w ∨ s.Bisimilar v w

theorem SameOrEqual.elements {a b : Container} (h : s.SameOrEqual v w)
    (kinds : v.containers? w = some (a, b)) :
    List.Forall₂ s.SameOrEqual (s.children a) (s.children b) := by
  have same (xs : List Value) : List.Forall₂ s.SameOrEqual xs xs :=
    List.forall₂_same.mpr fun x _ => .inl rfl
  rcases h with rfl | h
  · obtain ⟨ha, hb⟩ := value_of_containers? kinds
    obtain rfl := Container.value_inj (ha.symm.trans hb)
    exact same _
  · have alike := matches_iff.mp (bisimilar_respects v w h)
    rw [kinds] at alike
    rcases alike with rfl | elements
    · exact same _
    · exact elements.imp fun _ _ => .inr

theorem SameOrEqual.containers {a : Container} (h : s.SameOrEqual a.value v) :
    ∃ b, a.value.containers? v = some (a, b) := by
  rcases h with rfl | h
  · cases a <;> exact ⟨_, rfl⟩
  · cases a with
    | array a => cases bisimilar_respects _ _ h <;> exact ⟨_, rfl⟩
    | hash a => cases bisimilar_respects _ _ h <;> exact ⟨_, rfl⟩

theorem Bisimilar.aligned (h : s.Bisimilar u w) (aligned : s.Aligned u w x z) : s.SameOrEqual x z := by
  have path {p q : Value × Value} (steps : ReflTransGen s.Beside p q)
      (h : s.SameOrEqual p.1 p.2) : s.SameOrEqual q.1 q.2 := by
    induction steps with
    | refl => exact h
    | tail _ step ih =>
      obtain ⟨kinds, hp⟩ := step
      exact (List.forall₂_iff_zip.mp (ih.elements kinds)).2 hp
  exact path aligned (.inr h)

/-- What is aligned has something in between, as the values themselves have. -/
theorem exists_between (huv : s.Bisimilar u v) (hvw : s.Bisimilar v w)
    (aligned : s.Aligned u w x z) : ∃ y, s.SameOrEqual x y ∧ s.SameOrEqual y z := by
  have path {p q : Value × Value} (steps : ReflTransGen s.Beside p q)
      (h : ∃ y, s.SameOrEqual p.1 y ∧ s.SameOrEqual y p.2) : ∃ y, s.SameOrEqual q.1 y ∧ s.SameOrEqual y q.2 := by
    induction steps with
    | refl => exact h
    | tail _ step ih =>
      obtain ⟨kinds, hp⟩ := step
      obtain ⟨y, first, second⟩ := ih
      obtain ⟨rfl, rfl⟩ := value_of_containers? kinds
      obtain ⟨b, kinds₁⟩ := first.containers
      obtain ⟨-, rfl⟩ := value_of_containers? kinds₁
      obtain ⟨c, kinds₂⟩ := second.containers
      obtain rfl := Container.value_inj (value_of_containers? kinds₂).2
      have between := forall₂_between (first.elements kinds₁) (second.elements kinds₂)
      exact (List.forall₂_iff_zip.mp between).2 hp
  exact path aligned ⟨v, .inr huv, .inr hvw⟩

theorem SameOrEqual.toReal_beq {a c : Int64} (h : s.SameOrEqual (.int a) y) (h' : s.SameOrEqual y (.int c)) :
    a = c ∨ (Number.toReal a == Number.toReal c) = true := by
  rcases h with rfl | h
  · rcases h' with h' | h'
    · exact .inl (Value.int.inj h')
    · cases bisimilar_respects _ _ h'
      exact .inl rfl
  · rcases h' with rfl | h'
    · cases bisimilar_respects _ _ h
      exact .inl rfl
    · cases bisimilar_respects _ _ h with
      | int =>
        cases bisimilar_respects _ _ h'
        exact .inl rfl
      | intReal left =>
        cases bisimilar_respects _ _ h' with
        | realInt right => exact .inr (BEq.trans left right)

theorem bisimilar_trans_iff (huv : s.Bisimilar u v) (hvw : s.Bisimilar v w) :
    s.Bisimilar u w ↔ ∀ a c, s.Aligned u w (.int a) (.int c) → a = c := by
  constructor
  · intro h a c aligned
    rcases h.aligned aligned with same | alike
    · exact Value.int.inj same
    · cases bisimilar_respects _ _ alike
      rfl
  · exact fun integers => composed_respects.bisimilar (.between huv hvw integers)

/-- Only integers that a real has no room for are rounded to the same one. -/
theorem Bisimilar.trans (huv : s.Bisimilar u v) (hvw : s.Bisimilar v w)
    (room : ∀ n, ReflTransGen (Inside s) (.int n) u ∨ ReflTransGen (Inside s) (.int n) w →
      Number.Significant 53 n.toInt) : s.Bisimilar u w := by
  refine (bisimilar_trans_iff huv hvw).mpr fun a c aligned => ?_
  obtain ⟨y, first, second⟩ := exists_between huv hvw aligned
  obtain ⟨left, right⟩ := aligned.inside
  refine (first.toReal_beq second).elim id fun same => ?_
  exact Number.eq_of_toReal (room a (.inl left)) (room c (.inr right)) same

end ObjectLang.Store

namespace ObjectLang

open Relation

/-- Equality is an equivalence but for NaN, functions and integers of more than 53 digits. -/
theorem equality_laws (s : Store) :
    (∀ v, s.same v v = true ↔
      (∀ x, v = .real x → x.isNaN = false) ∧ ∀ m, v ≠ .function m) ∧
    (∀ v w, s.same v w = s.same w v) ∧
    (∀ u v w, s.same u v = true → s.same v w = true →
      (s.same u w = true ↔ ∀ a c, s.Aligned u w (.int a) (.int c) → a = c)) ∧
    (∀ u v w, s.same u v = true → s.same v w = true →
      (∀ n, ReflTransGen (Inside s) (.int n) u ∨ ReflTransGen (Inside s) (.int n) w →
        Number.Significant 53 n.toInt) → s.same u w = true) := by
  have decides (v w : Value) := Store.equalityGives_iff_bisimilar (s.equalityGives_same v w)
  refine ⟨fun v => ?_, fun v w => ?_, fun u v w huv hvw => ?_, fun u v w huv hvw room => ?_⟩
  · rw [decides]
    exact Store.bisimilar_self_iff
  · rw [Bool.eq_iff_iff, decides, decides]
    exact ⟨Store.Bisimilar.symm, Store.Bisimilar.symm⟩
  · rw [decides] at huv hvw ⊢
    exact Store.bisimilar_trans_iff huv hvw
  · rw [decides] at huv hvw ⊢
    exact huv.trans hvw room

/-- Three arrays that hold themselves and a one each, which is a real in the second of them. -/
def numberedLoops : Store :=
  { Store.empty with
    arrays := #[#[.int 1, .array ⟨0⟩], #[.real 1, .array ⟨1⟩], #[.int 1, .array ⟨2⟩]] }

theorem equality_laws_loops :
    numberedLoops.same (.array ⟨0⟩) (.array ⟨1⟩) = true ∧
    numberedLoops.same (.array ⟨1⟩) (.array ⟨2⟩) = true ∧
    (∀ n, ReflTransGen (Inside numberedLoops) (.int n) (.array ⟨0⟩) ∨
      ReflTransGen (Inside numberedLoops) (.int n) (.array ⟨2⟩) →
        Number.Significant 53 n.toInt) ∧
    numberedLoops.same (.array ⟨0⟩) (.array ⟨2⟩) = true := by
  have first : numberedLoops.same (.array ⟨0⟩) (.array ⟨1⟩) = true := by decide +kernel
  have second : numberedLoops.same (.array ⟨1⟩) (.array ⟨2⟩) = true := by decide +kernel
  have only {i : Nat} {v : Value} (e : numberedLoops.array ⟨i⟩ = #[.int 1, .array ⟨i⟩])
      (path : ReflTransGen (Inside numberedLoops) v (.array ⟨i⟩)) :
      v = .int 1 ∨ v = .array ⟨i⟩ := by
    induction path using ReflTransGen.head_induction_on with
    | refl => exact .inr rfl
    | head inside _ ih =>
      obtain ⟨a, of, h⟩ := inside_iff.mp inside
      rcases ih with rfl | rfl
      · cases a <;> cases of
      · cases a <;> cases of
        simpa [Store.children, e] using h
  have room (n : Int64) (h : ReflTransGen (Inside numberedLoops) (.int n) (.array ⟨0⟩) ∨
      ReflTransGen (Inside numberedLoops) (.int n) (.array ⟨2⟩)) :
      Number.Significant 53 n.toInt := by
    have one : n = 1 := by
      rcases h with h | h
      · simpa using only rfl h
      · simpa using only rfl h
    subst one
    exact ⟨1, 0, by decide, by decide⟩
  exact ⟨first, second, room, (equality_laws numberedLoops).2.2.2 _ _ _ first second room⟩

/-- A function is not equal to itself, and two integers that a real is equal to can be different. -/
theorem equality_laws_exceptions :
    Store.empty.same (.function (.defined ⟨"Foo", [], .sequence [], none⟩))
      (.function (.defined ⟨"Foo", [], .sequence [], none⟩)) = false ∧
    Store.empty.same (.int 9007199254740993) (.real 9007199254740992) = true ∧
    Store.empty.same (.real 9007199254740992) (.int 9007199254740992) = true ∧
    Store.empty.same (.int 9007199254740993) (.int 9007199254740992) = false := by
  decide +kernel

end ObjectLang
