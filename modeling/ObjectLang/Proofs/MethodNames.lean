import ObjectLang.Proofs.Eval.Sequence
import ObjectLang.Proofs.MethodResolution
import ObjectLang.Proofs.RunStates

/-!
# Listing methods

The names that a receiver lists are those that a lookup on it finds, `new` of an ordinary class
apart. They come in blocks along the resolution order: each name stands in the block of the first
class that has it, and each block is sorted.
-/

namespace ObjectLang

/-! ## Lists without repetition -/

section
variable {α β : Type} [BEq α] [LawfulBEq α]

theorem filter_bne_of_not_mem {a : α} {l : List α} (h : a ∉ l) :
    (l.filter fun b => !b == a) = l := by
  refine List.filter_eq_self.mpr fun b hb => ?_
  have : b ≠ a := fun e => h (e ▸ hb)
  simp [this]

theorem nodup_eraseDups : ∀ l : List α, l.eraseDups.Nodup
  | [] => List.nodup_nil
  | a :: l => by
    rw [List.eraseDups_cons, List.nodup_cons]
    exact ⟨by simp, nodup_eraseDups _⟩
termination_by l => l.length
decreasing_by exact Nat.lt_succ_of_le (List.length_filter_le _ _)

theorem eraseDups_of_nodup {l : List α} (h : l.Nodup) : l.eraseDups = l := by
  induction l with
  | nil => rfl
  | cons a l ih =>
    obtain ⟨ha, hl⟩ := List.nodup_cons.mp h
    rw [List.eraseDups_cons, filter_bne_of_not_mem ha, ih hl]

theorem eraseDups_filter (p : α → Bool) :
    ∀ l : List α, (l.filter p).eraseDups = l.eraseDups.filter p
  | [] => rfl
  | a :: l => by
    rw [List.eraseDups_cons, List.filter_cons, List.filter_cons, ← eraseDups_filter p,
      List.filter_comm]
    by_cases h : p a
    · rw [if_pos h, if_pos h, List.eraseDups_cons]
    · have absent : a ∉ l.filter p := fun ha => h (List.mem_filter.mp ha).2
      rw [if_neg h, if_neg h, filter_bne_of_not_mem absent]
termination_by l => l.length
decreasing_by exact Nat.lt_succ_of_le (List.length_filter_le _ _)

theorem eraseDups_append_eraseDups (l l' : List α) :
    (l ++ l'.eraseDups).eraseDups = (l ++ l').eraseDups := by
  simp only [List.eraseDups_append, List.removeAll, eraseDups_filter,
    eraseDups_of_nodup (nodup_eraseDups l')]

end

namespace Table

variable {α : Type} {t : Table α} {n : String}

theorem names_sorted (t : Table α) : t.names.Pairwise (· < ·) :=
  List.pairwise_map.mpr t.ordered

theorem names_nodup (t : Table α) : t.names.Nodup := by
  refine t.names_sorted.imp fun {a b} lt e => ?_
  subst e
  exact String.lt_irrefl a lt

theorem mem_names : n ∈ t.names ↔ (t.get? n).isSome := by
  have listed : ∀ l : List (String × α), n ∈ l.map (·.1) ↔ (l.lookup n).isSome := by
    intro l
    induction l with
    | nil => simp
    | cons x rest ih =>
      rw [lookup_cons_ite, List.map_cons, List.mem_cons, ih]
      by_cases h : n = x.1 <;> simp [h]
  exact listed t.entries

end Table

namespace Store

variable {s : Store} {f : FrameId} {v : Value} {c : ClassId} {order : List ClassId} {n : String}

/-! ## Blocks -/

/-- The first class of the order that has a method of the name in its own table. -/
def holder? (s : Store) (order : List ClassId) (n : String) : Option ClassId :=
  order.find? fun c => (s.ownMethod? n c).isSome

/-- The names in the table of the class that no class in front of it has. -/
def nameBlock (s : Store) (order : List ClassId) (c : ClassId) : List String :=
  (s.cls c).methods.names.filter fun n => s.holder? order n = some c

/-- The names of all tables along the order, each in the block of the first class that has it. -/
structure Lists (s : Store) (order : List ClassId) (names : List String) : Prop where
  blocks : names = order.flatMap (s.nameBlock order)
  sorted : ∀ c ∈ order, (s.nameBlock order c).Pairwise (· < ·)
  first : ∀ c n, n ∈ s.nameBlock order c ↔ s.holder? order n = some c
  nodup : names.Nodup
  mem : ∀ n, n ∈ names ↔ (order.findSome? (s.ownMethod? n)).isSome

theorem mem_methodNames : n ∈ (s.cls c).methods.names ↔ (s.ownMethod? n c).isSome :=
  Table.mem_names

theorem mem_nameBlock : n ∈ s.nameBlock order c ↔ s.holder? order n = some c := by
  rw [nameBlock, List.mem_filter, mem_methodNames, decide_eq_true_eq]
  exact and_iff_right_of_imp fun first =>
    List.find?_some (p := fun c => (s.ownMethod? n c).isSome) first

theorem nameBlock_head (s : Store) (c : ClassId) (order : List ClassId) :
    s.nameBlock (c :: order) c = (s.cls c).methods.names := by
  refine List.filter_eq_self.mpr fun n hn => ?_
  simp [holder?, mem_methodNames.mp hn]

/-- Of a name that comes up again only the first occurrence is left, in the block of its class. -/
theorem eraseDups_tables (h : order.Nodup) :
    (order.flatMap fun c => (s.cls c).methods.names).eraseDups = order.flatMap (s.nameBlock order) := by
  induction order with
  | nil => rfl
  | cons c order ih =>
    obtain ⟨hc, ho⟩ := List.nodup_cons.mp h
    have tail : ∀ d ∈ order, s.nameBlock (c :: order) d =
        (s.nameBlock order d).filter fun n => !(s.cls c).methods.names.elem n := by
      intro d hd
      have ne : c ≠ d := fun e => hc (e ▸ hd)
      rw [nameBlock, nameBlock, List.filter_filter]
      refine List.filter_congr fun n _ => ?_
      by_cases own : n ∈ (s.cls c).methods.names
      · have first : s.holder? (c :: order) n = some c := by
          simp [holder?, mem_methodNames.mp own]
        simp [first, own, ne]
      · have later : s.holder? (c :: order) n = s.holder? order n := by
          simp [holder?, mem_methodNames.not.mp own]
        simp [later, own]
    rw [List.flatMap_cons, List.flatMap_cons, List.eraseDups_append, List.removeAll,
      eraseDups_filter, ih ho, eraseDups_of_nodup (Table.names_nodup _), nameBlock_head,
      List.filter_flatMap,
      List.flatMap_congr tail]

theorem lists_tables (s : Store) {order : List ClassId} (h : order.Nodup) :
    s.Lists order (order.flatMap fun c => (s.cls c).methods.names).eraseDups where
  blocks := eraseDups_tables h
  sorted := fun c _ => (Table.names_sorted _).filter _
  first := fun _ _ => mem_nameBlock
  nodup := nodup_eraseDups _
  mem := by
    intro n
    simp [List.mem_eraseDups, mem_methodNames]

theorem Lists.begins {names : List String} (h : s.Lists (c :: order) names) :
    (s.cls c).methods.names <+: names := by
  rw [h.blocks, List.flatMap_cons, nameBlock_head]
  exact ⟨_, rfl⟩

/-! ## Receivers -/

theorem methodNames_eq (o : ObjectData) :
    s.methodNames o =
      ((o.singleton.toList ++ s.lineage o.cls).flatMap fun c => (s.cls c).methods.names).eraseDups := by
  rw [methodNames, instanceMethodNames, eraseDups_append_eraseDups, List.flatMap_append,
    singletonMethodNames]
  cases o.singleton <;> simp

/-- The class of an object's own methods comes before its superclasses, and so once. -/
theorem SoundIn.resolution_nodup (h : s.Sound) (first : s.HasClass objectClass) (f : FrameId)
    (v : Value) : (s.resolution f v).Nodup := by
  unfold resolution
  cases e : s.objectOf? v with
  | some o =>
    obtain ⟨has, single⟩ := h.linkedClass first e
    simp only
    cases hc : o.singleton with
    | none => exact h.lineage_nodup has
    | some c =>
      have own := single c hc
      have nodup := h.lineage_nodup own.has
      rwa [h.lineage_singleton has own] at nodup
  | none =>
    simp only
    cases found : v.builtinClass?.bind (s.registeredClass? f) with
    | none => simp
    | some c =>
      obtain ⟨n, _, hn⟩ := Option.bind_eq_some_iff.mp found
      exact h.lineage_nodup (h.registeredClass? hn).has

theorem tables_of_classOf? (hc : s.classOf? f v = some c) :
    (s.objectOf? v).elim (s.instanceMethodNames c) s.methodNames =
      ((s.resolution f v).flatMap fun d => (s.cls d).methods.names).eraseDups := by
  unfold resolution
  cases e : s.objectOf? v with
  | some o => exact methodNames_eq o
  | none =>
    simp only [classOf?, e] at hc
    simp only [hc]
    rfl

end Store

open Eval Store

/-! ## What the built-in methods answer -/

section
variable {s : Store} {f : FrameId} {v : Value} {c : ClassId} (r : Performer)

theorem runBuiltin_methods (hc : s.classOf? f v = some c) :
    runBuiltin r f .methods v [] s = newSymbols
      ((s.resolution f v).flatMap fun d => (s.cls d).methods.names).eraseDups s := by
  rw [← tables_of_classOf? hc]
  change methodsOf f v s = _
  rw [methodsOf, bind_of_read rfl]
  cases e : s.objectOf? v with
  | some o => rfl
  | none =>
    have found : expectClassOf f v s = .value c s := by
      rw [expectClassOf, bind_of_read hc]
      rfl
    exact bind_of_value found

end

/-- At every point of every run: the names that a receiver lists are those of the tables along its
resolution order, in blocks and without repetition. It responds to these names and, as an ordinary
class, to `new`, and to no others. The same holds of the names of instance methods that a class
lists, along its superclasses. -/
theorem method_listing {s : Store} (hs : s.Visited) {f : FrameId} {v : Value} {c : ClassId}
    (hc : s.classOf? f v = some c) :
    (∃ order names, s.Resolves f v order ∧ s.Lists order names ∧
      (∀ r, runBuiltin r f .methods v [] s = .value (.array ⟨s.arrays.size⟩)
        { s with arrays := s.arrays.push (names.map Value.symbol).toArray }) ∧
      (∀ r n, runBuiltin r f .respondTo v [.symbol n] s =
        .value (.bool (s.method? f v n).isSome) s) ∧
      (∀ n, (s.method? f v n).isSome ↔ n ∈ names ∨ s.answersNew v n) ∧
      ∀ o, s.objectOf? v = some o → s.singletonMethodNames o <+: names) ∧
    ∀ d, s.HasClass d → ∃ order, Walk s.superclass? d order ∧
      s.Lists order (s.instanceMethodNames d) ∧
      ∀ n, n ∈ s.instanceMethodNames d ↔ (s.instanceMethod? d n).isSome := by
  have first := hs.hasObjectClass
  have lists := s.lists_tables (hs.sound.resolution_nodup first f v)
  refine ⟨⟨_, _, hs.sound.resolves first f v, lists, fun r => runBuiltin_methods r hc,
    fun r n => rfl, fun n => ?_, fun o e => ?_⟩, fun d hd => ?_⟩
  · rw [method?_eq, lists.mem]
    cases s.answersNew v n <;> simp
  · cases hc : o.singleton with
    | none => simp [singletonMethodNames, hc]
    | some c =>
      have order : s.resolution f v = c :: s.lineage o.cls := by simp [resolution, e, hc]
      rw [order] at lists ⊢
      rw [singletonMethodNames, hc]
      exact lists.begins
  · have listed := s.lists_tables (hs.sound.lineage_nodup hd)
    exact ⟨_, hs.sound.lineage_walk hd, listed, listed.mem⟩

/-- A new machine in which the first class has a method of its own. -/
def ownMethodStore : Store :=
  (coreStore.tick.addSingleton (.cls objectClass) "Object").setMethod ⟨14⟩ "speak"
    (.defined ⟨"speak", [], .literal .nil, none⟩)

/-- The class lists its own method first. It responds to `new`, which no table holds. -/
theorem method_listing_class :
    ownMethodStore.Visited ∧
      ownMethodStore.classOf? Machine.root (.cls objectClass) = some classClass ∧
      ∃ names rest, names = "speak" :: rest ∧ "superclass" ∈ names ∧
        (∀ r, runBuiltin r Machine.root .methods (.cls objectClass) [] ownMethodStore =
          .value (.array ⟨0⟩) { ownMethodStore with arrays := #[(names.map Value.symbol).toArray] }) ∧
        (ownMethodStore.method? Machine.root (.cls objectClass) "new").isSome := by
  have ends : (evalExpr (perform 2) 2 Machine.root
      (.define (.dot (.name "Object") "speak" []) [] (.literal .nil)) coreStore).EndsIn
        ownMethodStore := rfl
  have visited : ownMethodStore.Visited :=
    .step (.start .usual coreStore.output) (core_sound .usual coreStore.output).hasRoot (.whole 2)
      ends
  have linked : ownMethodStore.classOf? Machine.root (.cls objectClass) = some classClass := rfl
  obtain ⟨⟨order, names, _, _, listed, _, found, own⟩, _⟩ := method_listing visited linked
  obtain ⟨rest, rfl⟩ := own (ownMethodStore.cls objectClass).object rfl
  have responds : (ownMethodStore.method? Machine.root (.cls objectClass) "superclass").isSome := by
    cbv
  refine ⟨visited, linked, _, rest, rfl, ?_, listed, (found "new").mpr (.inr rfl)⟩
  exact ((found "superclass").mp responds).resolve_right (by decide)

end ObjectLang
