import ObjectLang.Proofs.Store.Growth
import Std.Data.TreeSet.Lemmas

/-!
# What is let go

The entries that are held make up the largest set each of whose members is in use or has another
member referring to it. Of the classes and modules, all others are let go, and nothing else about
the store is changed.
-/

namespace ObjectLang

/-! ## Settling -/

namespace Entry

theorem code_inj {d e : Entry} (h : d.code = e.code) : d = e := by
  rcases d with ⟨⟨i⟩⟩ | ⟨⟨i⟩⟩ | ⟨⟨i⟩⟩ | ⟨⟨i⟩⟩ | ⟨⟨i⟩⟩ | ⟨⟨i⟩⟩ <;>
    rcases e with ⟨⟨j⟩⟩ | ⟨⟨j⟩⟩ | ⟨⟨j⟩⟩ | ⟨⟨j⟩⟩ | ⟨⟨j⟩⟩ | ⟨⟨j⟩⟩ <;>
    simp only [code] at h <;>
    first
      | omega
      | (obtain rfl : i = j := by omega
         rfl)

variable {refs : Entry → List Entry} {used l : List Entry} {e : Entry}

theorem mem_sustained : e ∈ sustained refs used l ↔
    e ∈ l ∧ (e ∈ used ∨ ∃ d ∈ l, e ∈ refs d) := by
  have coded : e.code ∈ (used ++ l.flatMap refs).map code ↔ e ∈ used ++ l.flatMap refs := by
    refine ⟨fun h => ?_, List.mem_map_of_mem⟩
    obtain ⟨d, hd, same⟩ := List.mem_map.mp h
    exact code_inj same ▸ hd
  unfold sustained
  rw [List.mem_filter, Std.TreeSet.contains_ofList, List.contains_iff_mem, coded, List.mem_append,
    List.mem_flatMap]

/-- Every member of the set is in use, or another member refers to it. -/
def Sustains (refs : Entry → List Entry) (used : List Entry) (S : Entry → Prop) : Prop :=
  ∀ e, S e → e ∈ used ∨ ∃ d, S d ∧ e ∈ refs d

/-- As long as something is taken away the list gets shorter, so in the end nothing is. -/
theorem sustains_settle : ∀ (fuel : Nat) (l : List Entry), l.length ≤ fuel →
    Sustains refs used (· ∈ settle refs used fuel l)
  | 0, l, short => by
    obtain rfl := List.length_eq_zero_iff.mp (Nat.le_zero.mp short)
    exact nofun
  | fuel + 1, l, short => by
    unfold settle
    have less : (sustained refs used l).length ≤ l.length := List.length_filter_le ..
    by_cases same : (sustained refs used l).length = l.length
    · rw [if_pos same]
      have all := List.length_filter_eq_length_iff.mp same
      exact fun e he => (mem_sustained.mp (List.mem_filter.mpr ⟨he, all e he⟩)).2
    · rw [if_neg same]
      exact sustains_settle fuel _ (by omega)

theorem settle_subset : ∀ (fuel : Nat) (l : List Entry), settle refs used fuel l ⊆ l
  | 0, _ => List.Subset.refl _
  | fuel + 1, l => by
    unfold settle
    dsimp only
    split
    · exact List.Subset.refl _
    · exact List.Subset.trans (settle_subset fuel _) fun e he => (mem_sustained.mp he).1

theorem mem_settle_of_sustains {S : Entry → Prop} (hS : Sustains refs used S) :
    ∀ (fuel : Nat) (l : List Entry), (∀ e, S e → e ∈ l) → ∀ e, S e → e ∈ settle refs used fuel l
  | 0, _, all => all
  | fuel + 1, l, all => by
    unfold settle
    dsimp only
    split
    · exact all
    · refine mem_settle_of_sustains hS fuel _ fun e he => mem_sustained.mpr ⟨all e he, ?_⟩
      exact (hS e he).imp_right fun ⟨d, hd, ref⟩ => ⟨d, all d hd, ref⟩

end Entry

namespace Store

variable {s : Store} {f : FrameId} {kept : List Value} {used : List Entry} {c : ClassId}

/-- The entry is in a set of entries each of which is in use, or held by another one. -/
def IsHeld (s : Store) (used : List Entry) (e : Entry) : Prop :=
  ∃ S, Entry.Sustains s.refs used S ∧ (∀ d, S d → d ∈ s.entries) ∧ S e

theorem mem_held {e : Entry} : e ∈ s.held used ↔ s.IsHeld used e := by
  constructor
  · exact fun he => ⟨_, Entry.sustains_settle _ _ (Nat.le_refl _), Entry.settle_subset _ _, he⟩
  · rintro ⟨S, sustains, there, he⟩
    exact Entry.mem_settle_of_sustains sustains _ _ there e he

theorem mem_classIds : c ∈ s.classIds ↔ s.HasClass c := by
  constructor
  · intro hc
    obtain ⟨i, hi, rfl⟩ := List.mem_map.mp hc
    exact List.mem_range.mp hi
  · exact fun hc => List.mem_map.mpr ⟨c.index, List.mem_range.mpr hc, rfl⟩

theorem mem_entries_frame (hf : s.HasFrame f) : .frame f ∈ s.entries := by
  simp only [entries, List.mem_append, List.mem_map, List.mem_range]
  exact .inl (.inl (.inl (.inl (.inl ⟨f.index, hf, rfl⟩))))

theorem mem_entries_cls : .cls c ∈ s.entries ↔ s.HasClass c := by
  simp [entries, mem_classIds]

/-! ## Names -/

theorem isNamed_iff {classes : List ClassId} : s.isNamed f classes c = true ↔
    .cls c ∈ (s.frame f).locals.held ∨ ∃ d ∈ classes, .cls c ∈ (s.cls d).constants.held := by
  simp [isNamed]

/-- Names lead to each of the classes, by constants of others of them. -/
def AllNamed (s : Store) (f : FrameId) (classes : List ClassId) : Prop :=
  ∀ c ∈ classes, s.HasClass c ∧ s.isNamed f classes c = true

theorem AllNamed.cons {classes : List ClassId} (h : s.AllNamed f classes) (has : s.HasClass c)
    (named : s.isNamed f classes c = true) : s.AllNamed f (c :: classes) := by
  have more {d : ClassId} (hd : s.isNamed f classes d = true) :
      s.isNamed f (c :: classes) d = true :=
    isNamed_iff.mpr ((isNamed_iff.mp hd).imp_right fun ⟨e, he, ref⟩ =>
      ⟨e, List.mem_cons_of_mem _ he, ref⟩)
  exact List.forall_mem_cons.mpr ⟨⟨has, more named⟩, fun d hd => ⟨(h d hd).1, more (h d hd).2⟩⟩

theorem allNamed_named : s.AllNamed f (s.named f) := by
  refine List.foldlRecOn s.classIds _ (motive := s.AllNamed f) nofun fun classes h c hc => ?_
  split
  · next named => exact h.cons (mem_classIds.mp hc) named
  · exact h

theorem isHeld_of_mem_named (hf : s.HasFrame f) (hc : c ∈ s.named f) :
    s.IsHeld (.frame f :: used) (.cls c) := by
  refine ⟨fun e => e = .frame f ∨ ∃ d ∈ s.named f, e = .cls d, ?_, ?_, .inr ⟨c, hc, rfl⟩⟩
  · rintro _ (rfl | ⟨d, hd, rfl⟩)
    · exact .inl List.mem_cons_self
    · rcases isNamed_iff.mp (allNamed_named d hd).2 with ref | ⟨e, he, ref⟩
      · exact .inr ⟨.frame f, .inl rfl, by simp [refs, ref]⟩
      · exact .inr ⟨.cls e, .inr ⟨e, he, rfl⟩, by simp [refs, ref]⟩
  · rintro _ (rfl | ⟨d, hd, rfl⟩)
    · exact mem_entries_frame hf
    · exact mem_entries_cls.mpr (allNamed_named d hd).1

/-! ## Letting go -/

theorem mem_loose : c ∈ s.loose f ↔ s.HasClass c ∧ s.alive c = true ∧
    (s.cls c).kind ≠ .singleton ∧ c ∉ s.named f := by
  simp [loose, List.mem_filter, mem_classIds, and_assoc]

theorem mem_unheld_iff : c ∈ s.unheld f kept ↔ c ∈ s.loose f ∧
    .cls c ∉ s.held (.frame f :: kept.filterMap Value.reference?) := by
  unfold unheld
  split
  · next none => simp [none]
  · simp [List.mem_filter]

/-- A class or module is let go if it is there and nothing holds it. -/
theorem mem_unheld (hf : s.HasFrame f) : c ∈ s.unheld f kept ↔ s.HasClass c ∧
    s.alive c = true ∧ (s.cls c).kind ≠ .singleton ∧
    ¬ s.IsHeld (.frame f :: kept.filterMap Value.reference?) (.cls c) := by
  rw [mem_unheld_iff, mem_loose, mem_held]
  constructor
  · rintro ⟨⟨has, alive, kind, _⟩, unheld⟩
    exact ⟨has, alive, kind, unheld⟩
  · rintro ⟨has, alive, kind, unheld⟩
    exact ⟨⟨has, alive, kind, fun named => unheld (isHeld_of_mem_named hf named)⟩, unheld⟩

theorem alive_release_iff :
    (s.release f kept).alive c = true ↔ s.alive c = true ∧ c ∉ s.unheld f kept := by
  rw [alive_iff, alive_iff]
  simp only [release, List.mem_append, not_or]
  exact And.comm

/-- Behind a release, those classes and modules are there that have been there and are held. -/
theorem alive_release (hf : s.HasFrame f) (hc : s.HasClass c)
    (proper : (s.cls c).kind ≠ .singleton) : (s.release f kept).alive c = true ↔
      s.alive c = true ∧ s.IsHeld (.frame f :: kept.filterMap Value.reference?) (.cls c) := by
  rw [alive_release_iff, mem_unheld hf]
  constructor
  · rintro ⟨alive, kept⟩
    exact ⟨alive, Classical.byContradiction fun unheld => kept ⟨hc, alive, proper, unheld⟩⟩
  · exact fun ⟨alive, held⟩ => ⟨alive, fun unheld => unheld.2.2.2 held⟩

theorem held_congr {t : Store} (refs : t.refs = s.refs) (entries : t.entries = s.entries) :
    t.held = s.held := by
  funext used
  rw [held, held, refs, entries]

/-- There is nothing to let go, now or earlier than was to be expected in the next command. -/
theorem release_eq_iff : s.release f kept = s ↔ s.unheld f kept = [] ∧
    s.memory.runtime.drops (kept.filterMap Value.reference?) = s.memory.drops := by
  constructor
  · intro same
    have memory := congrArg Store.memory same
    exact ⟨List.append_left_eq_self.mp (congrArg Memory.dropped memory),
      congrArg Memory.drops memory⟩
  · rintro ⟨unheld, drops⟩
    rw [release, unheld, drops]
    rfl

end Store

end ObjectLang
