import ObjectLang.Proofs.Store.Chains

/-!
# The store of a new machine

The built-in classes and the frame that names them make up a sound store.
-/

namespace ObjectLang

/-- The store of a new machine that runs in `r` and prints to `output`. -/
def coreStoreOn (r : Runtime) (output : Output) : Store :=
  { coreStore with output := output, memory := .fresh r }

namespace Store

variable (r : Runtime) (output : Output)

theorem core_classes {i : Nat} {d : ClassData} (h : (coreStoreOn r output).classes[i]? = some d) :
    ∃ n superclass methods, coreClasses[i]? = some (n, superclass, methods) ∧
      d = coreClass n superclass methods := by
  have e : (coreStoreOn r output).classes =
      (coreClasses.map fun x => coreClass x.1 x.2.1 x.2.2).toArray := rfl
  rw [e, List.getElem?_toArray, List.getElem?_map] at h
  obtain ⟨⟨n, superclass, methods⟩, hx, rfl⟩ := Option.map_eq_some_iff.mp h
  exact ⟨n, superclass, methods, hx, rfl⟩

theorem core_proper {c : ClassId} (h : c.index < coreClasses.length) :
    (coreStoreOn r output).Proper c := by
  have has : (coreStoreOn r output).HasClass c := h
  obtain ⟨n, superclass, methods, _, e⟩ := core_classes r output (classes_get has)
  exact ⟨has, by rw [e]; exact nofun⟩

/-- Only the first built-in class has no superclass, and each of the others has an earlier one. -/
theorem core_links : ∀ x ∈ coreClasses.zipIdx, (x.1.2.1 = none → x.2 = 0) ∧
    ∀ p ∈ x.1.2.1, p.index < x.2 ∧ p.index < coreClasses.length := by
  decide

theorem core_methods : ∀ x ∈ coreClasses, Builtin.new ∉ x.2.2 := by
  decide

theorem core_sound : (coreStoreOn r output).Sound where
  rooted := Nat.one_pos
  frames := by
    intro i fr hfr
    obtain ⟨hi, e⟩ := Array.getElem?_eq_some_iff.mp hfr
    obtain rfl : i = 0 := Nat.lt_one_iff.mp hi
    obtain rfl : coreFrame = fr := e
    refine ⟨rfl, Table.forall_ofList fun x hx => ?_, nofun, nofun⟩
    rcases List.mem_cons.mp hx with rfl | hx
    · trivial
    · obtain ⟨⟨y, j⟩, hy, rfl⟩ := List.mem_map.mp hx
      have hj := (List.mem_zipIdx hy).2.1
      exact core_proper r output (by simpa using hj)
  objects := nofun
  classes := by
    intro i d hd
    obtain ⟨n, superclass, methods, hx, rfl⟩ := core_classes r output hd
    have hs := core_links ((n, superclass, methods), i) (List.mem_zipIdx_iff_getElem?.mpr hx)
    exact {
      object := ⟨core_proper r output (c := classClass) (by decide), Table.forall_empty _, nofun⟩
      superclass := by
        cases superclass with
        | none => exact hs.1 rfl
        | some p => exact ⟨(hs.2 p rfl).1, core_proper r output (hs.2 p rfl).2⟩
      enclosing := nofun
      methods := Table.forall_ofList fun x hx' => by
        obtain ⟨b, hb, rfl⟩ := List.mem_map.mp hx'
        intro e
        subst e
        exact core_methods _ (List.mem_of_getElem? hx) hb
      constants := Table.forall_empty _
      classVars := Table.forall_empty _ }
  arrays := nofun
  hashes := nofun
  blocks := nofun

end Store

end ObjectLang
