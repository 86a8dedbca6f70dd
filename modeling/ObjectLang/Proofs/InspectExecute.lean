import ObjectLang.Proofs.Data.Evaluate
import ObjectLang.Proofs.Data.Parsed
import ObjectLang.Proofs.Execute

/-!
# Inspected data are executed

What data are inspected as is a program, and what the program makes is equal to them.
-/

namespace ObjectLang

section
variable {s : Store} {v : Value} {d : Datum}

theorem parse_inspect (h : Holds s v d) :
    ∃ rest, parseProgram (s.inspect v) = .ok [d.expr] rest := by
  have read : Reads (d.text ++ []) (d.pieces ++ []) := by
    refine h.legible.reads (.done .nil (.inl rfl)) ?_
    intro c hc
    cases hc
  have written : Reads (s.inspect v).toList d.pieces := by
    rw [inspect_holds h, String.toList_ofList]
    simpa using read
  have alone : Sequenced [(d.expr, d.pieces)] d.pieces := .last separators_nil
  refine parse_commands alone (fun x hx => ?_) written
  rw [List.mem_singleton.mp hx]
  exact h.parses

/-- Data are no matter of what is let go. -/
theorem extends_release (s : Store) (f : FrameId) (kept : List Value) :
    s.Extends (s.release f kept) :=
  { Store.Extends.refl s with }

end

/-- On every machine, a new one too, the text of data makes data that are made up in the same way
and have the same text. Where the machine knows the collections of the first ones, both are
equal. -/
theorem inspect_execute {s : Store} {v : Value} (h : IsData s v) (m : Machine) :
    ∃ w m', m.execute (s.inspect v) = .value w m' ∧ m'.store.inspect w = s.inspect v ∧
      MadeLike s m'.store v w ∧ (s.Extends m.store → m'.store.same w v = true) := by
  obtain ⟨d, hd⟩ := exists_holds h
  obtain ⟨rest, parsed⟩ := parse_inspect hd
  have begun := extends_release m.store Machine.root []
  obtain ⟨w, s', copies⟩ := hd.copies Machine.root (m.store.release Machine.root [])
  have done := extends_release s' Machine.root [w]
  refine ⟨w, _, execute_of_value parsed copies.settles.performer, ?_, copies.alike.mono done, ?_⟩
  · rw [inspect_holds (copies.holds.mono done), inspect_holds hd]
  · intro known
    exact copies.alike.same ((known.trans begun).trans (copies.kept.trans done)) done

/-- A new machine, but for an array that it knows and a hash in the array. -/
def nestedMachine : Machine :=
  ⟨{ coreStore with
      arrays := #[#[.int (-1), .hash ⟨0⟩, .str "\t"]]
      hashes := #[⟨#[⟨.symbol "class", .range (-2) 3⟩], [(.symbol "class", 0)]⟩] }⟩

theorem isData_nested : IsData nestedMachine.store (.array ⟨0⟩) := by
  have one : (-1 : Int64) ≠ Int64.minValue := by decide
  have lower : (-2 : Int64) ≠ Int64.minValue := by decide
  have upper : (3 : Int64) ≠ Int64.minValue := by decide
  have word : IsIdentifier "class".toList := by decide
  have tab : ∀ c ∈ "\t".toList, Readable c := by
    intro c hc
    rw [List.mem_singleton.mp hc]
    exact ⟨by decide, by decide⟩
  have entry : IsData nestedMachine.store (.hash ⟨0⟩) := by
    refine .hash rfl ?_ ?_ ?_ ?_
    · intro p hp
      rw [List.mem_singleton.mp hp]
      exact .symbol word
    · intro p hp
      rw [List.mem_singleton.mp hp]
      exact .range lower upper
    · intro p hp
      rw [List.mem_singleton.mp hp]
      exact ⟨.symbol "class", rfl⟩
    · exact List.nodup_cons.mpr ⟨List.not_mem_nil, List.nodup_nil⟩
  refine .array rfl fun v hv => ?_
  rcases List.mem_cons.mp hv with rfl | hv
  · exact .int one
  · rcases List.mem_cons.mp hv with rfl | hv
    · exact entry
    · rw [List.mem_singleton.mp hv]
      exact .str tab

theorem inspect_execute_nested : IsData nestedMachine.store (.array ⟨0⟩) ∧
    ∃ w m', nestedMachine.execute (nestedMachine.store.inspect (.array ⟨0⟩)) = .value w m' ∧
      m'.store.inspect w = nestedMachine.store.inspect (.array ⟨0⟩) ∧
      MadeLike nestedMachine.store m'.store (.array ⟨0⟩) w ∧
      m'.store.same w (.array ⟨0⟩) = true := by
  obtain ⟨w, m', run, text, alike, same⟩ := inspect_execute isData_nested nestedMachine
  exact ⟨isData_nested, w, m', run, text, alike, same (.refl _)⟩

end ObjectLang
