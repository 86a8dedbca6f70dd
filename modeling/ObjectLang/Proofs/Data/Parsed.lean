import ObjectLang.Proofs.Data.Datum
import ObjectLang.Proofs.Parse.Inverse

/-!
# Data are parsed

The tokens of a datum are parsed to its expression. Data need no parentheses: the
operands of a range are integers, and everything else is a term.
-/

namespace ObjectLang

open Parse Grammar

/-! ## Integers and ranges -/

theorem operand_int (n : Int64) : OperandAt 5 (Datum.int n).expr (Datum.int n).pieces := by
  rw [Datum.int]
  split
  · exact operand_literal rfl
  · exact (operand_literal rfl).negative

/-! ## All data -/

theorem listed_separated {α : Type} (xs : List (α × List Piece)) :
    Listed xs (Datum.separated (xs.map (·.2))) := by
  induction xs with
  | nil => exact .none
  | cons x xs ih =>
    cases xs with
    | nil =>
      have last : Listed [x] (x.2 ++ []) := .last newlines_nil
      simpa [Datum.separated] using last
    | cons y xs =>
      have more := Listed.more (x := x) newlines_nil newlines_nil ih
      simpa [Datum.separated] using more

theorem Holds.parses {s : Store} {v : Value} {d : Datum} (h : Holds s v d) :
    Parses (.expr false d.expr) d.pieces := by
  induction h with
  | nil => exact parses_literal rfl
  | bool b => cases b <;> exact parses_literal rfl
  | @int n _ => exact (operand_int n).parses
  | str _ => exact parses_literal rfl
  | symbol _ => exact parses_literal rfl
  | @range a b _ _ => exact (operand_int a).parses_range (operand_int b)
  | @array a items xs _ _ _ ih =>
    have each : ∀ x ∈ (xs.map (·.2)).map fun d => (d.expr, d.pieces),
        Parses (.expr false x.1) x.2 := by
      intro x hx
      rw [List.map_map] at hx
      obtain ⟨y, hy, rfl⟩ := List.mem_map.mp hx
      exact ih y hy
    have whole : Parses (.expr false _) _ := parses_array each newlines_nil (listed_separated _)
    simp only [List.map_map] at whole
    simp only [Datum.array, List.map_map]
    exact whole
  | @hash h t xs _ _ _ _ _ _ ihk ihv =>
    have each : ∀ x ∈ (xs.map fun x => (x.1.2, x.2.2)).map fun x =>
        ((x.1.expr, x.2.expr), Datum.entryPieces x), Parses (.entry x.1) x.2 := by
      intro x hx
      rw [List.map_map] at hx
      obtain ⟨y, hy, rfl⟩ := List.mem_map.mp hx
      exact parses_entry (ihk y hy) newlines_nil (ihv y hy)
    have whole : Parses (.expr false _) _ := parses_hash each newlines_nil (listed_separated _)
    simp only [List.map_map] at whole
    simp only [Datum.hash, List.map_map]
    exact whole

end ObjectLang
