import ObjectLang.Proofs.Parse.Constructs
import ObjectLang.Proofs.Parse.Operators

/-!
# Printed programs are parsed back

One induction over the printed forms, and the text of a program on top of it.
-/

namespace ObjectLang

open Parse Grammar

theorem prints_parses {form : Form} {ps : List Piece} (h : Prints form ps) : Parses form ps := by
  induction h with
  | literal h => exact parses_literal h
  | name n => exact parses_name n
  | selfRef => exact parses_selfRef
  | instanceVar n => exact parses_instanceVar n
  | classVar n => exact parses_classVar n
  | arith op _ _ hl hr => exact parses_arith op hl hr
  | compare op _ _ hl hr => exact parses_compare op hl hr
  | negative _ h => exact (operand_of_group h).negative.parses
  | negation _ h => exact (operand_of_group h).parses_negation
  | assign n hrun _ hv =>
    exact parses_assignVariable rfl (fun _ _ hB => takes_name n (hB.headIs rfl)) rfl hrun hv
  | assignInstanceVar n hrun _ hv =>
    exact parses_assignVariable rfl (fun _ _ _ => takes_instanceVar n) rfl hrun hv
  | assignClassVar n hrun _ hv =>
    exact parses_assignVariable rfl (fun _ _ _ => takes_classVar n) rfl hrun hv
  | assignIndexed _ ha _ hb hrun _ ht hi hv =>
    exact (suffixed_indexed ht ha hi hb).parses_assignment rfl hrun hv
  | assignDot _ hm hrun _ ht hv => exact (suffixed_dotAlone ht hm).parses_assignment rfl hrun hv
  | call n _ h => exact parses_call n h
  | dot _ hm _ ht h => exact parses_dot ht hm h
  | dotAlone _ hm ht => exact (suffixed_dotAlone ht hm).parses
  | doubleColon _ hm ht => exact (suffixed_doubleColon ht hm).parses
  | ifElse _ h => exact parses_ifElse h
  | whileLoop _ hh _ hc hb => exact parses_whileLoop hc hh hb
  | untilLoop _ hh _ hc hb => exact parses_untilLoop hc hh hb
  | forIn n _ hh _ hc hb => exact parses_forIn n (group_expression hc) hh hb
  | forInBare n _ hh _ hc hb => exact parses_forIn n hc hh hb
  | define ht hn _ hb => exact parses_define ht hn hb
  | classDef hc hs _ hb => exact parses_classDef hc hs hb
  | subclassDef hc _ hs _ hp hb => exact parses_subclassDef hc hp hs hb
  | moduleDef hn hs _ hb => exact parses_moduleDef hn hs hb
  | array _ hrun h hx => exact parses_array (fun x hxs => group_expression (hx x hxs)) hrun h
  | hash _ hrun h hx => exact parses_hash hx hrun h
  | range _ _ hl hu => exact (operand_of_group hl).parses_range (operand_of_group hu)
  | indexed _ ha _ hb ht hi => exact (suffixed_indexed ht ha hi hb).parses
  | group ha _ hb h => exact parses_group ha h hb
  | entry _ hrun _ hk hv => exact parses_entry (group_expression hk) hrun (group_expression hv)
  | body _ h hx => exact parses_body hx h
  | thenEnd _ hh _ hc hb => exact parses_thenEnd hc hh hb
  | thenElse _ hh _ _ hc hb ho => exact parses_thenElse hc hh hb ho
  | thenElif _ hh _ _ hc hb ho => exact parses_thenElif hc hh hb ho
  | block hn _ hb => exact parses_block hn hb
  | arguments _ hrun h hx => exact parses_arguments hx hrun h
  | argumentsDo _ hrun h _ hx hb => exact parses_argumentsDo hx hrun h hb
  | argumentsBrace _ hrun h _ hx hb => exact parses_argumentsBrace hx hrun h hb

/-- The tokens of a text are no more than its characters, so that the bound on nesting is
large enough. -/
theorem parse_commands {xs : List (Expr × List Piece)} {ps : List Piece} {text : String}
    (hs : Sequenced xs ps) (hx : ∀ x ∈ xs, Parses (.expr false x.1) x.2)
    (ht : Reads text.toList ps) : ∃ rest, parseProgram text = .ok (xs.map (·.1)) rest := by
  have fuel : ps.length < (Parser.ofString text).fuel := by
    have := ht.length_le
    simp only [Parser.fuel, Parser.ofString, TokenStream.size, TokenStream.ofString,
      List.length_nil]
    omega
  have taken : Takes false (program (Parser.ofString text).fuel) ps (xs.map (·.1)) [] := by
    refine takes_program hs (fun x hxs => (hx x hxs).1) ?_ fuel
    intro x hxs C hC
    have := hs.length_le x hxs
    exact takes_expression (hx x hxs) (by omega) hC
  obtain ⟨rest, e, _⟩ := taken (Parser.ofString text) rfl (TokenStream.yields_of_reads ht 1)
  exact ⟨rest, e⟩

end ObjectLang
