import Mathlib
import ObjectLang.Proofs.Eval.Monotone
import ObjectLang.Proofs.Execute
import ObjectLang.Proofs.ParseAppend

/-!
# Running piece by piece

A text that ends with the end of a line can be run by itself: a longer text runs what follows on
the machine that the first run leaves, unless that run ends with a fault. Only in the longer text
the value of the first part stays in use until the next command is done, and so does what it alone
holds.
-/

namespace ObjectLang

open Eval Store

section
variable {s t : String} {p q : List Expr} {rest rest' : Parser}

theorem execute_pieces (h : EndsLine s.toList) (hs : parseProgram s = .ok p rest)
    (ht : parseProgram t = .ok q rest') (m : Machine) :
    m.execute (s ++ t) = (m.execute s).andThen fun v m' =>
      m'.perform (commandsFrom performer Machine.root v q) := by
  obtain ⟨rest'', hst⟩ := parse_pieces h hs ht
  rw [execute_of_parse hst, execute_of_parse hs, evalProgram_append, perform_bind]

end

end ObjectLang
