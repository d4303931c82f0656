import OfficeMath.Formula.Operators
import OfficeMath.Latex.Grammar

/-!
# Parsing a formula

The whole way from text to expressions: read a sequence up to the end of the text, then settle
the binary operators at the top level.  `read` also gives the notes made on the way, in the order
in which they were made, whether the formula could be read or not.
-/

namespace OfficeMath

/-- What reading a formula gives. -/
structure Parsed where
  formula : Except Unclosed Formula
  /-- What was skipped, in the order of reading. -/
  notes : List Note

/-- Read a formula. -/
def read (text : String) : Parsed :=
  match Reading.alone (·.sequence none) (Scan.start text) with
  | .ok formula finish => ⟨.ok (settleOperators formula), finish.notes.reverse⟩
  | .error unclosed finish => ⟨.error unclosed, finish.notes.reverse⟩

/-- The expressions of a formula. -/
def parse (text : String) : Except Unclosed Formula := (read text).formula

end OfficeMath
