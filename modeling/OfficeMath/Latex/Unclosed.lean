/-!
# Unclosed groups

The one way in which reading a formula fails: it ends inside a group that still needs its closing
character.  The error names that character and the place where it was missed, as a byte offset.
-/

namespace OfficeMath

/-- The character that closes a group. -/
inductive Closer where
  | brace
  | bracket
  deriving DecidableEq, Repr

/-- The closing character. -/
def Closer.char : Closer → Char
  | .brace => '}'
  | .bracket => ']'

/-- The closing character as a text. -/
def Closer.text (closer : Closer) : String := String.ofList [closer.char]

/-- A formula that ends inside a group. -/
structure Unclosed where
  offset : Nat
  closer : Closer
  deriving DecidableEq, Repr

namespace Unclosed

/-- What went wrong. -/
def message (e : Unclosed) : String :=
  "Expected token \"" ++ e.closer.text ++ "\", but reached the end of the input."

/-- What went wrong, and where. -/
def locatedMessage (e : Unclosed) : String := toString e.offset ++ ": " ++ e.message

/-- The headline of a report that shows the formula. -/
def headline (e : Unclosed) : String := "Error: " ++ e.message

/-- The label that such a report puts at the place of the error. -/
def label (e : Unclosed) : String :=
  "expected \"" ++ e.closer.text ++ "\" to close the group before this point"

end Unclosed

end OfficeMath
