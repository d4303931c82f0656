import OfficeMath.Text.Quoted
import OfficeMath.Decimal.Shortest

/-!
# Notes

Reading a formula never stops at something unknown, and writing one never at something that the
markup cannot express.  What is passed over on the way is reported by a note.  Positions are
byte offsets into the formula.

`Note.message` gives the wording and `Note.level` tells the notes of the reader from those of the
writer.
-/

namespace OfficeMath

/-- A remark about something that was skipped or simplified. -/
inductive Note where
  /-- A command that cannot stand at this place, or that is unknown. -/
  | skippedCommand (name : String) (offset : Nat)
  /-- A character that means nothing at this place. -/
  | skippedCharacter (char : Char) (offset : Nat)
  /-- A size command without a delimiter. -/
  | sizeWithoutDelimiter (offset : Nat)
  /-- A command inside plain text. -/
  | ignoredInText (name : String) (offset : Nat)
  /-- A delimiter missing after the command of this name. -/
  | missingDelimiter (command : String) (offset : Nat)
  /-- A delimited region that is closed by something else than its end. -/
  | missingRight (offset : Nat)
  | missingEnvironmentName (offset : Nat)
  | unsupportedEnvironment (name : String)
  /-- An unsupported environment that reaches to the end of the formula. -/
  | openEnvironment (name : String)
  /-- An array that is closed by something else than its end. -/
  | missingEnd (offset : Nat)
  /-- A scaled delimiter, which is written at its natural size. -/
  | naturalSize (factor : Float32)
  deriving DecidableEq

/-- How loudly a note is reported. -/
inductive Level where
  | debug
  | trace
  deriving DecidableEq, Repr

namespace Note

/-- The reader reports for debugging, the writer only for tracing. -/
def level : Note → Level
  | .naturalSize _ => .trace
  | _ => .debug

/-- The place in the formula that a note names, if it names one. -/
def offset? : Note → Option Nat
  | .skippedCommand _ offset => some offset
  | .skippedCharacter _ offset => some offset
  | .sizeWithoutDelimiter offset => some offset
  | .ignoredInText _ offset => some offset
  | .missingDelimiter _ offset => some offset
  | .missingRight offset => some offset
  | .missingEnvironmentName offset => some offset
  | .missingEnd offset => some offset
  | .unsupportedEnvironment _ | .openEnvironment _ | .naturalSize _ => none

/-- The wording of a note. -/
def message : Note → String
  | .skippedCommand name offset =>
    "skipping unexpected \\" ++ name ++ " at byte " ++ toString offset
  | .skippedCharacter char offset =>
    "skipping unexpected " ++ quoted char ++ " at byte " ++ toString offset
  | .sizeWithoutDelimiter offset =>
    "expected a delimiter after the size command at byte " ++ toString offset
  | .ignoredInText name offset =>
    "ignoring \\" ++ name ++ " inside text at byte " ++ toString offset
  | .missingDelimiter command offset =>
    "expected a delimiter after \\" ++ command ++ " at byte " ++ toString offset
  | .missingRight offset => "missing \\right at byte " ++ toString offset
  | .missingEnvironmentName offset =>
    "expected an environment name at byte " ++ toString offset
  | .unsupportedEnvironment name => "skipping unsupported environment " ++ name
  | .openEnvironment name => "environment " ++ name ++ " is not closed"
  | .missingEnd offset => "missing \\end at byte " ++ toString offset
  | .naturalSize factor =>
    "writing delimiter scaled by " ++ Decimal.plain factor ++ " at its natural size"

end Note

end OfficeMath
