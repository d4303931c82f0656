import OfficeMath.Converter
import OfficeMath.Toml.Document

/-!
# Settings files

The settings of the converter as a TOML document.  Two keys are known, `pretty-print` and
`xml-namespace`; a key that is missing leaves its setting at the default, and a key that is
unknown is passed over.

`Settings.ofFile` reads the bytes of a file and tells a file that is no text from a text that
holds no settings.
-/

namespace OfficeMath

/-- Why a settings file cannot be used. -/
inductive SettingsError where
  /-- The file could not be read as text. -/
  | unreadable
  /-- The text is no TOML document, or a known key has a wrong value. -/
  | malformed
  deriving DecidableEq, Repr

/-- The name of a setting in a file. -/
def PrettyPrint.name : PrettyPrint → String
  | .never => "never"
  | .always => "always"
  | .auto => "auto"

/-- The setting of this name. -/
def PrettyPrint.ofName? (name : String) : Option PrettyPrint :=
  [PrettyPrint.never, .always, .auto].find? (·.name = name)

/-- The setting that a value stands for: its name as a string, or a table with an empty table
under its name. -/
def PrettyPrint.ofValue? : Toml.Value → Option PrettyPrint
  | .string name => ofName? name
  | .table [(name, .table [])] => ofName? name
  | _ => none

/-- The truth value that a value is, if it is one. -/
def Toml.Value.boolean? : Toml.Value → Option Bool
  | .boolean value => some value
  | _ => none

namespace Settings

/-- The settings of a document. -/
def ofEntries? (entries : Toml.Entries) : Option Settings := do
  let prettyPrint ← match entries.lookup "pretty-print" with
    | none => some ({} : Settings).prettyPrint
    | some value => PrettyPrint.ofValue? value
  let xmlNamespace ← match entries.lookup "xml-namespace" with
    | none => some ({} : Settings).xmlNamespace
    | some value => value.boolean?
  return { prettyPrint, xmlNamespace }

/-- The settings of a text. -/
def ofText (text : String) : Except SettingsError Settings :=
  match (Toml.parse? text).bind ofEntries? with
  | some settings => .ok settings
  | none => .error .malformed

/-- The settings of a file, given its bytes. -/
def ofFile (bytes : ByteArray) : Except SettingsError Settings :=
  match String.fromUTF8? bytes with
  | some text => ofText text
  | none => .error .unreadable

end Settings

end OfficeMath
