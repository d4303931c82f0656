import OfficeMath.Latex.Parse
import OfficeMath.Markup.Sizes
import OfficeMath.Markup.Writing
import OfficeMath.Xml.Layout

/-!
# Converting formulas

From the text of a formula to math markup.  The settings say how the markup is laid out and
whether it declares its namespace, so that it can stand alone as a document.

* `Settings.element` gives the element of a formula, `Settings.convert` its text;
* `Settings.log` gives the element together with all notes, of the reader and of the writer.
-/

namespace OfficeMath

open Xml (Element)

/-- When markup is indented. -/
inductive PrettyPrint where
  | never
  | always
  /-- For displayed formulas only. -/
  | auto
  deriving DecidableEq, Repr

/-- Whether markup is indented in a display. -/
def PrettyPrint.appliesTo : PrettyPrint → Display → Bool
  | .never, _ => false
  | .always, _ => true
  | .auto, display => display = .block

/-- How formulas are converted. -/
structure Settings where
  prettyPrint : PrettyPrint := .always
  /-- Whether the outermost element declares the prefix of its namespace. -/
  xmlNamespace : Bool := false
  deriving DecidableEq, Repr

/-- What converting a formula gives, and what was noted on the way. -/
structure Logged where
  element : Except Unclosed Element
  notes : List Note

namespace Settings

/-- The element of a formula that has been read. -/
def elementOf (settings : Settings) (display : Display) (formula : Formula) : Element :=
  let root := writeFormula display formula
  if settings.xmlNamespace then root.withAttribute .mathDeclaration Xml.mathNamespace else root

/-- Convert a formula to an element. -/
def element (settings : Settings) (text : String) (display : Display) :
    Except Unclosed Element :=
  (parse text).map (settings.elementOf display)

/-- Convert a formula to the text of its markup. -/
def convert (settings : Settings) (text : String) (display : Display) :
    Except Unclosed String :=
  (settings.element text display).map (Element.toXml (settings.prettyPrint.appliesTo display))

/-- Convert a formula to an element and report what was skipped or simplified: first by the
reader, then, if the formula could be read, by the writer. -/
def log (settings : Settings) (text : String) (display : Display) : Logged :=
  let parsed := read text
  match parsed.formula with
  | .error unclosed => ⟨.error unclosed, parsed.notes⟩
  | .ok formula =>
    ⟨.ok (settings.elementOf display formula), parsed.notes ++ writingNotes formula⟩

end Settings

end OfficeMath
