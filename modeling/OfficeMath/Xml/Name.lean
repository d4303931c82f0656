/-!
# Qualified names

The names of elements and attributes: a local name, perhaps behind the prefix of a namespace.
The names of math markup all stand behind the same prefix.
-/

namespace OfficeMath.Xml

/-- A qualified name such as `m:oMath`. -/
structure Name where
  /-- The prefix of the namespace. -/
  space : Option String
  localName : String
  deriving DecidableEq, Repr

/-- The prefix of math markup. -/
def mathPrefix : String := "m"

/-- The namespace that the prefix of math markup stands for. -/
def mathNamespace : String := "http://schemas.openxmlformats.org/officeDocument/2006/math"

namespace Name

/-- A name of math markup. -/
def math (localName : String) : Name := ⟨some mathPrefix, localName⟩

/-- The attribute that carries the value of a property. -/
def val : Name := math "val"

/-- The attribute that declares the prefix of math markup. -/
def mathDeclaration : Name := ⟨some "xmlns", mathPrefix⟩

/-- A name as it is written. -/
def text (name : Name) : String :=
  match name.space with
  | some space => space ++ ":" ++ name.localName
  | none => name.localName

end Name

end OfficeMath.Xml
