import OfficeMath.Xml.Name

/-!
# Elements

A markup element has a name, attributes in order and content in order, the content being further
elements and texts.  The operations add to an element at the end, or look for something in it.
-/

namespace OfficeMath.Xml

/-- An attribute: its name and its value. -/
abbrev Attribute := Name × String

/-- A piece of content. -/
inductive Node where
  | element (name : Name) (attributes : List Attribute) (children : List Node)
  | text (text : String)

/-- A markup element. -/
structure Element where
  name : Name
  attributes : List Attribute
  children : List Node

/-- An element as a piece of content. -/
def Element.node (e : Element) : Node := .element e.name e.attributes e.children

/-- The element that a piece of content is, if it is one. -/
def Node.element? : Node → Option Element
  | .element name attributes children => some ⟨name, attributes, children⟩
  | .text _ => none

/-- The text that a piece of content is, if it is one. -/
def Node.text? : Node → Option String
  | .element _ _ _ => none
  | .text content => some content

namespace Element

/-- An element without attributes and content. -/
def ofName (name : Name) : Element := ⟨name, [], []⟩

/-- An empty element of math markup. -/
def math (localName : String) : Element := ofName (.math localName)

/-- Add an attribute. -/
def withAttribute (e : Element) (name : Name) (value : String) : Element :=
  { e with attributes := e.attributes ++ [(name, value)] }

/-- Add an element to the content. -/
def withChild (e child : Element) : Element :=
  { e with children := e.children ++ [child.node] }

/-- Add elements to the content. -/
def withChildren (e : Element) (children : List Element) : Element :=
  { e with children := e.children ++ children.map node }

/-- Add a text to the content. -/
def withText (e : Element) (text : String) : Element :=
  { e with children := e.children ++ [.text text] }

/-- An element of math markup that states the value of a property. -/
def property (localName value : String) : Element :=
  (math localName).withAttribute .val value

/-- The value of a property. -/
def val? (e : Element) : Option String := e.attributes.lookup .val

/-- The elements of the content. -/
def childElements (e : Element) : List Element := e.children.filterMap Node.element?

/-- The first element of the content with this local name. -/
def child? (e : Element) (localName : String) : Option Element :=
  e.childElements.find? (·.name.localName = localName)

/-- The first text of the content. -/
def firstText? (e : Element) : Option String := e.children.findSome? Node.text?

end Element

mutual

/-- The text of a piece of content, that of inner elements included. -/
def Node.textContent : Node → String
  | .element _ _ children => textContentOf children
  | .text content => content

/-- The texts of several pieces of content in a row. -/
def textContentOf : List Node → String
  | [] => ""
  | node :: rest => node.textContent ++ textContentOf rest

end

/-- All text inside an element, in the order of the document. -/
def Element.textContent (e : Element) : String := textContentOf e.children

end OfficeMath.Xml
