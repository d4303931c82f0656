import OfficeMath.Xml.Element
import OfficeMath.Xml.Escape

/-!
# Writing elements

An element is written on a single line or over many.  The number `indent` says which: zero means
a single line; otherwise each piece of content begins a new line, two spaces deeper than the
element around it.  An element without content is one tag, and a text that is all the content of
its element stays between the tags in either form.
-/

namespace OfficeMath.Xml

/-- The beginning of a new line at depth `indent`, counted from one; nothing at depth zero. -/
def newLine : (indent : Nat) → String
  | 0 => ""
  | depth + 1 => "\n" ++ String.ofList (List.replicate (2 * depth) ' ')

/-- The depth of the content of an element at depth `indent`. -/
def deeper : (indent : Nat) → Nat
  | 0 => 0
  | indent + 1 => indent + 2

/-- The attributes of a tag. -/
def attributesText : List Attribute → String
  | [] => ""
  | (name, value) :: rest =>
    " " ++ name.text ++ "=\"" ++ escape value ++ "\"" ++ attributesText rest

mutual

/-- A piece of content at depth `indent`. -/
def Node.render (indent : Nat) : Node → String
  | .text content => escape content
  | .element name attributes children =>
    "<" ++ name.text ++ attributesText attributes ++
      match children with
      | [] => " />"
      | [.text content] => ">" ++ escape content ++ "</" ++ name.text ++ ">"
      | _ =>
        ">" ++ renderLines (deeper indent) children ++ newLine indent ++ "</" ++ name.text ++ ">"

/-- Pieces of content at depth `indent`, each on a line of its own. -/
def renderLines (indent : Nat) : List Node → String
  | [] => ""
  | node :: rest => newLine indent ++ node.render indent ++ renderLines indent rest

end

namespace Element

/-- An element at depth `indent`. -/
def render (indent : Nat) (e : Element) : String := e.node.render indent

/-- An element as a document, on one line or indented. -/
def toXml (pretty : Bool) (e : Element) : String := e.render (if pretty then 1 else 0)

end Element

end OfficeMath.Xml
