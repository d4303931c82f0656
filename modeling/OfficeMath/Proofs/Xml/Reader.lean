import OfficeMath.Text.Blank
import OfficeMath.Xml.Element

/-!
# Reading XML back

A reader for the XML that elements are written as, indented or not.  It goes through a text
character by character.  What it remembers is a `Reader.State`: the tags that are open, the
content read so far inside the innermost of them, and what the present character is a part of.
`Reader.step` takes one character, and a text is read by one step after the other.

The five entities stand for their characters.  Blank text between elements is layout and is
dropped; blank text that is all the content of its element is kept.  `<n />` has no content at
all, while the content of `<n></n>` is the empty text.
-/

namespace OfficeMath.Xml

/-- Whether a character may stand in a prefix or a local name. -/
def isNameChar (c : Char) : Bool :=
  !isBlank c && !(['<', '>', '&', '"', '\x27', '/', '=', ':'].contains c)

/-- A text with its entities resolved.  An ampersand that begins none of the five stands for
itself. -/
def unescape : List Char → List Char
  | '&' :: 'a' :: 'm' :: 'p' :: ';' :: rest => '&' :: unescape rest
  | '&' :: 'l' :: 't' :: ';' :: rest => '<' :: unescape rest
  | '&' :: 'g' :: 't' :: ';' :: rest => '>' :: unescape rest
  | '&' :: 'q' :: 'u' :: 'o' :: 't' :: ';' :: rest => '"' :: unescape rest
  | '&' :: '#' :: '3' :: '9' :: ';' :: rest => '\x27' :: unescape rest
  | c :: rest => c :: unescape rest
  | [] => []

/-- A qualified name.  Its prefix stands before the first colon. -/
def Name.ofChars (chars : List Char) : Name :=
  match chars.dropWhile (· ≠ ':') with
  | [] => ⟨none, String.ofList chars⟩
  | _ :: localName => ⟨some (String.ofList (chars.takeWhile (· ≠ ':'))), String.ofList localName⟩

namespace Reader

/-- A tag that is open. -/
structure Frame where
  name : Name
  attributes : List Attribute
  /-- The content of the element around it, up to this tag. -/
  before : List Node

/-- What the present character is a part of. -/
inductive Mode where
  /-- Character data. -/
  | data (read : List Char)
  /-- A tag of which nothing has been read yet. -/
  | tag
  | name (read : List Char)
  /-- What stands between the attributes of a tag. -/
  | attributes (name : Name) (attributes : List Attribute)
  | key (name : Name) (attributes : List Attribute) (read : List Char)
  /-- What stands between the name of an attribute and its value. -/
  | equals (name : Name) (attributes : List Attribute) (key : Name)
  | value (name : Name) (attributes : List Attribute) (key : Name) (read : List Char)
  /-- The end of a tag without content. -/
  | slash (name : Name) (attributes : List Attribute)
  | closing (read : List Char)

/-- How far a text has been read. -/
structure State where
  mode : Mode
  /-- The content read so far inside the innermost open tag. -/
  content : List Node
  /-- The open tags, the innermost first. -/
  opened : List Frame

/-- Character data as content.  Between two tags that touch there is none. -/
def dataNodes (read : List Char) : List Node :=
  if read.isEmpty then [] else [.text (String.ofList (unescape read))]

/-- Whether a piece of content is an element. -/
def isElement : Node → Bool
  | .element _ _ _ => true
  | .text _ => false

/-- Whether a piece of content is blank text. -/
def isLayout : Node → Bool
  | .element _ _ _ => false
  | .text content => content.toList.all isBlank

/-- The content between an opening tag and its closing tag.  Blank text counts as layout only
beside an element. -/
def settle (content : List Node) : List Node :=
  if content.any isElement then content.filter (!isLayout ·)
  else if content.isEmpty then [.text ""]
  else content

namespace State

/-- An opening tag has ended. -/
def enter (s : State) (name : Name) (attributes : List Attribute) : State :=
  ⟨.data [], [], ⟨name, attributes, s.content⟩ :: s.opened⟩

/-- A tag without content has ended. -/
def add (s : State) (name : Name) (attributes : List Attribute) : State :=
  { s with mode := .data [], content := s.content ++ [.element name attributes []] }

/-- A closing tag has ended.  It has to fit the innermost open tag. -/
def leave? (s : State) (name : Name) : Option State :=
  match s.opened with
  | [] => none
  | frame :: outer =>
    if name = frame.name then
      let node := Node.element name frame.attributes (settle s.content)
      some ⟨.data [], frame.before ++ [node], outer⟩
    else none

end State

/-- Take one character. -/
def step (s : State) (c : Char) : Option State :=
  match s.mode with
  | .data read =>
    if c = '<' then some { s with mode := .tag, content := s.content ++ dataNodes read }
    else some { s with mode := .data (read ++ [c]) }
  | .tag =>
    if c = '/' then some { s with mode := .closing [] }
    else if isNameChar c then some { s with mode := .name [c] }
    else none
  | .name read =>
    if c = '>' then some (s.enter (.ofChars read) [])
    else if c = '/' then some { s with mode := .slash (.ofChars read) [] }
    else if isBlank c then some { s with mode := .attributes (.ofChars read) [] }
    else if c = ':' || isNameChar c then some { s with mode := .name (read ++ [c]) }
    else none
  | .attributes name attributes =>
    if c = '>' then some (s.enter name attributes)
    else if c = '/' then some { s with mode := .slash name attributes }
    else if isBlank c then some s
    else if isNameChar c then some { s with mode := .key name attributes [c] }
    else none
  | .key name attributes read =>
    if c = '=' then some { s with mode := .equals name attributes (.ofChars read) }
    else if c = ':' || isNameChar c then some { s with mode := .key name attributes (read ++ [c]) }
    else none
  | .equals name attributes key =>
    if c = '"' then some { s with mode := .value name attributes key [] } else none
  | .value name attributes key read =>
    if c = '"' then
      let value := String.ofList (unescape read)
      some { s with mode := .attributes name (attributes ++ [(key, value)]) }
    else if c = '<' then none
    else some { s with mode := .value name attributes key (read ++ [c]) }
  | .slash name attributes => if c = '>' then some (s.add name attributes) else none
  | .closing read =>
    if c = '>' then s.leave? (.ofChars read) else some { s with mode := .closing (read ++ [c]) }

/-- Take the characters of a text one after the other. -/
def run (s : State) (text : List Char) : Option State := text.foldlM step s

end Reader

/-- The element that a text is the XML of.  Layout may stand around it. -/
def decode (text : String) : Option Element := do
  let finish ← Reader.run ⟨.data [], [], []⟩ text.toList
  match finish.mode, finish.opened with
  | .data read, [] =>
    match (finish.content ++ Reader.dataNodes read).filter (!Reader.isLayout ·) with
    | [.element name attributes children] => some ⟨name, attributes, children⟩
    | _ => none
  | _, _ => none

end OfficeMath.Xml
