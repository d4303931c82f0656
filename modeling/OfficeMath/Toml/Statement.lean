import OfficeMath.Toml.Quoted
import OfficeMath.Toml.Scalar
import OfficeMath.Toml.Table

/-!
# Statements of TOML documents

A document is a list of lines, most of which hold a statement: a key with its value, the header
of a table, or the header of an element of an array of tables.  Arrays and inline tables may run
over several lines, with blanks, line ends and comments between any two of their parts.

Each function takes one construct from the front of a text and returns what it stands for
together with what follows it, or nothing if the construct is malformed.  Where constructs nest or
repeat, a bound limits how often; no well-formed construct takes more rounds than it has
characters, so that the length of the text is bound enough.  How deep keys and values may be is
another matter: that is part of the format (`nestingLimit`).
-/

namespace OfficeMath.Toml

/-- A statement of a document. -/
inductive Statement where
  | entry (key : List String) (value : Value)
  | table (path : List String)
  | element (path : List String)

/-- What follows the blanks at the start of a text. -/
def afterSpaces (text : List Char) : List Char := text.dropWhile fun c => c = ' ' || c = '\t'

/-- What follows the blanks, line ends and comments at the start of a text that begins inside a
comment, or outside of one. -/
def afterLayout? : (inComment : Bool) → List Char → Option (List Char)
  | _, [] => some []
  | _, '\n' :: rest => afterLayout? false rest
  | _, '\r' :: '\n' :: rest => afterLayout? false rest
  | true, c :: rest => if isPrintable c then afterLayout? true rest else none
  | false, ' ' :: rest => afterLayout? false rest
  | false, '\t' :: rest => afterLayout? false rest
  | false, '#' :: rest => afterLayout? true rest
  | false, c :: rest => some (c :: rest)

/-- Whether a character can stand in a key without quotes. -/
def isKeyChar (c : Char) : Bool := c.isAlphanum || c = '_' || c = '-'

/-- One part of a key. -/
def keyPart? (text : List Char) : Option (String × List Char) :=
  match text with
  | '"' :: rest => line? '"' rest
  | '\x27' :: rest => line? '\x27' rest
  | _ =>
    let word := text.takeWhile isKeyChar
    if word.isEmpty then none else some (String.ofList word, text.dropWhile isKeyChar)

/-- How many parts a key may have, and how many arrays and inline tables may be nested in a
value. -/
def nestingLimit : Nat := 80

/-- A plain or dotted key of at most `limit` parts, with the blanks around its parts. -/
def keyFrom? : (limit : Nat) → List Char → Option (List String × List Char)
  | 0, _ => none
  | limit + 1, text => do
    let (part, rest) ← keyPart? (afterSpaces text)
    match afterSpaces rest with
    | '.' :: rest =>
      let (parts, rest) ← keyFrom? limit rest
      return (part :: parts, rest)
    | rest => return ([part], rest)

/-- A plain or dotted key. -/
def key? (text : List Char) : Option (List String × List Char) := keyFrom? nestingLimit text

mutual

/-- A value, inside of which at most `depth` arrays and inline tables are nested. -/
def valueFrom? : (bound depth : Nat) → List Char → Option (Value × List Char)
  | 0, _, _ => none
  | bound + 1, depth, text =>
    match text with
    | '"' :: rest => (string? '"' rest).map fun (content, rest) => (.string content, rest)
    | '\x27' :: rest => (string? '\x27' rest).map fun (content, rest) => (.string content, rest)
    | '[' :: rest =>
      match depth with
      | 0 => none
      | depth + 1 =>
        (elementsFrom? bound depth rest).map fun (values, rest) => (.array values, rest)
    | '{' :: rest =>
      match depth with
      | 0 => none
      | depth + 1 => do
        let (fields, rest) ← fieldsFrom? bound depth rest
        return (← inlineTable? fields, rest)
    | _ =>
      let (word, rest) := takeWord text
      (scalar? word).map (·, rest)

/-- The elements of an array up to its closing bracket. -/
def elementsFrom? : (bound depth : Nat) → List Char → Option (List Value × List Char)
  | 0, _, _ => none
  | bound + 1, depth, text => do
    match ← afterLayout? false text with
    | ']' :: rest => return ([], rest)
    | text =>
      let (value, rest) ← valueFrom? bound depth text
      match ← afterLayout? false rest with
      | ']' :: rest => return ([value], rest)
      | ',' :: rest =>
        let (values, rest) ← elementsFrom? bound depth rest
        return (value :: values, rest)
      | _ => none

/-- The fields of an inline table up to its closing brace.  Only the parts of a key have to stand
on one line. -/
def fieldsFrom? : (bound depth : Nat) → List Char →
    Option (List (List String × Value) × List Char)
  | 0, _, _ => none
  | bound + 1, depth, text => do
    match ← afterLayout? false text with
    | '}' :: rest => return ([], rest)
    | text =>
      let (key, rest) ← key? text
      let '=' :: rest ← afterLayout? false rest | none
      let (value, rest) ← valueFrom? bound depth (← afterLayout? false rest)
      match ← afterLayout? false rest with
      | '}' :: rest => return ([(key, value)], rest)
      | ',' :: rest =>
        let (fields, rest) ← fieldsFrom? bound depth rest
        return ((key, value) :: fields, rest)
      | _ => none

end

/-- A value. -/
def value? (text : List Char) : Option (Value × List Char) :=
  valueFrom? (text.length + 1) nestingLimit text

/-- A statement. -/
def statement? (text : List Char) : Option (Statement × List Char) :=
  match text with
  | '[' :: '[' :: rest => do
    let (path, rest) ← key? rest
    match rest with
    | ']' :: ']' :: rest => return (.element path, rest)
    | _ => none
  | '[' :: rest => do
    let (path, rest) ← key? rest
    match rest with
    | ']' :: rest => return (.table path, rest)
    | _ => none
  | _ => do
    let (key, rest) ← key? text
    let '=' :: rest := rest | none
    let (value, rest) ← value? (afterSpaces rest)
    return (.entry key value, rest)

/-- Whether a line can end here: there is nothing but a comment before the line end. -/
def endsLine (text : List Char) : Bool :=
  match afterSpaces text with
  | [] => true
  | '#' :: _ => true
  | rest => (afterLineEnd? rest).isSome

/-- The statements of a document, each on a line of its own. -/
def statementsFrom? : (bound : Nat) → List Char → Option (List Statement)
  | 0, _ => none
  | bound + 1, text => do
    match ← afterLayout? false text with
    | [] => return []
    | text =>
      let (statement, rest) ← statement? text
      if endsLine rest then
        let statements ← statementsFrom? bound rest
        return statement :: statements
      else none

/-- The statements of a document.  A byte-order mark at its start does not count. -/
def statements? (document : String) : Option (List Statement) :=
  let text := match document.toList with
    | '\ufeff' :: rest => rest
    | text => text
  statementsFrom? (text.length + 1) text

end OfficeMath.Toml
