/-!
# Escaping

Text inside XML must not contain markup.  The five characters that could be taken for it are
replaced by entities, inside elements and inside attribute values alike; all others stand for
themselves.

* `escapeOnto` appends the escaped text to what has been written already;
* `escapeOnto_eq` says that it only appends, and `escape_append` that texts are escaped piece by
  piece.
-/

namespace OfficeMath.Xml

/-- The way a character is written in XML. -/
def escapeChar (c : Char) : String :=
  if c = '&' then "&amp;"
  else if c = '<' then "&lt;"
  else if c = '>' then "&gt;"
  else if c = '"' then "&quot;"
  else if c = '\x27' then "&#39;"
  else String.ofList [c]

/-- Append a text in its escaped form. -/
def escapeOnto (output text : String) : String :=
  text.toList.foldl (fun written c => written ++ escapeChar c) output

/-- A text in its escaped form. -/
def escape (text : String) : String := escapeOnto "" text

private theorem foldl_escapeChar (text : List Char) (output : String) :
    text.foldl (fun written c => written ++ escapeChar c) output
      = output ++ text.foldl (fun written c => written ++ escapeChar c) "" := by
  induction text generalizing output with
  | nil => simp
  | cons c text ih =>
    rw [List.foldl_cons, ih, List.foldl_cons, ih ("" ++ _)]
    simp [String.append_assoc]

/-- What has been written stays as it is. -/
theorem escapeOnto_eq (output text : String) : escapeOnto output text = output ++ escape text :=
  foldl_escapeChar text.toList output

/-- The empty text has nothing to escape. -/
@[simp] theorem escape_empty : escape "" = "" := rfl

/-- Two texts in a row are escaped one after the other. -/
theorem escape_append (front back : String) :
    escape (front ++ back) = escape front ++ escape back := by
  have whole : escape (front ++ back) = escapeOnto (escape front) back := by
    simp [escape, escapeOnto, String.toList_append, List.foldl_append]
  rw [whole, escapeOnto_eq]

end OfficeMath.Xml
