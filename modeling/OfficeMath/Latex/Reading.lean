import OfficeMath.Latex.Lexeme
import OfficeMath.Latex.Note
import OfficeMath.Latex.Unclosed

/-!
# Reading from left to right

A formula is read as a list of characters from which pieces are taken at the front.  A `Scan` is
what has to be remembered between two pieces: the rest of the formula, the byte offset at which
it begins, and the notes made so far.  A `Reading` is a step that may take characters, make
notes and fail on an unclosed group.

Characters are only ever taken by `Scan.advance`, which moves the offset by exactly the bytes of
the characters taken.  Nothing is ever put back: whoever has to look ahead looks at the rest
(`Reading.rest`) and takes nothing.

* `Scan.advance_add` — taking characters in two portions is taking them at once;
* `Scan.size_advance` — the offset and the bytes of the rest always add up to the same number,
  which is the size of the formula (`Scan.size_start`).
-/

namespace OfficeMath

/-- The number of bytes of a text in UTF-8. -/
def utf8Length : List Char → Nat
  | [] => 0
  | c :: rest => c.utf8Size + utf8Length rest

/-- How far a formula has been read. -/
structure Scan where
  /-- The byte offset of the rest. -/
  offset : Nat
  /-- The characters not yet taken. -/
  rest : List Char
  /-- The notes made so far, the latest first. -/
  notes : List Note

namespace Scan

/-- The scan at the start of a formula. -/
def start (formula : String) : Scan := ⟨0, formula.toList, []⟩

/-- Take characters at the front of the rest. -/
def advance (s : Scan) (count : Nat) : Scan :=
  { s with offset := s.offset + utf8Length (s.rest.take count), rest := s.rest.drop count }

/-- The byte length of the whole formula. -/
def size (s : Scan) : Nat := s.offset + utf8Length s.rest

end Scan

/-- A step in reading a formula. -/
abbrev Reading := EStateM Unclosed Scan

namespace Reading

/-- The characters ahead. -/
def rest : Reading (List Char) := return (← get).rest

/-- The byte offset of the characters ahead. -/
def offset : Reading Nat := return (← get).offset

/-- Take characters. -/
def advance (count : Nat) : Reading Unit := modify (·.advance count)

/-- Make a note. -/
def note (n : Note) : Reading Unit := modify fun s => { s with notes := n :: s.notes }

/-- Fail because a closing character is missing here. -/
def unclosed {α : Type} (closer : Closer) : Reading α := do
  throw ⟨← offset, closer⟩

/-- Take the layout ahead. -/
def skipLayout : Reading Unit := do
  advance (layoutLength (← rest))

/-- Take a run of apostrophes and count them. -/
def primes : Reading Nat := do
  let count := primeCount (← rest)
  advance count
  return count

/-- Take everything up to the next `mark`, which is taken too, and return what stands before it.
Without such a mark the whole rest is taken. -/
def through? (mark : Char) : Reading (Option (List Char)) := do
  match before? mark (← rest) with
  | some taken =>
    advance (taken.length + 1)
    return some taken
  | none =>
    advance (← rest).length
    return none

end Reading

/-- The bytes of two texts add up. -/
@[simp] theorem utf8Length_append (front back : List Char) :
    utf8Length (front ++ back) = utf8Length front + utf8Length back := by
  induction front with
  | nil => simp [utf8Length]
  | cons c front ih => simp [utf8Length, ih, Nat.add_assoc]

/-- The bytes of a text are the bytes of its characters. -/
theorem utf8Length_toList (text : String) : utf8Length text.toList = text.utf8ByteSize := by
  have ofList (chars : List Char) : utf8Length chars = (String.ofList chars).utf8ByteSize := by
    induction chars with
    | nil => rfl
    | cons c chars ih =>
      have split : String.ofList (c :: chars) = String.singleton c ++ String.ofList chars := by
        simp
      rw [utf8Length, ih, split, String.utf8ByteSize_append, String.utf8ByteSize_singleton]
  rw [ofList, String.ofList_toList]

namespace Scan

/-- At the start of a formula all of its bytes are ahead. -/
theorem size_start (formula : String) : (start formula).size = formula.utf8ByteSize := by
  simp [size, start, utf8Length_toList]

/-- Taking nothing changes nothing. -/
@[simp] theorem advance_zero (s : Scan) : s.advance 0 = s := by
  simp [advance, utf8Length]

/-- Taking characters in two portions is taking them at once. -/
theorem advance_add (s : Scan) (first second : Nat) :
    (s.advance first).advance second = s.advance (first + second) := by
  simp [advance, List.take_add, Nat.add_assoc]

/-- The offset and the bytes of the rest add up to the size of the formula, however much of it
has been taken. -/
@[simp] theorem size_advance (s : Scan) (count : Nat) : (s.advance count).size = s.size := by
  have split := utf8Length_append (s.rest.take count) (s.rest.drop count)
  rw [List.take_append_drop] at split
  simp only [size, advance]
  omega

end Scan

end OfficeMath
