import OfficeMath.Latex.Parse

/-!
# Walking over the bytes of a formula

A `Scan` holds the rest of a formula as a list of characters, so that there is nothing that it
could point to wrongly.  A formula that is stored as UTF-8 can be read without such a list: it is
enough to remember the byte at which to go on.  A `Cursor` does this, and a `Walk` is a step of
reading with it.

A walk sees the formula in slices from one byte up to another one (`Walk.slice`).  It moves by
numbers of bytes, counted in runs of ASCII bytes, found by a search for a byte, or taken from the
size of a character; and it goes back to a byte at which it has been.  A slice that is cut in the
middle of a character, or beyond the end, is empty instead of an error, and so a wrong step would
show in nothing but a formula of which something is missing.

To speak of such steps a cursor keeps a record of all bytes at which it has stood and of all slices
that it has taken.  Nothing is decided by the record.
-/

namespace OfficeMath

/-- The bytes of a text in UTF-8. -/
def bytes (text : List Char) : List UInt8 := text.flatMap String.utf8EncodeChar

/-- Whether a byte is an ASCII letter. -/
def isLetterByte (b : UInt8) : Bool := (65 ≤ b && b ≤ 90) || (97 ≤ b && b ≤ 122)

/-- Whether a byte is an ASCII digit. -/
def isDigitByte (b : UInt8) : Bool := 48 ≤ b && b ≤ 57

/-- The number of bytes of a run at the start of a text. -/
def runLength (p : UInt8 → Bool) (text : List Char) : Nat := ((bytes text).takeWhile p).length

/-- The characters of a text from one byte up to another one.  There is no such slice if the bytes
are in the wrong order, or if one of them is beyond the end or inside of a character. -/
def slice? (text : String) (first last : Nat) : Option (List Char) :=
  if first ≤ last ∧ String.Pos.Raw.isValid text ⟨first⟩ ∧ String.Pos.Raw.isValid text ⟨last⟩ then
    some (String.Pos.Raw.extract text ⟨first⟩ ⟨last⟩).toList
  else none

/-- Where a formula is being read. -/
structure Cursor where
  text : String
  /-- The byte at which to go on. -/
  place : Nat
  /-- The notes made so far, the latest first. -/
  notes : List Note
  /-- The bytes at which the cursor has stood, the latest first. -/
  visited : List Nat
  /-- The slices that have been taken, the latest first. -/
  slices : List (Nat × Nat)

/-- The cursor at the start of a formula. -/
def Cursor.start (formula : String) : Cursor := ⟨formula, 0, [], [0], []⟩

/-- A step in reading a formula with a cursor. -/
abbrev Walk := EStateM Unclosed Cursor

namespace Walk

/-! ## Elementary steps -/

/-- The byte at which the cursor stands. -/
def place : Walk Nat := return (← get).place

/-- The number of bytes of the formula. -/
def size : Walk Nat := return (← get).text.utf8ByteSize

/-- Go to a byte of the formula. -/
def goTo (place : Nat) : Walk Unit :=
  modify fun c => { c with place, visited := place :: c.visited }

/-- Go forward by a number of bytes. -/
def goBy (count : Nat) : Walk Unit := do
  goTo ((← place) + count)

/-- A slice of the formula, empty if there is none. -/
def slice (first last : Nat) : Walk (List Char) :=
  modifyGet fun c =>
    ((slice? c.text first last).getD [], { c with slices := (first, last) :: c.slices })

/-- The characters ahead. -/
def rest : Walk (List Char) := do
  slice (← place) (← size)

/-- Make a note. -/
def note (n : Note) : Walk Unit := modify fun c => { c with notes := n :: c.notes }

/-- Fail because a closing character is missing here. -/
def unclosed {α : Type} (closer : Closer) : Walk α := do
  throw ⟨← place, closer⟩

/-! ## Characters -/

/-- The next character. -/
def peek : Walk (Option Char) := return (← rest).head?

/-- Take the next character, if there is one. -/
def readChar : Walk (Option Char) := do
  match ← peek with
  | none => return none
  | some c =>
    goBy c.utf8Size
    return some c

/-- Take a character if it is the next one. -/
def eat (c : Char) : Walk Bool := do
  if (← peek) = some c then
    goBy c.utf8Size
    return true
  else return false

/-! ## Pieces -/

/-- Take layout in at most `bound` portions, each of which is a blank or a comment up to the end of
its line. -/
def skipLayoutFrom : (bound : Nat) → Walk Unit
  | 0 => return ()
  | bound + 1 => do
    match ← peek with
    | none => return ()
    | some c =>
      if isBlank c then
        goBy c.utf8Size
        skipLayoutFrom bound
      else if c = '%' then
        let ahead := bytes (← rest)
        goBy ((ahead.idxOf? 10).getD ahead.length)
        skipLayoutFrom bound
      else return ()

/-- Take the layout ahead. -/
def skipLayout : Walk Unit := do
  skipLayoutFrom (← rest).length

/-- Take the name of a command, after its backslash. -/
def commandName : Walk (List Char) := do
  let start ← place
  let letters := runLength isLetterByte (← rest)
  if letters = 0 then
    let _ ← readChar
    slice start (← place)
  else
    goBy letters
    star start
    slice start (← place)
where
  /-- Take a star that belongs to the name, which began at the byte `start`. -/
  star (start : Nat) : Walk Unit := do
    if (← peek) = some '*' then
      let starred ← slice start ((← place) + 1)
      if (command? (String.ofList starred)).isSome then goBy 1

/-- Take a backslash and the name after it, if there is a backslash. -/
def takeCommand? : Walk (Option (List Char)) := do
  if ← eat '\\' then return some (← commandName)
  else return none

/-- The name of the command ahead, if there is one.  The cursor goes back to where it was. -/
def peekCommand : Walk (Option (List Char)) := do
  let start ← place
  let name ← takeCommand?
  goTo start
  return name

/-- Take a run of digits. -/
def digits : Walk (List Char) := do
  let start ← place
  goBy (runLength isDigitByte (← rest))
  slice start (← place)

/-- Take a run of apostrophes and count them. -/
def primes : Walk Nat := do
  let count := runLength (· = 39) (← rest)
  goBy count
  return count

/-- Take everything up to the next `mark`, which is taken too, and return what stands before it.
Without such a mark the whole rest is taken. -/
def through? (mark : Char) : Walk (Option (List Char)) := do
  match before? mark (← rest) with
  | some taken =>
    let start ← place
    let found ← slice start (start + utf8Length taken)
    goBy (utf8Length taken + mark.utf8Size)
    return some found
  | none =>
    goTo (← size)
    return none

end Walk

end OfficeMath
