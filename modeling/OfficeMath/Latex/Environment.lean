import OfficeMath.Formula.Basic

/-!
# Environments

The environments that lay a formula out in rows and columns.  A known name is looked up in
`environments`; any other name that contains `matrix` or `align` belongs to that family, and all
remaining environments are unsupported (`Environment.ofName?`).

An environment settles how its columns are aligned and which delimiters stand around it.  Only
`array` reads the alignments from a column specification of its own.
-/

namespace OfficeMath

/-- A family of environments. -/
inductive Environment where
  /-- An array with a column specification. -/
  | array
  | matrix
  | parenthesized
  | bracketed
  | braced
  | barred
  | doubleBarred
  | cases
  /-- Columns that are aligned to the right and to the left in turn. -/
  | align
  | gather
  deriving DecidableEq, Repr

/-- The environments that are known by name. -/
def environments : List (String × Environment) := [
  ("array", .array), ("matrix", .matrix), ("smallmatrix", .matrix), ("pmatrix", .parenthesized),
  ("bmatrix", .bracketed), ("Bmatrix", .braced), ("vmatrix", .barred), ("Vmatrix", .doubleBarred),
  ("cases", .cases), ("align", .align), ("align*", .align), ("aligned", .align),
  ("alignat", .align), ("alignat*", .align), ("eqnarray", .align), ("eqnarray*", .align),
  ("gather", .gather), ("gather*", .gather), ("gathered", .gather)]

/-- Whether `word` stands somewhere in `text`. -/
def containsWord (word : List Char) : List Char → Bool
  | [] => word.isEmpty
  | c :: rest => word.isPrefixOf (c :: rest) || containsWord word rest

namespace Environment

/-- The environment of this name. -/
def ofName? (name : String) : Option Environment :=
  match environments.lookup name with
  | some known => some known
  | none =>
    if containsWord "matrix".toList name.toList then some .matrix
    else if containsWord "align".toList name.toList then some .align
    else none

/-- Whether a column specification follows the name. -/
def hasColumnSpecification : Environment → Bool
  | .array => true
  | _ => false

/-- The delimiters around the array. -/
def delimiters? : Environment → Option (String × String)
  | .parenthesized => some ("(", ")")
  | .bracketed => some ("[", "]")
  | .braced => some ("\x7b", "\x7d")
  | .barred => some ("|", "|")
  | .doubleBarred => some ("‖", "‖")
  | .cases => some ("\x7b", "")
  | .array | .matrix | .align | .gather => none

/-- The columns of `align`: every other one, beginning with the first, is set to the right. -/
def alternating : Nat → List Alignment
  | 0 => []
  | 1 => [.right]
  | n + 2 => .right :: .left :: alternating n

/-- The alignments of `columns` columns.  Those of an `array` come from its specification, cut
off or filled up with centred columns. -/
def alignments (e : Environment) (specification : List Alignment) (columns : Nat) :
    List Alignment :=
  match e with
  | .array =>
    specification.take columns ++ List.replicate (columns - specification.length) .center
  | .align => alternating columns
  | .cases => List.replicate columns .left
  | .matrix | .parenthesized | .bracketed | .braced | .barred | .doubleBarred | .gather =>
    List.replicate columns .center

end Environment

/-- The alignment that a letter of a column specification asks for. -/
def Alignment.ofChar? : Char → Option Alignment
  | 'l' => some .left
  | 'c' => some .center
  | 'r' => some .right
  | _ => none

/-- The alignments of a column specification, whose other characters mean nothing. -/
def columnAlignments (specification : List Char) : List Alignment :=
  specification.filterMap Alignment.ofChar?

namespace Environment

/-- Alternating alignments cover all columns. -/
theorem length_alternating (columns : Nat) : (alternating columns).length = columns := by
  induction columns using alternating.induct with
  | case1 => rfl
  | case2 => rfl
  | case3 n ih => simp [alternating, ih]

/-- Every environment aligns exactly the columns that it has. -/
@[simp] theorem length_alignments (e : Environment) (specification : List Alignment)
    (columns : Nat) : (e.alignments specification columns).length = columns := by
  cases e <;> simp [alignments, length_alternating]
  omega

end Environment

end OfficeMath
