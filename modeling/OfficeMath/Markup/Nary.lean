import OfficeMath.Markup.Objects

/-!
# N-ary operators and their operands

A sum, product or integral takes an operand: the expression after it.  An expression is an n-ary
operator if it is such a glyph, bare or with scripts or limits (`Expr.naryHead?`).
`pairOperands` goes through a list from left to right and gives every operator the next
expression; this one is then used up, even if it is an operator itself.  An operator at the end
gets the empty group.
-/

namespace OfficeMath

/-- Whether a formula stands in running text or on lines of its own. -/
inductive Display where
  | inline
  | block
  deriving DecidableEq, Repr

/-- An n-ary operator apart from its limits. -/
structure NaryHead where
  glyph : String
  location : Markup.LimitLocation
  deriving DecidableEq, Repr

namespace Expr

/-- The glyph of a bare n-ary operator. -/
def naryGlyph? : Expr → Option String
  | .symbol kind glyph => if kind = .operator && naryGlyphs.contains glyph then some glyph else none
  | _ => none

/-- The operator that an expression is, if it is an n-ary one.  Scripts stand to the side, limits
below and above; movable limits go to the side in running text, and so do the limits that a
bare integral could have. -/
def naryHead? (display : Display) : Expr → Option NaryHead
  | .over movable base _ | .under movable base _ | .underOver movable base _ _ =>
    base.naryGlyph?.map fun glyph =>
      ⟨glyph, if movable && display = .inline then .subSup else .underOver⟩
  | .sub base _ | .super base _ | .subSup base _ _ =>
    base.naryGlyph?.map fun glyph => ⟨glyph, .subSup⟩
  | e => e.naryGlyph?.map fun glyph =>
      ⟨glyph, if isIntegral glyph then .subSup else .underOver⟩

end Expr

/-- A member of a formula once the operators have their operands. -/
inductive Member where
  | single (e : Expr)
  | applied (head : NaryHead) (operator operand : Expr)

/-- Give every n-ary operator the expression after it. -/
def pairOperands (display : Display) : List Expr → List Member
  | [] => []
  | [e] =>
    match e.naryHead? display with
    | some head => [.applied head e .empty]
    | none => [.single e]
  | e :: next :: rest =>
    match e.naryHead? display with
    | some head => .applied head e next :: pairOperands display rest
    | none => .single e :: pairOperands display (next :: rest)

end OfficeMath
