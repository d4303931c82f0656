import OfficeMath.Formula.Basic
import OfficeMath.Latex.Note

/-!
# Sizes that are lost

The markup has no delimiters of a given size.  A scaled delimiter is written at its natural size,
and a note says by which factor it should have been scaled.  Every expression is written once, in
the order of reading, so the notes of a formula follow from its factors in that order.
-/

namespace OfficeMath

mutual

/-- The factors of the scaled delimiters in an expression, from left to right. -/
def Expr.factors : Expr → List Float32
  | .number _ | .identifier _ | .symbol _ _ | .text _ _ | .space _ | .operatorName _ => []
  | .group members | .styled _ members => factorsOf members
  | .sqrt e | .phantom e | .boxed e | .cancel _ e => e.factors
  | .scaled factor e => factor :: e.factors
  | .root first second | .sub first second | .super first second | .fraction _ first second
  | .over _ first second | .under _ first second => first.factors ++ second.factors
  | .subSup first second third | .underOver _ first second third =>
    first.factors ++ second.factors ++ third.factors
  | .delimited _ _ content => factorsOfItems content
  | .array _ rows => factorsOfRows rows

/-- The factors in a list of expressions. -/
def factorsOf : List Expr → List Float32
  | [] => []
  | e :: rest => e.factors ++ factorsOf rest

/-- The factors in a delimited region. -/
def factorsOfItems : List Item → List Float32
  | [] => []
  | .separator _ :: rest => factorsOfItems rest
  | .expr e :: rest => e.factors ++ factorsOfItems rest

/-- The factors in the rows of an array. -/
def factorsOfRows : List (List (List Expr)) → List Float32
  | [] => []
  | row :: rest => factorsOfCells row ++ factorsOfRows rest

/-- The factors in the cells of a row. -/
def factorsOfCells : List (List Expr) → List Float32
  | [] => []
  | cell :: rest => factorsOf cell ++ factorsOfCells rest

end

/-- The notes that writing a formula makes. -/
def writingNotes (formula : Formula) : List Note := (factorsOf formula).map .naturalSize

end OfficeMath
