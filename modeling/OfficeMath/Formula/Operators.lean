import OfficeMath.Formula.Basic

/-!
# Binary operators in context

A sign such as `−` is a binary operator only between two operands.  At the start of a formula,
or after an operator, a relation, an opening symbol or punctuation, it is an ordinary symbol (a
sign of the number that follows); so it is right before a relation, a closing symbol or
punctuation, where the second operand is missing.  `settleOperators` goes over a formula from
left to right and settles the class of every binary operator.  Each symbol is judged by the
class that its left neighbour has been given, so in a run of operators the classes alternate.

Only the members of the list itself are looked at; what stands inside a group is on its own.
-/

namespace OfficeMath

/-- The same symbol in the ordinary class; any other expression as it is. -/
def Expr.toOrdinary : Expr → Expr
  | .symbol _ glyph => .symbol .ordinary glyph
  | e => e

/-- Whether a binary operator loses its class right after a symbol of this class. -/
def SymbolClass.refusesOperatorAfter : SymbolClass → Bool
  | .binary | .operator | .relation | .opening | .punctuation => true
  | _ => false

/-- Whether a binary operator loses its class right before a symbol of this class. -/
def SymbolClass.refusesOperatorBefore : SymbolClass → Bool
  | .relation | .closing | .punctuation => true
  | _ => false

/-- Whether a binary operator keeps its class between two neighbours: there is a member before it,
and neither this one nor the member after it is a symbol of a refusing class. -/
def admitsOperator (previous next : Option Expr) : Bool :=
  match previous with
  | none => false
  | some previous =>
    !previous.symbolClass?.any SymbolClass.refusesOperatorAfter &&
      !(next.bind Expr.symbolClass?).any SymbolClass.refusesOperatorBefore

/-- A member of a formula as its neighbours leave it. -/
def Expr.settle (previous next : Option Expr) (e : Expr) : Expr :=
  if e.symbolClass? = some .binary && !admitsOperator previous next then e.toOrdinary else e

/-- Settle the members after `previous`, which is settled already. -/
def settleFrom (previous : Option Expr) : Formula → Formula
  | [] => []
  | e :: rest =>
    let settled := e.settle previous rest.head?
    settled :: settleFrom (some settled) rest

/-- Settle the class of every binary operator of a formula. -/
def settleOperators (formula : Formula) : Formula := settleFrom none formula

/-- Nothing but the class of symbols changes, so the length stays. -/
theorem length_settleFrom (previous : Option Expr) (formula : Formula) :
    (settleFrom previous formula).length = formula.length := by
  induction formula generalizing previous with
  | nil => rfl
  | cons e rest ih => simp [settleFrom, ih]

end OfficeMath
