/-!
# Formulas

The tree that stands between reading a formula and writing it as markup.  An expression is a
leaf (a number, an identifier, a symbol, a text, an operator name, a space) or a construction
over smaller expressions: a group, a root, a fraction, scripts, attachments above and below,
delimited regions and arrays.  A formula is a list of expressions.

Two constructions carry a flag that is settled only when the display is known.  An attachment
that is `movable` stands below and above its base in a displayed formula and moves to the side,
like ordinary scripts, in running text.

* `Expr.ofList` packs a list into one expression without wrapping a single one;
* `Expr.empty` is the empty group, the placeholder for whatever is missing;
* `Expr.withScripts` attaches a subscript and a superscript in the place that the base asks for.
-/

namespace OfficeMath

/-- The class of a symbol, which decides about its spacing and its role beside others. -/
inductive SymbolClass where
  | ordinary
  | operator
  | binary
  | relation
  | opening
  | closing
  | punctuation
  /-- An accent set above a base. -/
  | accent
  /-- A delimiter with the same form on both sides. -/
  | fence
  /-- A character stretched above its base, such as a brace. -/
  | overMark
  /-- A character stretched below its base. -/
  | underMark
  | alphabetic
  /-- An accent set below a base. -/
  | lowAccent
  | radical
  deriving DecidableEq, Repr

/-- The typeface of a text or of a styled part of a formula. -/
inductive TextStyle where
  | normal
  | bold
  | italic
  | monospace
  | sansSerif
  | doubleStruck
  | script
  | fraktur
  | boldItalic
  | sansSerifBold
  | boldScript
  | boldFraktur
  | sansSerifItalic
  | sansSerifBoldItalic
  deriving DecidableEq, Repr

/-- The kind of a fraction. -/
inductive FractionStyle where
  | normal
  /-- Set at full size. -/
  | display
  /-- Set on one line. -/
  | inline
  /-- Without a bar, as in a binomial coefficient. -/
  | noLine
  deriving DecidableEq, Repr

/-- How a column of an array is aligned. -/
inductive Alignment where
  | left
  | center
  | right
  deriving DecidableEq, Repr

/-- The strokes drawn through a cancelled expression. -/
inductive Stroke where
  /-- From the lower left to the upper right. -/
  | forward
  /-- From the upper left to the lower right. -/
  | back
  | both
  deriving DecidableEq, Repr

/-- Where the scripts of a base go. -/
inductive Limits where
  /-- To the side, as ordinary scripts. -/
  | side
  /-- Below and above, but to the side in running text. -/
  | movable
  /-- Below and above in any display. -/
  | fixed
  deriving DecidableEq, Repr

mutual

/-- An expression of a formula.  Widths are in ems and, like the factors of scaled delimiters,
32-bit floats. -/
inductive Expr where
  | number (text : String)
  | identifier (text : String)
  | symbol (kind : SymbolClass) (glyph : String)
  | text (style : TextStyle) (text : String)
  | space (width : Float32)
  /-- An upright operator name such as `sin`. -/
  | operatorName (name : String)
  | group (members : List Expr)
  | sqrt (base : Expr)
  | root (index base : Expr)
  | phantom (inner : Expr)
  | boxed (inner : Expr)
  | cancel (stroke : Stroke) (inner : Expr)
  | scaled (factor : Float32) (inner : Expr)
  | sub (base lower : Expr)
  | super (base upper : Expr)
  | subSup (base lower upper : Expr)
  | fraction (style : FractionStyle) (numerator denominator : Expr)
  | over (movable : Bool) (base above : Expr)
  | under (movable : Bool) (base below : Expr)
  | underOver (movable : Bool) (base below above : Expr)
  | delimited (opening closing : String) (content : List Item)
  | array (alignments : List Alignment) (rows : List (List (List Expr)))
  | styled (style : TextStyle) (members : List Expr)

/-- A member of a delimited region: an expression, or a separator between two parts. -/
inductive Item where
  | separator (glyph : String)
  | expr (expr : Expr)

end

/-- A formula is a list of expressions set side by side. -/
abbrev Formula := List Expr

/-- A cell of an array holds a formula of its own. -/
abbrev Cell := List Expr

/-- A row of an array is a list of cells. -/
abbrev Row := List Cell

namespace Expr

instance : Inhabited Expr := ⟨.group []⟩

/-- The empty group, which stands for a missing base, argument or operand. -/
def empty : Expr := .group []

/-- Whether an expression is the empty group. -/
def isEmptyGroup : Expr → Bool
  | .group [] => true
  | _ => false

/-- The class of a bare symbol. -/
def symbolClass? : Expr → Option SymbolClass
  | .symbol kind _ => some kind
  | _ => none

/-- One expression for a list: the member itself if there is just one, else a group. -/
def ofList : List Expr → Expr
  | [single] => single
  | members => .group members

/-- Attach a subscript and a superscript to a base, each of which may be missing. -/
def withScripts (limits : Limits) (base : Expr) : Option Expr → Option Expr → Expr
  | none, none => base
  | some lower, none =>
    match limits with
    | .side => .sub base lower
    | .movable => .under true base lower
    | .fixed => .under false base lower
  | none, some upper =>
    match limits with
    | .side => .super base upper
    | .movable => .over true base upper
    | .fixed => .over false base upper
  | some lower, some upper =>
    match limits with
    | .side => .subSup base lower upper
    | .movable => .underOver true base lower upper
    | .fixed => .underOver false base lower upper

/-- Packing a single expression gives it back. -/
@[simp] theorem ofList_singleton (e : Expr) : ofList [e] = e := rfl

/-- Packing no expression gives the placeholder. -/
@[simp] theorem ofList_nil : ofList [] = empty := rfl

/-- A base without scripts stays what it is, wherever they would have gone. -/
@[simp] theorem withScripts_none (limits : Limits) (base : Expr) :
    withScripts limits base none none = base := rfl

end Expr

end OfficeMath
