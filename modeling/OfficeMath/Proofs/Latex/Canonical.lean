import OfficeMath.Proofs.Latex.SoundNodes

/-!
# The canonical text of a formula

Every construction has a plainest spelling.  `Expr.source` spells an expression out: each of its
parts is followed by a space, each argument stands in braces, the index of a root in brackets, and
scripts come after their base.  Leaves are spelled by the character that stands for them, and
delimiters by their character or command.  The rows of an array are joined by double backslashes,
but for one more where the last row would be lost (`sourceOfRows_eq_joinedRows`).

Not every expression can be spelled, and not every one that can be comes from this spelling alone:
a symbol may have no character, scripts may already have moved.  `Expr.Canonical` collects the
expressions whose spelling says all about them.
-/

namespace OfficeMath

/-! ## Spelling -/

/-- The character that stands for a symbol. -/
def symbolSource (glyph : Glyph) : List Char :=
  ((characterSymbols.find? (·.2 = glyph)).map Prod.fst).toList

/-- The texts that a delimiter may have, the empty one for no delimiter among them. -/
def delimiterTexts : List String :=
  "" :: (delimiterCharacters.map (·.2.text) ++ delimiterCommands.map (·.2.text))

/-- The character or the command of a delimiter, or a dot for none. -/
def delimiterSource (text : String) : List Char :=
  match delimiterCharacters.find? (·.2.text = text) with
  | some (c, _) => [c]
  | none =>
    match delimiterCommands.find? (·.2.text = text) with
    | some (name, _) => '\\' :: name.toList
    | none => ['.']

/-- The name of the command that sets a formula in a style. -/
def styleName (style : TextStyle) : String :=
  ((styleCommands.find? (·.2 = .formula style)).map Prod.fst).getD ""

/-- The name of the command for a fraction with a bar. -/
def fractionName : FractionStyle → String
  | .display => "dfrac"
  | .inline => "tfrac"
  | .normal | .noLine => "frac"

/-- The name of the command that strikes its argument out. -/
def strokeName : Stroke → String
  | .forward => "cancel"
  | .back => "bcancel"
  | .both => "xcancel"

/-- A command by its name. -/
def control (name : String) : List Char := '\\' :: name.toList

/-- An expression as an argument. -/
def braced (source : List Char) : List Char := '{' :: (source ++ [' ', '}'])

/-- An expression as an optional argument. -/
def bracketed (source : List Char) : List Char := '[' :: (source ++ [' ', ']'])

/-- What ends a row: a double backslash if there are rows after it.  A single empty cell is no row
before the end of an environment, and so a last row of this kind has a double backslash too. -/
def rowEnd : Row → List Row → List Char
  | [[]], [] => ['\\', '\\', ' ']
  | _, [] => []
  | _, _ :: _ => ['\\', '\\', ' ']

/-- What stands between a cell and the cells after it. -/
def cellEnd : Row → List Char
  | [] => []
  | _ :: _ => ['&']

mutual

/-- An expression spelled out, up to the space after it. -/
def Expr.source : Expr → List Char
  | .number text | .identifier text => text.toList
  | .symbol kind glyph => symbolSource ⟨kind, glyph⟩
  | .group members => '{' :: (sourceOf members ++ ['}'])
  | .sqrt base => control "sqrt" ++ braced base.source
  | .root index base => control "sqrt" ++ (bracketed index.source ++ braced base.source)
  | .phantom inner => control "phantom" ++ braced inner.source
  | .boxed inner => control "boxed" ++ braced inner.source
  | .cancel stroke inner => control (strokeName stroke) ++ braced inner.source
  | .sub base lower => base.source ++ ' ' :: '_' :: braced lower.source
  | .super base upper => base.source ++ ' ' :: '^' :: braced upper.source
  | .subSup base lower upper =>
    base.source ++ ' ' :: '_' :: (braced lower.source ++ '^' :: braced upper.source)
  | .fraction style numerator denominator =>
    control (fractionName style) ++ (braced numerator.source ++ braced denominator.source)
  | .over _ base above => control "overset" ++ (braced above.source ++ braced base.source)
  | .under _ base below => control "underset" ++ (braced below.source ++ braced base.source)
  | .underOver _ base below above =>
    base.source ++ ' ' ::
      (control "limits" ++ '_' :: (braced below.source ++ '^' :: braced above.source))
  | .delimited opening closing content =>
    control "left" ++ (delimiterSource opening ++ ' ' ::
      (sourceOfItems content ++ (control "right" ++ delimiterSource closing)))
  | .array _ rows =>
    control "begin" ++ ("{matrix}".toList ++ (sourceOfRows rows ++
      (control "end" ++ "{matrix}".toList)))
  | .styled style members => control (styleName style) ++ '{' :: (sourceOf members ++ ['}'])
  | .text _ _ | .space _ | .operatorName _ | .scaled _ _ => []

/-- Expressions spelled out, each with a space after it. -/
def sourceOf : List Expr → List Char
  | [] => []
  | e :: rest => e.source ++ ' ' :: sourceOf rest

/-- The content of a delimited region spelled out. -/
def sourceOfItems : List Item → List Char
  | [] => []
  | .separator glyph :: rest =>
    control "middle" ++ (delimiterSource glyph ++ ' ' :: sourceOfItems rest)
  | .expr e :: rest => e.source ++ ' ' :: sourceOfItems rest

/-- The rows of an array spelled out. -/
def sourceOfRows : List (List (List Expr)) → List Char
  | [] => []
  | row :: rest => sourceOfCells row ++ (rowEnd row rest ++ sourceOfRows rest)

/-- The cells of a row spelled out. -/
def sourceOfCells : List (List Expr) → List Char
  | [] => []
  | cell :: rest => sourceOf cell ++ (cellEnd rest ++ sourceOfCells rest)

end

/-- The cells of a row joined. -/
def joinedCells (row : Row) : List Char := ['&'].intercalate (row.map sourceOf)

/-- The rows of an array joined, whatever the last of them is. -/
def joinedRows (rows : List Row) : List Char := ['\\', '\\', ' '].intercalate (rows.map joinedCells)

/-- A row spelled out is its cells joined. -/
theorem sourceOfCells_eq_joinedCells (row : Row) : sourceOfCells row = joinedCells row := by
  unfold joinedCells
  induction row with
  | nil => rfl
  | cons cell rest ih =>
    rw [sourceOfCells, ih]
    cases rest with
    | nil => simp [cellEnd]
    | cons second rest => simp [cellEnd, List.intercalate_cons_cons]

/-- An array spelled out is its rows joined, but for the double backslash that keeps a last row. -/
theorem sourceOfRows_eq_joinedRows (rows : List Row) :
    sourceOfRows rows
      = joinedRows rows ++ if rows.getLast? = some [[]] then ['\\', '\\', ' '] else [] := by
  unfold joinedRows
  induction rows with
  | nil => rfl
  | cons row rest ih =>
    rw [sourceOfRows, ih, sourceOfCells_eq_joinedCells]
    cases rest with
    | nil =>
      by_cases hrow : row = [[]]
      · subst hrow
        simp [rowEnd]
      · simp [rowEnd, hrow]
    | cons second rest => simp [rowEnd, List.intercalate_cons_cons]

/-- A formula spelled out. -/
def canonicalText (formula : Formula) : String := String.ofList (sourceOf formula)

/-! ## What can be spelled -/

/-- The expressions that their spelling determines. -/
inductive Expr.Canonical : Expr → Prop
  | number {text : String} (h : Numeral text.toList) : Canonical (.number text)
  | identifier {c : Char} (h : isAlphabetic c) : Canonical (.identifier (String.ofList [c]))
  | symbol {c : Char} {kind : SymbolClass} {glyph : String}
      (h : (c, ⟨kind, glyph⟩) ∈ characterSymbols) : Canonical (.symbol kind glyph)
  | group {members : List Expr} (h : ∀ e ∈ members, Canonical e) : Canonical (.group members)
  | sqrt {base : Expr} (h : Canonical base) : Canonical (.sqrt base)
  | root {index base : Expr} (hindex : Canonical index) (hbase : Canonical base) :
    Canonical (.root index base)
  | phantom {inner : Expr} (h : Canonical inner) : Canonical (.phantom inner)
  | boxed {inner : Expr} (h : Canonical inner) : Canonical (.boxed inner)
  | cancel {stroke : Stroke} {inner : Expr} (h : Canonical inner) : Canonical (.cancel stroke inner)
  | sub {base lower : Expr} (hscripted : ¬ base.IsScripted) (hbase : Canonical base)
      (hlower : Canonical lower) : Canonical (.sub base lower)
  | super {base upper : Expr} (hscripted : ¬ base.IsScripted) (hbase : Canonical base)
      (hupper : Canonical upper) : Canonical (.super base upper)
  | subSup {base lower upper : Expr} (hscripted : ¬ base.IsScripted) (hbase : Canonical base)
      (hlower : Canonical lower) (hupper : Canonical upper) : Canonical (.subSup base lower upper)
  | fraction {style : FractionStyle} {numerator denominator : Expr} (hstyle : style ≠ .noLine)
      (hnumerator : Canonical numerator) (hdenominator : Canonical denominator) :
    Canonical (.fraction style numerator denominator)
  | over {base above : Expr} (hbase : Canonical base) (habove : Canonical above) :
    Canonical (.over false base above)
  | under {base below : Expr} (hbase : Canonical base) (hbelow : Canonical below) :
    Canonical (.under false base below)
  | underOver {base below above : Expr} (hscripted : ¬ base.IsScripted) (hbase : Canonical base)
      (hbelow : Canonical below) (habove : Canonical above) :
    Canonical (.underOver false base below above)
  | delimited {opening closing : String} {content : List Item}
      (hopening : opening ∈ delimiterTexts) (hclosing : closing ∈ delimiterTexts)
      (hseparators : ∀ glyph, Item.separator glyph ∈ content → glyph ∈ delimiterTexts)
      (h : ∀ e, Item.expr e ∈ content → Canonical e) : Canonical (.delimited opening closing content)
  | array {columns : Nat} {rows : List Row} (hrows : ∀ row ∈ rows, row ≠ [])
      (hcolumns : IsLongest columns rows) (h : ∀ row ∈ rows, ∀ cell ∈ row, ∀ e ∈ cell, Canonical e) :
    Canonical (.array (List.replicate columns .center) rows)
  | styled {name : String} {style : TextStyle} {members : List Expr}
      (hstyle : (name, StyleCommand.formula style) ∈ styleCommands)
      (h : ∀ e ∈ members, Canonical e) : Canonical (.styled style members)

end OfficeMath
