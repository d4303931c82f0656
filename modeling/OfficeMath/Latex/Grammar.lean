import OfficeMath.Latex.Delimiter
import OfficeMath.Latex.EnvironmentText
import OfficeMath.Latex.Text

/-!
# The grammar of formulas

How an expression is read.  The rules are lenient: a missing base or argument is an empty group,
a command or character that cannot stand where it stands is skipped and noted, and an open
region or array is closed where the formula around it ends.  Only an open group is an error.

Expressions nest, so the rules refer to one another.  The knot is tied in two steps.

* Each rule takes as an argument how the parts nested in it are read (`Nested`).  It asks for a
  nested base, sequence, region or array only in places where this makes sense, and so the rules
  build on each other without recursion: `argument`, `scripts`, `item`, `delimited`,
  `environment`, `command` and `base`.  A repetition counts as nested in itself: `limits`,
  `sequence`, `region` and `rows` take one piece and leave the others to the nested rule.
* `Nested.ofDepth` feeds the rules to themselves, a given number of times.

A rule has always taken a character before it turns to a nested one, except when a repetition
begins its piece by a base.  So a depth of twice the remaining characters and a little more is
never used up (`Nested.forRest`).
-/

namespace OfficeMath

/-- A base that has been read, and where its scripts go. -/
structure Base where
  expr : Expr
  limits : Limits

/-- A base that keeps its scripts to the side. -/
def Base.side (e : Expr) : Base := ⟨e, .side⟩

/-- How the parts nested in an expression are read. -/
structure Nested where
  /-- An expression without its scripts.  There is none if the characters ahead cannot begin an
  expression, which are then not taken, or if they are a command without output. -/
  base : Reading (Option Base)
  /-- The commands that move the scripts of a base, the last of which counts. -/
  limits : Limits → Reading Limits
  /-- Expressions up to a closing character, which is taken too, or up to the end. -/
  sequence : Option Closer → Reading (List Expr)
  /-- The content of a delimited region and the delimiter that closes it. -/
  region : Reading (List Item × String)
  /-- The rows of an array, of which the cells in `row` and the expressions in `cell` have been
  read. -/
  rows : (row : Row) → (cell : Cell) → Reading (List Row)

/-- The scripts that have been read after a base. -/
structure Scripts where
  lower : Option Expr
  upper : Option Expr
  /-- The superscript consists of primes alone and admits another part. -/
  onlyPrimes : Bool

namespace Reading

/-- A mandatory argument: a group in braces, which is unwrapped if it holds a single expression,
a single digit, or a base.  A missing argument is an empty group. -/
def argument (nested : Nested) : Reading Expr := do
  skipLayout
  match ← rest with
  | [] => return .empty
  | c :: _ =>
    if c = '{' then
      advance 1
      return .ofList (← nested.sequence (some .brace))
    else if c.isDigit then
      advance 1
      return .number (String.ofList [c])
    else
      match ← nested.base with
      | some base => return base.expr
      | none => return .empty

/-- Take the commands that move the scripts of a base.  The last one counts, and the place that
the base asks for if there is none. -/
def limits (nested : Nested) (place : Limits) : Reading Limits := do
  skipLayout
  match commandAt? (← rest) with
  | some "limits" =>
    advance 7
    nested.limits .fixed
  | some "nolimits" =>
    advance 9
    nested.limits .side
  | _ => return place

/-- One more part of a superscript: a run of primes or an argument. -/
def superscript (nested : Nested) : Reading Expr := do
  skipLayout
  match ← primes with
  | 0 => argument nested
  | count => return .primes count

/-- Take a subscript and a superscript in either order, each at most once; but primes admit a
superscript after them.  Three rounds are enough: two that take a script and one that stops. -/
def scriptsFrom (nested : Nested) : (bound : Nat) → Scripts → Reading Scripts
  | 0, scripts => return scripts
  | bound + 1, scripts => do
    skipLayout
    match (← rest).head? with
    | some '_' =>
      match scripts.lower with
      | some _ => return scripts
      | none =>
        advance 1
        let lower ← argument nested
        scriptsFrom nested bound { scripts with lower := some lower }
    | some '^' =>
      match scripts.upper with
      | none =>
        advance 1
        let upper ← superscript nested
        scriptsFrom nested bound { scripts with upper := some upper, onlyPrimes := false }
      | some primes =>
        if scripts.onlyPrimes then
          advance 1
          let upper ← superscript nested
          scriptsFrom nested bound
            { scripts with upper := some (.group [primes, upper]), onlyPrimes := false }
        else return scripts
    | _ => return scripts

/-- Take the scripts of a base and attach them. -/
def scripts (nested : Nested) (base : Base) : Reading Expr := do
  let place ← limits nested base.limits
  let count ← primes
  let upper := if count = 0 then none else some (Expr.primes count)
  let scripts ← scriptsFrom nested 3 ⟨none, upper, upper.isSome⟩
  return base.expr.withScripts place scripts.lower scripts.upper

/-- Skip what cannot begin an expression: a character or a command, the latter together with the
name or the delimiter that belongs to it. -/
def skipToken : Reading Unit := do
  let start ← offset
  match ← rest with
  | [] => return ()
  | c :: after =>
    advance 1
    if c = '\\' then
      let name := commandName after
      advance name.length
      if name = "end".toList then let _ ← environmentName?
      else if name = "right".toList || name = "middle".toList then let _ ← delimiter?
      note (.skippedCommand (String.ofList name) start)
    else note (.skippedCharacter c start)

/-- An expression with its scripts.  If nothing was taken, the token in the way is skipped, so
that every round of a repetition moves on. -/
def item (nested : Nested) : Reading (Option Expr) := do
  skipLayout
  let start ← offset
  match ← nested.base with
  | some base => return some (← scripts nested base)
  | none =>
    if (← offset) = start then skipToken
    return none

/-- Expressions up to a closing character or the end of the formula. -/
def sequence (nested : Nested) (closer : Option Closer) : Reading (List Expr) := do
  skipLayout
  match closer, ← rest with
  | none, [] => return []
  | some closer, [] => unclosed closer
  | some closer, c :: _ =>
    if c = closer.char then
      advance 1
      return []
    else next
  | none, _ :: _ => next
where
  /-- One item and the expressions after it. -/
  next : Reading (List Expr) := do
    let first ← item nested
    return first.toList ++ (← nested.sequence closer)

/-- The content of a delimited region, after its opening delimiter.  At the end of the formula, of
the group or of the environment around it the region is closed without a delimiter. -/
def region (nested : Nested) : Reading (List Item × String) := do
  skipLayout
  match ← rest with
  | [] => missing
  | c :: after =>
    if c = '}' then missing
    else if c = '\\' then
      let name := commandName after
      if name = "end".toList then missing
      else if name = "right".toList then
        advance 6
        return ([], ← delimiterAfter "right")
      else if name = "middle".toList then
        advance 7
        let separator ← delimiterAfter "middle"
        let (items, closing) ← nested.region
        return (.separator separator :: items, closing)
      else next
    else next
where
  /-- Close the region where it is. -/
  missing : Reading (List Item × String) := do
    note (.missingRight (← offset))
    return ([], "")
  /-- One item and the content after it. -/
  next : Reading (List Item × String) := do
    let first ← item nested
    let (items, closing) ← nested.region
    return (first.toList.map .expr ++ items, closing)

/-- The rows of an array.  Cells end at `&` and rows at a double backslash, which may be followed
by a height in brackets; a row is not opened by the double backslash before it but by what it
holds. -/
def rows (nested : Nested) (row : Row) (cell : Cell) : Reading (List Row) := do
  skipLayout
  match ← rest with
  | [] => missing
  | c :: after =>
    if c = '}' then missing
    else if c = '&' then
      advance 1
      nested.rows (row ++ [cell]) []
    else if c = '\\' then
      let name := commandName after
      if name = ['\\'] then
        advance 2
        if (← rest).head? = some '[' then let _ ← through? ']'
        let others ← nested.rows [] []
        return (row ++ [cell]) :: others
      else if name = "end".toList then
        advance 4
        let _ ← environmentName?
        return last
      else next
    else next
where
  /-- The last row, if it holds anything. -/
  last : List Row := if row.isEmpty && cell.isEmpty then [] else [row ++ [cell]]
  /-- Close the array where it is. -/
  missing : Reading (List Row) := do
    note (.missingEnd (← offset))
    return last
  /-- One item and the rows after it. -/
  next : Reading (List Row) := do
    let first ← item nested
    nested.rows row (cell ++ first.toList)

/-- An environment, after its `\begin`.  An unsupported one produces nothing. -/
def environment (nested : Nested) : Reading (Option Expr) := do
  match ← environmentName? with
  | none =>
    note (.missingEnvironmentName (← offset))
    return none
  | some name =>
    match Environment.ofName? name with
    | none =>
      note (.unsupportedEnvironment name)
      skipEnvironment name
      return none
    | some environment =>
      let specification ←
        if environment.hasColumnSpecification then columnSpecification else pure []
      let rows ← nested.rows [] []
      let columns := (rows.map List.length).foldl max 0
      let array := Expr.array (environment.alignments specification columns) rows
      match environment.delimiters? with
      | some (opening, closing) => return some (.delimited opening closing [.expr array])
      | none => return some array

/-- A delimited region, after its `\left`. -/
def delimited (nested : Nested) : Reading Expr := do
  let opening ← delimiterAfter "left"
  let (content, closing) ← nested.region
  return .delimited opening closing content

/-- The rest of a command that began at byte `start`, after its name.  There is no base if the
command has no output. -/
def command (nested : Nested) (start : Nat) : Command → Reading (Option Base)
  | .symbol kind glyph => return some ⟨.symbol kind glyph, kind.limits glyph⟩
  | .identifier text => return some (.side (.identifier text))
  | .operatorName name limits => return some ⟨.operatorName name, limits⟩
  | .space width => return some (.side (.space width))
  | .sized factor => do
    match ← delimiter? with
    | some glyph => return some (.side (.scaled factor glyph.expr))
    | none =>
      note (.sizeWithoutDelimiter start)
      return none
  | .decoration kind mark side => do
    let base ← argument nested
    let mark := Expr.symbol kind mark
    let decorated := match side with
      | .above => Expr.over false base mark
      | .below => Expr.under false base mark
    return some ⟨decorated, if kind = .overMark || kind = .underMark then .fixed else .side⟩
  | .fraction style => do
    let numerator ← argument nested
    let denominator ← argument nested
    return some (.side (.fraction style numerator denominator))
  | .sqrt => do
    skipLayout
    match ← rest with
    | '[' :: _ =>
      advance 1
      let index ← nested.sequence (some .bracket)
      let base ← argument nested
      return some (.side (.root (.ofList index) base))
    | _ => return some (.side (.sqrt (← argument nested)))
  | .left => return some (.side (← delimited nested))
  | .beginEnvironment => return (← environment nested).map .side
  | .overset => do
    let above ← argument nested
    let base ← argument nested
    return some (.side (.over false base above))
  | .underset => do
    let below ← argument nested
    let base ← argument nested
    return some (.side (.under false base below))
  | .boxed => return some (.side (.boxed (← argument nested)))
  | .phantom => return some (.side (.phantom (← argument nested)))
  | .cancel stroke => return some (.side (.cancel stroke (← argument nested)))
  | .namedOperator limits => return some ⟨.operatorName (← textArgument), limits⟩
  | .limits _ | .ignored => return none
  | .right | .middle | .endEnvironment => return none

/-- The argument of a style command. -/
def styled (nested : Nested) : StyleCommand → Reading Expr
  | .text style => return .text style (← textArgument)
  | .formula style => do
    skipLayout
    match ← rest with
    | '{' :: _ =>
      advance 1
      return .styled style (← nested.sequence (some .brace))
    | _ => return .styled style ((← nested.base).map Base.expr).toList

/-- Whether a command belongs to the region or environment around it and cannot begin an
expression. -/
def isPartOfSurroundings : Command → Bool
  | .right | .middle | .endEnvironment => true
  | _ => false

/-- A base that begins with a backslash, of which `after` is the text after the backslash.  An
unknown command, or one that belongs to the surroundings, is not taken. -/
def commandBase (nested : Nested) (after : List Char) : Reading (Option Base) := do
  let name := commandName after
  match Meaning.ofName? (String.ofList name) with
  | none => return none
  | some meaning =>
    match meaning with
    | .command found =>
      if isPartOfSurroundings found then return none
      else
        let start ← offset
        advance (1 + name.length)
        command nested start found
    | .delimiter glyph =>
      advance (1 + name.length)
      return some (.side glyph.expr)
    | .style style =>
      advance (1 + name.length)
      return some (.side (← styled nested style))

/-- An expression without its scripts. -/
def base (nested : Nested) : Reading (Option Base) := do
  skipLayout
  let ahead ← rest
  match ahead with
  | [] => return none
  | c :: after =>
    if c = '{' then
      advance 1
      return some (.side (.group (← nested.sequence (some .brace))))
    else if numberLength ahead ≠ 0 then
      advance (numberLength ahead)
      return some (.side (.number (String.ofList (ahead.take (numberLength ahead)))))
    else if c = '\\' then commandBase nested after
    else if c = '^' || c = '_' then return some (.side .empty)
    else if c = '\x27' then return some (.side (.primes (← primes)))
    else if c = '~' then
      advance 1
      return some (.side (.space 0.333))
    else
      match Expr.ofChar? c with
      | none => return none
      | some e =>
        advance 1
        return some (.side e)

end Reading

namespace Nested

/-- Nothing nested is read. -/
def none : Nested where
  base := return .none
  limits place := return place
  sequence _ := return []
  region := return ([], "")
  rows _ _ := return []

/-- The rules, with nested parts read up to the given depth. -/
def ofDepth : Nat → Nested
  | 0 => Nested.none
  | depth + 1 =>
    { base := fun s => Reading.base (ofDepth depth) s
      limits := fun place s => Reading.limits (ofDepth depth) place s
      sequence := fun closer s => Reading.sequence (ofDepth depth) closer s
      region := fun s => Reading.region (ofDepth depth) s
      rows := fun row cell s => Reading.rows (ofDepth depth) row cell s }

/-- The rules, for reading the given rest of a formula. -/
def forRest (rest : List Char) : Nested := ofDepth (2 * rest.length + 2)

end Nested

/-- A rule on its own, with as much depth for its nested parts as the rest of the formula may
need. -/
def Reading.alone {α : Type} (rule : Nested → Reading α) : Reading α := do
  rule (.forRest (← rest))

end OfficeMath
