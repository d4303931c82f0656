import OfficeMath.Proofs.Cursor.Walk

/-!
# The grammar, walked

The rules of the grammar for a cursor.  They say the same as the rules for a list of characters
(`OfficeMath.Reading`), but in the steps that a cursor can take: a character or a command is taken
before it is known whether it can be used here, and put back by going to the byte where it began.
So it is with numbers, whose dot may turn out to be no part of them, with delimiters, and with
commands that are unknown or belong to the surroundings.

Nested parts are read as there: a rule takes as an argument how to walk over them
(`Walk.Nested`), and `Walk.Nested.ofDepth` feeds the rules to themselves.
-/

namespace OfficeMath

namespace Walk

/-- How to walk over the parts nested in an expression. -/
structure Nested where
  base : Walk (Option Base)
  limits : Limits → Walk Limits
  sequence : Option Closer → Walk (List Expr)
  region : Walk (List Item × String)
  rows : (row : Row) → (cell : Cell) → Walk (List Row)

/-! ## Numbers, delimiters, text -/

/-- Take a dot and the digits after it.  A dot without digits is put back. -/
def decimals : Walk Unit := do
  let start ← place
  if ← eat '.' then
    if (← digits).isEmpty then goTo start

/-- Take the number ahead, if there is one. -/
def number? : Walk (Option Expr) := do
  let start ← place
  let _ ← digits
  decimals
  let stop ← place
  if stop = start then return none
  else return some (.number (String.ofList (← slice start stop)))

/-- The delimiter that is spelled like this. -/
def delimiterSpelled? : List Char → Option Glyph
  | '\\' :: name => delimiterCommand? (String.ofList name)
  | [c] => delimiterCharacter? c
  | _ => none

/-- Take the delimiter ahead, if there is one. -/
def delimiter? : Walk (Option Glyph) := do
  skipLayout
  let start ← place
  match ← readChar with
  | none => return none
  | some c =>
    let found ← meaning start c
    if found.isNone then goTo start
    return found
where
  /-- The meaning of the delimiter that began with a character at the byte `start`. -/
  meaning (start : Nat) (c : Char) : Walk (Option Glyph) := do
    if c = '.' then return some ⟨.opening, ""⟩
    else if c = '\\' then
      let name ← commandName
      let spelling ← slice start (← place)
      return delimiterSpelled? spelling <|>
        (command? (String.ofList name)).bind Command.glyph?
    else return delimiterSpelled? [c] <|> characterSymbol? c

/-- The glyph of the delimiter that has to follow a command. -/
def delimiterAfter (command : String) : Walk String := do
  match ← delimiter? with
  | some glyph => return glyph.text
  | none =>
    note (.missingDelimiter command (← place))
    return ""

/-- Take the name of an environment in braces. -/
def environmentName? : Walk (Option String) := do
  skipLayout
  if ← eat '{' then
    match ← through? '}' with
    | some name => return some (String.ofList (trimBlank name))
    | none => unclosed .brace
  else return none

/-- Take the rest of a column specification.  `depth` braces are open inside it and
`specification` is what has been collected, the last character first. -/
def specificationFrom : (bound depth : Nat) → (specification : List Char) → Walk (List Char)
  | 0, _, _ => unclosed .brace
  | bound + 1, depth, specification => do
    match ← readChar with
    | none => unclosed .brace
    | some c =>
      if c = '{' then specificationFrom bound (depth + 1) specification
      else if c = '}' then
        match depth with
        | 0 => return specification.reverse
        | depth + 1 => specificationFrom bound depth specification
      else if depth = 0 then specificationFrom bound depth (c :: specification)
      else specificationFrom bound depth specification

/-- Take the column specification of an array. -/
def columnSpecification : Walk (List Alignment) := do
  skipLayout
  if ← eat '{' then
    return columnAlignments (← specificationFrom ((← rest).length + 1) 0 [])
  else return []

/-- Take the body of an unsupported environment and the end of it.  `depth` environments of the
same name are open inside it. -/
def skipEnvironmentFrom (name : String) : (bound depth : Nat) → Walk Unit
  | 0, _ => note (.openEnvironment name)
  | bound + 1, depth => do
    match ← readChar with
    | none => note (.openEnvironment name)
    | some c =>
      if c = '\\' then
        let command ← commandName
        if command = "begin".toList then
          if (← environmentName?) = some name then skipEnvironmentFrom name bound (depth + 1)
          else skipEnvironmentFrom name bound depth
        else if command = "end".toList then
          if (← environmentName?) = some name then
            match depth with
            | 0 => return ()
            | depth + 1 => skipEnvironmentFrom name bound depth
          else skipEnvironmentFrom name bound depth
        else skipEnvironmentFrom name bound depth
      else skipEnvironmentFrom name bound depth

/-- Take the body of an unsupported environment and the end of it. -/
def skipEnvironment (name : String) : Walk Unit := do
  skipEnvironmentFrom name (← rest).length 0

/-- Take the rest of a text argument.  `depth` braces are open inside it and `text` is what has
been collected, the last character first. -/
def textFrom : (bound depth : Nat) → (text : List Char) → Walk String
  | 0, _, _ => unclosed .brace
  | bound + 1, depth, text => do
    match ← readChar with
    | none => unclosed .brace
    | some c =>
      if c = '}' then
        match depth with
        | 0 => return String.ofList text.reverse
        | depth + 1 => textFrom bound depth text
      else if c = '{' then textFrom bound (depth + 1) text
      else if c = '~' then textFrom bound depth ('\u00a0' :: text)
      else if c = '\\' then
        let start := (← place) - 1
        let name ← commandName
        match name with
        | [] => textFrom bound depth text
        | escaped :: _ =>
          if escaped.isAlpha then
            note (.ignoredInText (String.ofList name) start)
            textFrom bound depth text
          else textFrom bound depth (escaped :: text)
      else if isBlank c then
        textFrom bound depth (if text.head? = some ' ' then text else ' ' :: text)
      else textFrom bound depth (c :: text)

/-- Take a text argument. -/
def textArgument : Walk String := do
  skipLayout
  if ← eat '{' then textFrom (← rest).length 0 []
  else return String.ofList (← readChar).toList

/-! ## Expressions -/

/-- A mandatory argument. -/
def argument (nested : Nested) : Walk Expr := do
  skipLayout
  match ← peek with
  | none => return .empty
  | some c =>
    if c = '{' then
      let _ ← readChar
      return .ofList (← nested.sequence (some .brace))
    else if c.isDigit then
      let _ ← readChar
      return .number (String.ofList [c])
    else
      match ← nested.base with
      | some base => return base.expr
      | none => return .empty

/-- Take the commands that move the scripts of a base. -/
def limits (nested : Nested) (place : Limits) : Walk Limits := do
  skipLayout
  let name ← peekCommand
  if name = some "limits".toList then
    let _ ← takeCommand?
    nested.limits .fixed
  else if name = some "nolimits".toList then
    let _ ← takeCommand?
    nested.limits .side
  else return place

/-- One more part of a superscript. -/
def superscript (nested : Nested) : Walk Expr := do
  skipLayout
  match ← primes with
  | 0 => argument nested
  | count => return .primes count

/-- Take a subscript and a superscript in either order. -/
def scriptsFrom (nested : Nested) : (bound : Nat) → Scripts → Walk Scripts
  | 0, scripts => return scripts
  | bound + 1, scripts => do
    skipLayout
    let ahead ← peek
    if ahead = some '_' then
      match scripts.lower with
      | some _ => return scripts
      | none =>
        let _ ← readChar
        let lower ← argument nested
        scriptsFrom nested bound { scripts with lower := some lower }
    else if ahead = some '^' then
      match scripts.upper with
      | none =>
        let _ ← readChar
        let upper ← superscript nested
        scriptsFrom nested bound { scripts with upper := some upper, onlyPrimes := false }
      | some primes =>
        if scripts.onlyPrimes then
          let _ ← readChar
          let upper ← superscript nested
          scriptsFrom nested bound
            { scripts with upper := some (.group [primes, upper]), onlyPrimes := false }
        else return scripts
    else return scripts

/-- Take the scripts of a base and attach them. -/
def scripts (nested : Nested) (base : Base) : Walk Expr := do
  let place ← limits nested base.limits
  let count ← primes
  let upper := if count = 0 then none else some (Expr.primes count)
  let scripts ← scriptsFrom nested 3 ⟨none, upper, upper.isSome⟩
  return base.expr.withScripts place scripts.lower scripts.upper

/-- Skip what cannot begin an expression. -/
def skipToken : Walk Unit := do
  let start ← place
  match ← takeCommand? with
  | some name =>
    if name = "end".toList then let _ ← environmentName?
    else if name = "right".toList || name = "middle".toList then let _ ← delimiter?
    note (.skippedCommand (String.ofList name) start)
  | none =>
    match ← readChar with
    | some c => note (.skippedCharacter c start)
    | none => return ()

/-- An expression with its scripts.  If nothing was taken, the token in the way is skipped. -/
def item (nested : Nested) : Walk (Option Expr) := do
  skipLayout
  let start ← place
  match ← nested.base with
  | some base => return some (← scripts nested base)
  | none =>
    if (← place) = start then skipToken
    return none

/-- Expressions up to a closing character or the end of the formula. -/
def sequence (nested : Nested) (closer : Option Closer) : Walk (List Expr) := do
  skipLayout
  match closer, ← peek with
  | none, none => return []
  | some closer, none => unclosed closer
  | some closer, some c =>
    if c = closer.char then
      let _ ← readChar
      return []
    else next
  | none, some _ => next
where
  /-- One item and the expressions after it. -/
  next : Walk (List Expr) := do
    let first ← item nested
    return first.toList ++ (← nested.sequence closer)

/-- The content of a delimited region, after its opening delimiter. -/
def region (nested : Nested) : Walk (List Item × String) := do
  skipLayout
  let ahead ← peek
  let name ← peekCommand
  if ahead = none || ahead = some '}' || name = some "end".toList then
    note (.missingRight (← place))
    return ([], "")
  else if name = some "right".toList then
    let _ ← takeCommand?
    return ([], ← delimiterAfter "right")
  else if name = some "middle".toList then
    let _ ← takeCommand?
    let separator ← delimiterAfter "middle"
    let (items, closing) ← nested.region
    return (.separator separator :: items, closing)
  else next
where
  /-- One item and the content after it. -/
  next : Walk (List Item × String) := do
    let first ← item nested
    let (items, closing) ← nested.region
    return (first.toList.map .expr ++ items, closing)

/-- The rows of an array. -/
def rows (nested : Nested) (row : Row) (cell : Cell) : Walk (List Row) := do
  skipLayout
  let ahead ← peek
  let name ← peekCommand
  if ahead = none || ahead = some '}' then
    note (.missingEnd (← place))
    return last
  else if ahead = some '&' then
    let _ ← readChar
    nested.rows (row ++ [cell]) []
  else if name = some ['\\'] then
    let _ ← takeCommand?
    if (← peek) = some '[' then let _ ← through? ']'
    let others ← nested.rows [] []
    return (row ++ [cell]) :: others
  else if name = some "end".toList then
    let _ ← takeCommand?
    let _ ← environmentName?
    return last
  else next
where
  /-- The last row, if it holds anything. -/
  last : List Row := if row.isEmpty && cell.isEmpty then [] else [row ++ [cell]]
  /-- One item and the rows after it. -/
  next : Walk (List Row) := do
    let first ← item nested
    nested.rows row (cell ++ first.toList)

/-- An environment, after its `\begin`. -/
def environment (nested : Nested) : Walk (Option Expr) := do
  match ← environmentName? with
  | none =>
    note (.missingEnvironmentName (← place))
    return none
  | some name =>
    match Environment.ofName? name with
    | none =>
      note (.unsupportedEnvironment name)
      skipEnvironment name
      return none
    | some environment =>
      let specification ←
        if environment.hasColumnSpecification then columnSpecification else pure []
      let rows ← nested.rows [] []
      let columns := (rows.map List.length).foldl max 0
      let array := Expr.array (environment.alignments specification columns) rows
      match environment.delimiters? with
      | some (opening, closing) => return some (.delimited opening closing [.expr array])
      | none => return some array

/-- A delimited region, after its `\left`. -/
def delimited (nested : Nested) : Walk Expr := do
  let opening ← delimiterAfter "left"
  let (content, closing) ← nested.region
  return .delimited opening closing content

/-- The rest of a command that began at byte `start`, after its name.  A command that belongs to
its surroundings is put back. -/
def command (nested : Nested) (start : Nat) : Command → Walk (Option Base)
  | .symbol kind glyph => return some ⟨.symbol kind glyph, kind.limits glyph⟩
  | .identifier text => return some (.side (.identifier text))
  | .operatorName name limits => return some ⟨.operatorName name, limits⟩
  | .space width => return some (.side (.space width))
  | .sized factor => do
    match ← delimiter? with
    | some glyph => return some (.side (.scaled factor glyph.expr))
    | none =>
      note (.sizeWithoutDelimiter start)
      return none
  | .decoration kind mark side => do
    let base ← argument nested
    let mark := Expr.symbol kind mark
    let decorated := match side with
      | .above => Expr.over false base mark
      | .below => Expr.under false base mark
    return some ⟨decorated, if kind = .overMark || kind = .underMark then .fixed else .side⟩
  | .fraction style => do
    let numerator ← argument nested
    let denominator ← argument nested
    return some (.side (.fraction style numerator denominator))
  | .sqrt => do
    skipLayout
    if ← eat '[' then
      let index ← nested.sequence (some .bracket)
      let base ← argument nested
      return some (.side (.root (.ofList index) base))
    else return some (.side (.sqrt (← argument nested)))
  | .left => return some (.side (← delimited nested))
  | .beginEnvironment => return (← environment nested).map .side
  | .overset => do
    let above ← argument nested
    let base ← argument nested
    return some (.side (.over false base above))
  | .underset => do
    let below ← argument nested
    let base ← argument nested
    return some (.side (.under false base below))
  | .boxed => return some (.side (.boxed (← argument nested)))
  | .phantom => return some (.side (.phantom (← argument nested)))
  | .cancel stroke => return some (.side (.cancel stroke (← argument nested)))
  | .namedOperator limits => return some ⟨.operatorName (← textArgument), limits⟩
  | .limits _ | .ignored => return none
  | .right | .middle | .endEnvironment => do
    goTo start
    return none

/-- The argument of a style command. -/
def styled (nested : Nested) : StyleCommand → Walk Expr
  | .text style => return .text style (← textArgument)
  | .formula style => do
    skipLayout
    if ← eat '{' then return .styled style (← nested.sequence (some .brace))
    else return .styled style ((← nested.base).map Base.expr).toList

/-- A base that begins with a backslash.  An unknown command is put back. -/
def commandBase (nested : Nested) : Walk (Option Base) := do
  let start ← place
  match ← takeCommand? with
  | none => return none
  | some name =>
    match command? (String.ofList name) with
    | some found => command nested start found
    | none =>
      match delimiterSpelled? (← slice start (← place)) with
      | some glyph => return some (.side glyph.expr)
      | none =>
        match styleCommand? (String.ofList name) with
        | some style => return some (.side (← styled nested style))
        | none =>
          goTo start
          return none

/-- An expression without its scripts. -/
def base (nested : Nested) : Walk (Option Base) := do
  skipLayout
  match ← peek with
  | none => return none
  | some c =>
    if c = '{' then
      let _ ← readChar
      return some (.side (.group (← nested.sequence (some .brace))))
    else
      match ← number? with
      | some number => return some (.side number)
      | none =>
        if c = '\\' then commandBase nested
        else if c = '^' || c = '_' then return some (.side .empty)
        else if c = '\x27' then return some (.side (.primes (← primes)))
        else if c = '~' then
          let _ ← readChar
          return some (.side (.space 0.333))
        else
          match Expr.ofChar? c with
          | none => return none
          | some e =>
            let _ ← readChar
            return some (.side e)

namespace Nested

/-- The rules, with nested parts walked over up to the given depth. -/
def ofDepth : Nat → Nested
  | 0 =>
    { base := return none
      limits := fun place => return place
      sequence := fun _ => return []
      region := return ([], "")
      rows := fun _ _ => return [] }
  | depth + 1 =>
    { base := fun c => Walk.base (ofDepth depth) c
      limits := fun place c => Walk.limits (ofDepth depth) place c
      sequence := fun closer c => Walk.sequence (ofDepth depth) closer c
      region := fun c => Walk.region (ofDepth depth) c
      rows := fun row cell c => Walk.rows (ofDepth depth) row cell c }

end Nested

end Walk

/-- Walk over a whole formula, with nested parts up to the given depth.  The result is what has been
read and the cursor at the end. -/
def walk (depth : Nat) (text : String) : Parsed × Cursor :=
  match (Walk.Nested.ofDepth depth).sequence none (Cursor.start text) with
  | .ok formula finish => (⟨.ok (settleOperators formula), finish.notes.reverse⟩, finish)
  | .error unclosed finish => (⟨.error unclosed, finish.notes.reverse⟩, finish)

end OfficeMath
