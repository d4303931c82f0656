import OfficeMath.Proofs.Latex.Depth

/-!
# Rules with their calls left open

In the grammar a rule is given how the parts nested in it are read, and it calls the other rules
by itself.  To see what a rule calls, the calls are taken out of it here: `Answers` holds an answer
to every call of every rule, at every place, and `Answers.rules` are the rules over such answers,
each of which does nothing but its own steps and asks for the rest.

The answers that the grammar gives (`grammar`) are those that the rules over them give
(`rules_grammar`).  So nothing is lost, and nothing is described a second time: the rules below are
the rules of the grammar.

What a rule does at a place depends on few answers.  To every call belongs a number
(`callMeasure`), six for each character ahead and the rank of the rule, and a rule comes out the
same over answers that agree on calls of smaller numbers (`rules_same`).
-/

namespace OfficeMath

open Nested (unbounded)

/-- A rule of the grammar with its arguments. -/
inductive Rule where
  | base
  /-- A base that begins with a backslash. -/
  | commandBase
  /-- What follows the name of a command. -/
  | command (start : Nat) (found : Command)
  | styled (style : StyleCommand)
  | delimited
  | environment
  | argument
  | superscript
  | limits (place : Limits)
  | scripts (base : Base)
  | item
  | sequence (closer : Option Closer)
  | region
  | rows (row : Row) (cell : Cell)

/-- What a rule reads. -/
abbrev Rule.Result : Rule → Type
  | .base | .commandBase | .command _ _ => Option Base
  | .styled _ | .delimited | .argument | .superscript | .scripts _ => Expr
  | .environment | .item => Option Expr
  | .limits _ => Limits
  | .sequence _ => List Expr
  | .region => List Item × String
  | .rows _ _ => List Row

/-- An answer to every call of a rule, at every place. -/
abbrev Answers := (rule : Rule) → Reading rule.Result

namespace Answers

/-! ## The rules over answers -/

open Reading

section Rules

variable (ask : Answers)

/-- The nested parts of the grammar, as far as they are asked for. -/
def nested : Nested where
  base := ask .base
  limits place := ask (.limits place)
  sequence closer := ask (.sequence closer)
  region := ask .region
  rows row cell := ask (.rows row cell)

/-- A base: all but groups and commands is taken at once. -/
def base : Reading (Option Base) := do
  skipLayout
  match ← rest with
  | '{' :: _ =>
    advance 1
    return some (.side (.group (← ask (.sequence (some .brace)))))
  | '\\' :: _ => ask .commandBase
  | _ => Reading.base ask.nested

/-- A command without output is no base, and an unknown one is left where it is. -/
def commandBase : Reading (Option Base) := do
  match ← rest with
  | '\\' :: after =>
    let name := commandName after
    match Meaning.ofName? (String.ofList name) with
    | none => return none
    | some meaning =>
      match meaning with
      | .command found =>
        if isPartOfSurroundings found then return none
        else
          let start ← offset
          advance (1 + name.length)
          ask (.command start found)
      | .delimiter glyph =>
        advance (1 + name.length)
        return some (.side glyph.expr)
      | .style style =>
        advance (1 + name.length)
        return some (.side (← ask (.styled style)))
  | _ => return none

/-- The arguments of a command, each of them asked for. -/
def command (start : Nat) : Command → Reading (Option Base)
  | .decoration kind mark side => do
    let base ← ask .argument
    let mark := Expr.symbol kind mark
    let decorated := match side with
      | .above => Expr.over false base mark
      | .below => Expr.under false base mark
    return some ⟨decorated, if kind = .overMark || kind = .underMark then .fixed else .side⟩
  | .fraction style => do
    let numerator ← ask .argument
    let denominator ← ask .argument
    return some (.side (.fraction style numerator denominator))
  | .sqrt => do
    skipLayout
    match ← rest with
    | '[' :: _ =>
      advance 1
      let index ← ask (.sequence (some .bracket))
      let base ← ask .argument
      return some (.side (.root (.ofList index) base))
    | _ => return some (.side (.sqrt (← ask .argument)))
  | .left => return some (.side (← ask .delimited))
  | .beginEnvironment => return (← ask .environment).map .side
  | .overset => do
    let above ← ask .argument
    let base ← ask .argument
    return some (.side (.over false base above))
  | .underset => do
    let below ← ask .argument
    let base ← ask .argument
    return some (.side (.under false base below))
  | .boxed => return some (.side (.boxed (← ask .argument)))
  | .phantom => return some (.side (.phantom (← ask .argument)))
  | .cancel stroke => return some (.side (.cancel stroke (← ask .argument)))
  | found => Reading.command ask.nested start found

/-- A superscript: primes, or an argument that is asked for. -/
def superscript : Reading Expr := do
  skipLayout
  match ← primes with
  | 0 => ask .argument
  | count => return .primes count

/-- The loop through the scripts of a base. -/
def scriptsFrom : (bound : Nat) → Scripts → Reading Scripts
  | 0, scripts => return scripts
  | bound + 1, scripts => do
    skipLayout
    match (← rest).head? with
    | some '_' =>
      match scripts.lower with
      | some _ => return scripts
      | none =>
        advance 1
        let lower ← ask .argument
        scriptsFrom bound { scripts with lower := some lower }
    | some '^' =>
      match scripts.upper with
      | none =>
        advance 1
        let upper ← ask .superscript
        scriptsFrom bound { scripts with upper := some upper, onlyPrimes := false }
      | some primes =>
        if scripts.onlyPrimes then
          advance 1
          let upper ← ask .superscript
          scriptsFrom bound
            { scripts with upper := some (.group [primes, upper]), onlyPrimes := false }
        else return scripts
    | _ => return scripts

/-- The scripts of a base: the commands that move them are asked for. -/
def scripts (base : Base) : Reading Expr := do
  let place ← ask (.limits base.limits)
  let count ← primes
  let upper := if count = 0 then none else some (Expr.primes count)
  let scripts ← scriptsFrom ask 3 ⟨none, upper, upper.isSome⟩
  return base.expr.withScripts place scripts.lower scripts.upper

/-- An item: a base and its scripts. -/
def item : Reading (Option Expr) := do
  skipLayout
  let start ← offset
  match ← ask .base with
  | some base => return some (← ask (.scripts base))
  | none =>
    if (← offset) = start then skipToken
    return none

/-- A sequence: an item and the sequence behind it. -/
def sequence (closer : Option Closer) : Reading (List Expr) := do
  skipLayout
  match closer, ← rest with
  | none, [] => return []
  | some closer, [] => unclosed closer
  | some closer, c :: _ =>
    if c = closer.char then
      advance 1
      return []
    else next
  | none, _ :: _ => next
where
  /-- One item and the expressions after it. -/
  next : Reading (List Expr) := do
    let first ← ask .item
    return first.toList ++ (← ask (.sequence closer))

/-- The content of a delimited region: an item or a separator, and the content behind it. -/
def region : Reading (List Item × String) := do
  skipLayout
  match ← rest with
  | [] => Reading.region.missing
  | c :: after =>
    if c = '}' then Reading.region.missing
    else if c = '\\' then
      let name := commandName after
      if name = "end".toList then Reading.region.missing
      else if name = "right".toList then
        advance 6
        return ([], ← delimiterAfter "right")
      else if name = "middle".toList then
        advance 7
        let separator ← delimiterAfter "middle"
        let (items, closing) ← ask .region
        return (.separator separator :: items, closing)
      else next
    else next
where
  /-- One item and the content after it. -/
  next : Reading (List Item × String) := do
    let first ← ask .item
    let (items, closing) ← ask .region
    return (first.toList.map .expr ++ items, closing)

/-- The rows of an array: an item or a mark between cells, and the rows behind it. -/
def rows (row : Row) (cell : Cell) : Reading (List Row) := do
  skipLayout
  match ← rest with
  | [] => Reading.rows.missing row cell
  | c :: after =>
    if c = '}' then Reading.rows.missing row cell
    else if c = '&' then
      advance 1
      ask (.rows (row ++ [cell]) [])
    else if c = '\\' then
      let name := commandName after
      if name = ['\\'] then
        advance 2
        if (← rest).head? = some '[' then let _ ← through? ']'
        let others ← ask (.rows [] [])
        return (row ++ [cell]) :: others
      else if name = "end".toList then
        advance 4
        let _ ← environmentName?
        return Reading.rows.last row cell
      else next
    else next
where
  /-- One item and the rows after it. -/
  next : Reading (List Row) := do
    let first ← ask .item
    ask (.rows row (cell ++ first.toList))

/-- Every rule over answers.  Those that call nested parts alone are the rules of the grammar. -/
def rules : Answers
  | .base => base ask
  | .commandBase => commandBase ask
  | .command start found => command ask start found
  | .styled style => Reading.styled ask.nested style
  | .delimited => Reading.delimited ask.nested
  | .environment => Reading.environment ask.nested
  | .argument => Reading.argument ask.nested
  | .superscript => superscript ask
  | .limits place => Reading.limits ask.nested place
  | .scripts b => scripts ask b
  | .item => item ask
  | .sequence closer => sequence ask closer
  | .region => region ask
  | .rows row cell => rows ask row cell

end Rules

/-! ## The answers of the grammar -/

/-- The base that begins with the backslash ahead. -/
def commandAhead : Reading (Option Base) := do
  match ← rest with
  | '\\' :: after => Reading.commandBase unbounded after
  | _ => return none

/-- The answers that the grammar gives. -/
def grammar : Answers
  | .base => unbounded.base
  | .commandBase => commandAhead
  | .command start found => Reading.command unbounded start found
  | .styled style => Reading.styled unbounded style
  | .delimited => Reading.delimited unbounded
  | .environment => Reading.environment unbounded
  | .argument => Reading.argument unbounded
  | .superscript => Reading.superscript unbounded
  | .limits place => unbounded.limits place
  | .scripts b => Reading.scripts unbounded b
  | .item => Reading.item unbounded
  | .sequence closer => unbounded.sequence closer
  | .region => unbounded.region
  | .rows row cell => unbounded.rows row cell

/-- Going forward, whatever is asked for. -/
theorem forward_grammar (rule : Rule) : (grammar rule).Forward := by
  have h := Nested.forward_unbounded
  cases rule with
  | base => exact h.base
  | commandBase =>
    refine .bind .rest fun ahead => ?_
    split
    · exact forward_commandBase h _
    · exact .pure _
  | command start found => exact forward_command h start found
  | styled style => exact forward_styled h style
  | delimited => exact forward_delimited h
  | environment => exact forward_environment h
  | argument => exact forward_argument h
  | superscript => exact forward_superscript h
  | limits place => exact h.limits place
  | scripts b => exact forward_scripts h b
  | item => exact forward_item h
  | sequence closer => exact h.sequence closer
  | region => exact h.region
  | rows row cell => exact h.rows row cell

/-- Where a backslash is ahead, a base is what the command behind it is. -/
theorem run_commandAhead {s : Scan} {after : List Char} (hs : s.rest = '\\' :: after) :
    commandAhead s = Reading.commandBase unbounded after s := by
  unfold commandAhead
  rw [run_bind_ok (run_rest s), hs]
  rfl

/-- A base over the answers of the grammar is a base. -/
theorem base_grammar : base grammar = unbounded.base := by
  funext s
  rw [Nested.base_unbounded]
  refine SameAt.layout (s := s) fun t _ hlayout => .rest ?_
  have hskip : skipLayout t = .ok () t := by rw [run_skipLayout, hlayout, Scan.advance_zero]
  split
  · next after hrest =>
    rw [hrest]
    rfl
  · next after hrest =>
    rw [hrest]
    exact run_commandAhead hrest
  · unfold SameAt Reading.base
    rw [run_bind_ok hskip, run_bind_ok (run_rest t)]
    rfl

/-- So is the loop through scripts, round by round. -/
theorem scriptsFrom_grammar (bound : Nat) (found : Scripts) :
    scriptsFrom grammar bound found = Reading.scriptsFrom unbounded bound found := by
  induction bound generalizing found with
  | zero => rfl
  | succ bound ih =>
    unfold scriptsFrom Reading.scriptsFrom
    simp only [ih]
    rfl

/-- **The rules over answers are the rules of the grammar.** -/
theorem rules_grammar (rule : Rule) : grammar.rules rule = grammar rule := by
  cases rule with
  | base => exact base_grammar
  | commandBase =>
    refine bind_congr fun ahead => ?_
    split
    · rfl
    · rfl
  | command start found => cases found <;> rfl
  | styled style => rfl
  | delimited => rfl
  | environment => rfl
  | argument => rfl
  | superscript => rfl
  | limits place => exact (Nested.limits_unbounded place).symm
  | scripts b =>
    show scripts grammar b = Reading.scripts unbounded b
    unfold scripts Reading.scripts
    simp only [scriptsFrom_grammar]
    rw [← Nested.limits_unbounded]
    rfl
  | item => rfl
  | sequence closer => exact (Nested.sequence_unbounded closer).symm
  | region => exact Nested.region_unbounded.symm
  | rows row cell => exact (Nested.rows_unbounded row cell).symm

end Answers

/-! ## What a rule depends on -/

/-- The order of the rules that call one another without having moved on. -/
def Rule.rank : Rule → Nat
  | .commandBase | .limits _ => 0
  | .base | .scripts _ => 1
  | .argument | .styled _ | .item => 2
  | .superscript | .sequence _ | .region | .rows _ _ => 3
  | .delimited | .environment => 4
  | .command _ _ => 5

/-- There are six ranks, so that a character more ahead outweighs any of them. -/
theorem Rule.rank_le (rule : Rule) : rule.rank ≤ 5 := by
  cases rule <;> simp [rank]

/-- The number of a call: six for each character ahead, and the rank. -/
def callMeasure (called : Rule × Scan) : Nat := 6 * called.2.rest.length + called.1.rank

namespace Answers

open Reading

/-- Answers that are the same for all calls with smaller numbers. -/
def SameBelow (A B : Answers) (n : Nat) : Prop :=
  ∀ (rule : Rule) (s : Scan), callMeasure (rule, s) < n → A rule s = B rule s

/-- A call with a smaller number is answered in the same way. -/
theorem SameBelow.ask {A B : Answers} {n : Nat} (h : A.SameBelow B n) (rule : Rule) (rank : Nat)
    (hrank : rule.rank = rank) {s : Scan} (hs : 6 * s.rest.length + rank < n) :
    SameAt s (A rule) (B rule) := by
  refine h rule s ?_
  rw [callMeasure, hrank]
  exact hs

/-- Nested parts that are the same. -/
theorem SameBelow.nested {A B : Answers} {n : Nat} (h : A.SameBelow B n) {i j : Nat}
    (hi : 6 * i < n + 5) (hj : 6 * j < n + 3) : A.nested.Agree B.nested i j where
  base s hs := h.ask .base 1 rfl (by omega)
  limits place s hs := h.ask (.limits place) 0 rfl (by omega)
  sequence closer s hs := h.ask (.sequence closer) 3 rfl (by omega)
  region s hs := h.ask .region 3 rfl (by omega)
  rows row cell s hs := h.ask (.rows row cell) 3 rfl (by omega)

section Same

variable {other : Answers} {n : Nat} {s : Scan}

/-- A base. -/
theorem base_same (h : grammar.SameBelow other (6 * s.rest.length + 1)) :
    SameAt s (base grammar) (base other) := by
  refine .seq forward_skipLayout fun _ t ht => .rest ?_
  split
  · next hrest =>
    have hne : t.rest ≠ [] := by simp [hrest]
    refine .advance hne Nat.one_pos fun u hu => ?_
    exact .map (h.ask (.sequence _) 3 rfl (by omega))
  · exact h.ask .commandBase 0 rfl (by omega)
  · have hnested : grammar.nested.Agree other.nested t.rest.length t.rest.length :=
      h.nested (by omega) (by omega)
    exact Reading.base_same Nested.forward_unbounded hnested (Nat.le_refl _) (Nat.le_refl _)

/-- A base that begins with a backslash asks for nothing before it has taken the name. -/
theorem commandBase_same (h : grammar.SameBelow other (6 * s.rest.length)) :
    SameAt s (commandBase grammar) (commandBase other) := by
  refine .rest ?_
  split
  · next after hrest =>
    have hne : s.rest ≠ [] := by simp [hrest]
    dsimp only
    split
    · exact .refl _
    split
    · split
      · exact .refl _
      · refine .offset (.advance hne (by omega) fun t ht => ?_)
        exact h.ask (.command _ _) 5 rfl (by omega)
    · exact .refl _
    · refine .advance hne (by omega) fun t ht => ?_
      exact .map (h.ask (.styled _) 2 rfl (by omega))
  · exact .refl _

/-- What follows the name of a command. -/
theorem command_same (h : grammar.SameBelow other (6 * s.rest.length + 5)) (start : Nat)
    (found : Command) : SameAt s (command grammar start found) (command other start found) := by
  have hargument {t : Scan} (ht : t.rest.length ≤ s.rest.length) :
      SameAt t (grammar .argument) (other .argument) := h.ask .argument 2 rfl (by omega)
  have htwo (f : Expr → Expr → Option Base) :
      SameAt s
        (grammar .argument >>= fun first => grammar .argument >>= fun second =>
          pure (f first second))
        (other .argument >>= fun first => other .argument >>= fun second =>
          pure (f first second)) := by
    refine .bind (hargument (Nat.le_refl _)) (forward_grammar _) fun _ t ht => ?_
    exact .map (hargument ht)
  cases found with
  | decoration | boxed | phantom | cancel => exact .map (hargument (Nat.le_refl _))
  | fraction | overset | underset => exact htwo _
  | sqrt =>
    refine .seq forward_skipLayout fun _ t ht => .rest ?_
    split
    · next hrest =>
      have hne : t.rest ≠ [] := by simp [hrest]
      refine .advance hne Nat.one_pos fun u hu => ?_
      have hindex : SameAt u (grammar (.sequence (some .bracket))) (other (.sequence _)) :=
        h.ask (.sequence _) 3 rfl (by omega)
      refine .bind hindex (forward_grammar _) fun _ v hv => ?_
      exact .map (hargument (by omega))
    · exact .map (hargument ht)
  | left => exact .map (h.ask .delimited 4 rfl (by omega))
  | beginEnvironment => exact .map (h.ask .environment 4 rfl (by omega))
  | symbol | identifier | operatorName | space | sized | namedOperator | limits | ignored | right
  | middle | endEnvironment => exact .refl _

/-- One more part of a superscript. -/
theorem superscript_same (h : grammar.SameBelow other (6 * s.rest.length + 3)) :
    SameAt s (superscript grammar) (superscript other) := by
  refine .seq forward_skipLayout fun _ t ht => .seq forward_primes fun count u hu => ?_
  split
  · exact h.ask .argument 2 rfl (by omega)
  · exact .refl _

/-- The loop through scripts asks for nothing before it has taken the mark of a script. -/
theorem scriptsFrom_same (h : grammar.SameBelow other (6 * s.rest.length)) (bound : Nat)
    (found : Scripts) :
    SameAt s (scriptsFrom grammar bound found) (scriptsFrom other bound found) := by
  induction bound generalizing found s with
  | zero => exact .refl _
  | succ bound ih =>
    refine .seq forward_skipLayout fun _ t ht => .rest ?_
    have hne {c : Char} (hhead : t.rest.head? = some c) : t.rest ≠ [] := by
      intro hnone
      simp [hnone] at hhead
    -- Behind the mark the script is asked for, and behind the script the loop goes on.
    have hscript (rule : Rule) (f : rule.Result → Scripts) (hrest : t.rest ≠ []) :
        SameAt t (advance 1 >>= fun _ => grammar rule >>= fun e => scriptsFrom grammar bound (f e))
          (advance 1 >>= fun _ => other rule >>= fun e => scriptsFrom other bound (f e)) := by
      have hrank := rule.rank_le
      refine .advance hrest Nat.one_pos fun u hu => ?_
      refine .bind (h.ask rule _ rfl (by omega)) (forward_grammar _) fun _ v hv => ?_
      exact ih (fun asked place hless => h asked place (by omega)) _
    split
    · next hhead =>
      split
      · exact .refl _
      · exact hscript .argument _ (hne hhead)
    · next hhead =>
      split
      · exact hscript .superscript _ (hne hhead)
      split
      · exact hscript .superscript _ (hne hhead)
      · exact .refl _
    · exact .refl _

/-- The scripts of a base. -/
theorem scripts_same (h : grammar.SameBelow other (6 * s.rest.length + 1)) (b : Base) :
    SameAt s (scripts grammar b) (scripts other b) := by
  have hplace : SameAt s (grammar (.limits b.limits)) (other (.limits b.limits)) :=
    h.ask (.limits _) 0 rfl (by omega)
  refine .bind hplace (forward_grammar _) fun _ t ht => .seq forward_primes fun _ u hu => ?_
  exact .map (scriptsFrom_same (fun asked place hless => h asked place (by omega)) _ _)

/-- An item: its base, and the scripts of the base where it ends. -/
theorem item_same (h : grammar.SameBelow other (6 * s.rest.length + 2)) :
    SameAt s (item grammar) (item other) := by
  refine .seq forward_skipLayout fun _ t ht => .seq .offset fun _ u hu => ?_
  refine .bind (h.ask .base 1 rfl (by omega)) (forward_grammar _) fun found v hv => ?_
  split
  · exact .map (h.ask (.scripts _) 1 rfl (by omega))
  · exact .refl _

/-- An item and what comes after it, where the formula goes on. -/
theorem item_bind_same {α : Type} {f f' : Option Expr → Reading α}
    (h : SameAt s (grammar .item) (other .item)) (hrest : s.rest ≠ [])
    (hlayout : layoutLength s.rest = 0)
    (hf : ∀ found (t : Scan), t.rest.length < s.rest.length → SameAt t (f found) (f' found)) :
    SameAt s (grammar .item >>= f) (other .item >>= f') := by
  refine SameAt.trans ?_ (.map h)
  have hahead : layoutLength s.rest < s.rest.length := by
    rw [hlayout]
    exact List.length_pos_iff.mpr hrest
  unfold SameAt
  cases hrun : grammar .item s with
  | ok found t =>
    rw [run_bind_ok hrun, run_bind_ok hrun]
    exact hf found t (length_item_lt Nested.forward_unbounded hrun hahead)
  | error e t => rw [run_bind_error hrun, run_bind_error hrun]

/-- A sequence goes on behind an item. -/
theorem sequence_same (h : grammar.SameBelow other (6 * s.rest.length + 3))
    (closer : Option Closer) : SameAt s (sequence grammar closer) (sequence other closer) := by
  refine .layout fun t ht hlayout => .rest ?_
  have hnext (hne : t.rest ≠ []) :
      SameAt t (sequence.next grammar closer) (sequence.next other closer) := by
    refine item_bind_same (h.ask .item 2 rfl (by omega)) hne hlayout fun _ u hu => ?_
    exact .map (h.ask (.sequence closer) 3 rfl (by omega))
  cases hrest : t.rest with
  | nil => cases closer <;> exact .refl _
  | cons c after =>
    have hne : t.rest ≠ [] := by simp [hrest]
    cases closer with
    | none => exact hnext hne
    | some closer =>
      dsimp only
      split
      · exact .refl _
      · exact hnext hne

/-- A region goes on behind an item or a separator. -/
theorem region_same (h : grammar.SameBelow other (6 * s.rest.length + 3)) :
    SameAt s (region grammar) (region other) := by
  refine .layout fun t ht hlayout => .rest ?_
  have hregion {u : Scan} (hu : u.rest.length < s.rest.length) :
      SameAt u (grammar .region) (other .region) := h.ask .region 3 rfl (by omega)
  cases hrest : t.rest with
  | nil => exact .refl _
  | cons c after =>
    have hne : t.rest ≠ [] := by simp [hrest]
    have hnext : SameAt t (region.next grammar) (region.next other) := by
      refine item_bind_same (h.ask .item 2 rfl (by omega)) hne hlayout fun _ u hu => ?_
      exact .map (hregion (by omega))
    dsimp only
    split
    · exact .refl _
    split
    · split
      · exact .refl _
      split
      · exact .refl _
      split
      · refine .advance hne (by omega) fun u hu => .seq (forward_delimiterAfter _) fun _ v hv => ?_
        exact .map (hregion (by omega))
      · exact hnext
    · exact hnext

/-- The rows of an array go on behind an item or a mark. -/
theorem rows_same (h : grammar.SameBelow other (6 * s.rest.length + 3)) (row : Row)
    (cell : Cell) : SameAt s (rows grammar row cell) (rows other row cell) := by
  refine .layout fun t ht hlayout => .rest ?_
  have hrows (row : Row) (cell : Cell) {u : Scan} (hu : u.rest.length < s.rest.length) :
      SameAt u (grammar (.rows row cell)) (other (.rows row cell)) :=
    h.ask (.rows row cell) 3 rfl (by omega)
  cases hrest : t.rest with
  | nil => exact .refl _
  | cons c after =>
    have hne : t.rest ≠ [] := by simp [hrest]
    have hnext : SameAt t (rows.next grammar row cell) (rows.next other row cell) := by
      refine item_bind_same (h.ask .item 2 rfl (by omega)) hne hlayout fun _ u hu => ?_
      exact hrows _ _ (by omega)
    dsimp only
    split
    · exact .refl _
    split
    · exact .advance hne Nat.one_pos fun u hu => hrows _ _ (by omega)
    split
    · split
      · refine .advance hne (by omega) fun u hu => .rest ?_
        split
        · exact .seq (forward_through _) fun _ v hv => .map (hrows _ _ (by omega))
        · exact .map (hrows _ _ (by omega))
      split
      · exact .refl _
      · exact hnext
    · exact hnext

/-- The argument of a style command may begin where the name of the command ends. -/
theorem styled_same (h : grammar.SameBelow other (6 * s.rest.length + 2))
    (style : StyleCommand) :
    SameAt s (Reading.styled grammar.nested style) (Reading.styled other.nested style) := by
  have hnested : grammar.nested.Agree other.nested (s.rest.length + 1) s.rest.length :=
    h.nested (by omega) (by omega)
  exact Reading.styled_same hnested (Nat.lt_succ_self _) (Nat.le_refl _) style

/-- An argument may be a base that begins at the same place. -/
theorem argument_same (h : grammar.SameBelow other (6 * s.rest.length + 2)) :
    SameAt s (Reading.argument grammar.nested) (Reading.argument other.nested) := by
  have hnested : grammar.nested.Agree other.nested (s.rest.length + 1) s.rest.length :=
    h.nested (by omega) (by omega)
  exact Reading.argument_same hnested (Nat.lt_succ_self _) (Nat.le_refl _)

/-- Commands that move scripts ask for more of them behind their own names. -/
theorem limits_same (h : grammar.SameBelow other (6 * s.rest.length)) (place : Limits) :
    SameAt s (Reading.limits grammar.nested place) (Reading.limits other.nested place) := by
  have hnested : grammar.nested.Agree other.nested s.rest.length 0 :=
    h.nested (by omega) (by omega)
  exact Reading.limits_same hnested (Nat.le_refl _) place

/-- What is between delimiters may begin where `\left` ends, if no delimiter follows it. -/
theorem delimited_same (h : grammar.SameBelow other (6 * s.rest.length + 4)) :
    SameAt s (Reading.delimited grammar.nested) (Reading.delimited other.nested) := by
  have hnested : grammar.nested.Agree other.nested 0 (s.rest.length + 1) :=
    h.nested (by omega) (by omega)
  exact Reading.delimited_same hnested (Nat.lt_succ_self _)

/-- An environment asks for its rows behind its name. -/
theorem environment_same (h : grammar.SameBelow other (6 * s.rest.length + 4)) :
    SameAt s (Reading.environment grammar.nested) (Reading.environment other.nested) := by
  have hnested : grammar.nested.Agree other.nested 0 (s.rest.length + 1) :=
    h.nested (by omega) (by omega)
  exact Reading.environment_same hnested (Nat.lt_succ_self _)

/-- **A rule comes out the same** over answers that agree on calls with smaller numbers. -/
theorem rules_same {rule : Rule} (h : grammar.SameBelow other (callMeasure (rule, s))) :
    SameAt s (grammar.rules rule) (other.rules rule) := by
  cases rule with
  | base => exact base_same h
  | commandBase => exact commandBase_same h
  | command start found => exact command_same h start found
  | styled style => exact styled_same h style
  | delimited => exact delimited_same h
  | environment => exact environment_same h
  | argument => exact argument_same h
  | superscript => exact superscript_same h
  | limits place => exact limits_same h place
  | scripts b => exact scripts_same h b
  | item => exact item_same h
  | sequence closer => exact sequence_same h closer
  | region => exact region_same h
  | rows row cell => exact rows_same h row cell

end Same

end Answers

end OfficeMath
