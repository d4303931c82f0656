import OfficeMath.Proofs.Latex.Approach
import OfficeMath.Proofs.Latex.SideBySide

/-!
# Reading depends on the text ahead alone

What a rule makes of a text is the same wherever in a formula this text stands, and whatever has
been noted before.  Offsets are read at a few places, but they go into notes, with one exception:
an item asks whether the offset has changed, and it has changed exactly if what is ahead has
(`Scan.Leads.offset_eq_iff`).

* `Reading.TextOnly` — two steps come to the same thing wherever the same text is ahead;
* `Nested.textOnly_approach`, `Nested.textOnly_unbounded` — every rule does so, to any depth and
  without a bound;
* `Reading.sequence_anywhere` — a sequence that can be read in one place can be read in any other.
-/

namespace OfficeMath

/-- Reading on has changed the offset exactly if it has changed what is ahead. -/
theorem Scan.Leads.offset_eq_iff {s t : Scan} (h : s.Leads t) :
    t.offset = s.offset ↔ t.rest = s.rest := by
  constructor
  · exact h.rest_eq_of_offset_eq
  · intro hrest
    by_cases heq : t.offset = s.offset
    · exact heq
    · have hlt := h.length_lt_of_offset_ne heq
      rw [hrest] at hlt
      exact absurd hlt (Nat.lt_irrefl _)

namespace Reading

variable {α β : Type}

/-- Two steps come to the same thing wherever the same text is ahead of them. -/
def TextOnly (m m' : Reading α) : Prop := ∀ s u : Scan, s.rest = u.rest → Alike Eq s u m m'

namespace TextOnly

variable {m m' n n' : Reading α} {f f' : α → Reading β}

theorem pure (a : α) : TextOnly (Pure.pure a : Reading α) (Pure.pure a) :=
  fun _ _ h => .pure a h

theorem unclosed (closer : Closer) :
    TextOnly (Reading.unclosed closer : Reading α) (Reading.unclosed closer) :=
  fun _ _ _ => .unclosed closer

/-- Notes may differ, since they tell the place. -/
theorem note (n n' : Note) : TextOnly (Reading.note n) (Reading.note n') :=
  fun _ _ h => .note n n' h

theorem advance (count : Nat) : TextOnly (Reading.advance count) (Reading.advance count) :=
  fun _ _ h => ⟨rfl, rest_advance_eq h count⟩

/-- Two steps in a row. -/
theorem bind (first : TextOnly m m') (second : ∀ a, TextOnly (f a) (f' a)) :
    TextOnly (m >>= f) (m' >>= f') := by
  intro s u h
  exact .bind (first s u h) fun a t v _ _ hrest => second a t v hrest

/-- Looking ahead shows the same text. -/
theorem rest {f f' : List Char → Reading β} (h : ∀ ahead, TextOnly (f ahead) (f' ahead)) :
    TextOnly (Reading.rest >>= f) (Reading.rest >>= f') := by
  intro s u hrest
  refine .rest ?_
  rw [← hrest]
  exact h s.rest s u hrest

/-- Looking at the offset may show anything. -/
theorem offset {f f' : Nat → Reading β} (h : ∀ start start', TextOnly (f start) (f' start')) :
    TextOnly (Reading.offset >>= f) (Reading.offset >>= f') :=
  fun s u hrest => .offset (h s.offset u.offset s u hrest)

theorem ite {c : Prop} [Decidable c] (yes : c → TextOnly m m') (no : ¬ c → TextOnly n n') :
    TextOnly (if c then m else n) (if c then m' else n') := by
  intro s u h
  exact .ite .rfl (fun hc _ => yes hc s u h) fun hc _ => no hc s u h

end TextOnly

/-! ## The lexical steps -/

/-- Layout is told from the text. -/
theorem textOnly_skipLayout : TextOnly skipLayout skipLayout :=
  .rest fun _ => .advance _

/-- So are apostrophes. -/
theorem textOnly_primes : TextOnly primes primes :=
  .rest fun _ => .bind (.advance _) fun _ => .pure _

/-- So is a delimiter. -/
theorem textOnly_delimiter : TextOnly delimiter? delimiter? := by
  refine .bind textOnly_skipLayout fun _ => .rest fun ahead => ?_
  split
  · exact .bind (.advance _) fun _ => .pure _
  · exact .pure _

/-- A missing delimiter is noted at its place, and the note does not count. -/
theorem textOnly_delimiterAfter (command : String) :
    TextOnly (delimiterAfter command) (delimiterAfter command) := by
  refine .bind textOnly_delimiter fun found => ?_
  split
  · exact .pure _
  · exact .offset fun _ _ => .bind (.note _ _) fun _ => .pure _

/-- The name of an environment is told from the text. -/
theorem textOnly_environmentName : TextOnly environmentName? environmentName? :=
  fun _ _ h => alike_environmentName h

/-- So is a column specification, also one that is not closed. -/
theorem textOnly_columnSpecification : TextOnly columnSpecification columnSpecification := by
  refine .bind textOnly_skipLayout fun _ => .rest fun ahead => ?_
  split
  · refine .bind (.advance _) fun _ => ?_
    split
    · exact .bind (.advance _) fun _ => .pure _
    · exact .bind (.advance _) fun _ => .unclosed _
  · exact .pure _

/-- Plain text is told from the text ahead, by induction on the bound. -/
theorem textOnly_textFrom (bound depth : Nat) (text : List Char) :
    TextOnly (textFrom bound depth text) (textFrom bound depth text) := by
  induction bound generalizing depth text with
  | zero => exact .unclosed _
  | succ bound ih =>
    refine .rest fun ahead => ?_
    cases ahead with
    | nil => exact .unclosed _
    | cons c after =>
      refine .offset fun _ _ => .bind (.advance _) fun _ => ?_
      split
      · cases depth with
        | zero => exact .pure _
        | succ depth => exact ih _ _
      split
      · exact ih _ _
      split
      · exact ih _ _
      split
      · refine .bind (.advance _) fun _ => ?_
        split
        · exact ih _ _
        split
        · exact .bind (.note _ _) fun _ => ih _ _
        · exact ih _ _
      split
      · exact ih _ _
      · exact ih _ _

/-- So is a text argument. -/
theorem textOnly_textArgument : TextOnly textArgument textArgument := by
  refine .bind textOnly_skipLayout fun _ => .rest fun ahead => ?_
  split
  · exact .pure _
  refine .bind (.advance _) fun _ => ?_
  split
  · exact textOnly_textFrom _ _ _
  · exact .pure _

/-- A token that is dropped is noted with its place, and the note does not count. -/
theorem textOnly_skipToken : TextOnly skipToken skipToken := by
  refine .offset fun _ _ => .rest fun ahead => ?_
  cases ahead with
  | nil => exact .pure _
  | cons c after =>
    refine .bind (.advance _) fun _ => ?_
    split
    · refine .bind (.advance _) fun _ => ?_
      split
      · exact .bind textOnly_environmentName fun _ => .note _ _
      split
      · exact .bind textOnly_delimiter fun _ => .note _ _
      · exact .note _ _
    · exact .note _ _

end Reading

/-! ## The rules of the grammar -/

/-- Nested parts are read in the same way wherever the same text is ahead. -/
structure Nested.TextOnly (nested : Nested) : Prop where
  base : Reading.TextOnly nested.base nested.base
  limits : ∀ place, Reading.TextOnly (nested.limits place) (nested.limits place)
  sequence : ∀ closer, Reading.TextOnly (nested.sequence closer) (nested.sequence closer)
  region : Reading.TextOnly nested.region nested.region
  rows : ∀ row cell, Reading.TextOnly (nested.rows row cell) (nested.rows row cell)
  forward : nested.Forward

namespace Reading

variable {nested : Nested}

/-- An argument depends on the place no more than what is nested in it. -/
theorem textOnly_argument (hn : nested.TextOnly) :
    TextOnly (argument nested) (argument nested) := by
  refine .bind textOnly_skipLayout fun _ => .rest fun ahead => ?_
  cases ahead with
  | nil => exact .pure _
  | cons c after =>
    dsimp only
    split
    · exact .bind (.advance _) fun _ => .bind (hn.sequence _) fun _ => .pure _
    split
    · exact .bind (.advance _) fun _ => .pure _
    · refine .bind hn.base fun found => ?_
      cases found with
      | some b => exact .pure _
      | none => exact .pure _

/-- So do commands that move scripts. -/
theorem textOnly_limits (hn : nested.TextOnly) (place : Limits) :
    TextOnly (Reading.limits nested place) (Reading.limits nested place) := by
  refine .bind textOnly_skipLayout fun _ => .rest fun ahead => ?_
  split
  · exact .bind (.advance _) fun _ => hn.limits _
  · exact .bind (.advance _) fun _ => hn.limits _
  · exact .pure _

/-- A superscript is a run of apostrophes or an argument. -/
theorem textOnly_superscript (hn : nested.TextOnly) :
    TextOnly (superscript nested) (superscript nested) := by
  refine .bind textOnly_skipLayout fun _ => .bind textOnly_primes fun count => ?_
  cases count with
  | zero => exact textOnly_argument hn
  | succ count => exact .pure _

/-- The loop for scripts looks at the text ahead alone, by induction on the bound. -/
theorem textOnly_scriptsFrom (hn : nested.TextOnly) (bound : Nat) (scripts : Scripts) :
    TextOnly (scriptsFrom nested bound scripts) (scriptsFrom nested bound scripts) := by
  induction bound generalizing scripts with
  | zero => exact .pure _
  | succ bound ih =>
    refine .bind textOnly_skipLayout fun _ => .rest fun ahead => ?_
    split
    · split
      · exact .pure _
      · exact .bind (.advance _) fun _ => .bind (textOnly_argument hn) fun _ => ih _
    · split
      · exact .bind (.advance _) fun _ => .bind (textOnly_superscript hn) fun _ => ih _
      split
      · exact .bind (.advance _) fun _ => .bind (textOnly_superscript hn) fun _ => ih _
      · exact .pure _
    · exact .pure _

/-- Scripts are their commands, apostrophes and the loop. -/
theorem textOnly_scripts (hn : nested.TextOnly) (b : Base) :
    TextOnly (scripts nested b) (scripts nested b) := by
  refine .bind (textOnly_limits hn _) fun place => .bind textOnly_primes fun count => ?_
  exact .bind (textOnly_scriptsFrom hn _ _) fun _ => .pure _

/-- A token is skipped where nothing has been taken, and so in one place if in the other. -/
theorem textOnly_item (hn : nested.TextOnly) : TextOnly (item nested) (item nested) := by
  refine .bind textOnly_skipLayout fun _ => ?_
  intro s u hsu
  refine .offset (.bind (hn.base s u hsu) fun found t v ht hv htv => ?_)
  cases found with
  | some b => exact .map (textOnly_scripts hn b t v htv)
  | none =>
    have hmoved : t.offset = s.offset ↔ v.offset = u.offset := by
      rw [(hn.forward.base.leads ht).offset_eq_iff, (hn.forward.base.leads hv).offset_eq_iff, hsu,
        htv]
    refine .offset (.ite hmoved (fun _ _ => ?_) fun _ _ => .pure _ htv)
    exact .map (textOnly_skipToken t v htv)

/-- A sequence looks for its closer in the text ahead. -/
theorem textOnly_sequence (hn : nested.TextOnly) (closer : Option Closer) :
    TextOnly (sequence nested closer) (sequence nested closer) := by
  have hnext : TextOnly (sequence.next nested closer) (sequence.next nested closer) :=
    .bind (textOnly_item hn) fun _ => .bind (hn.sequence _) fun _ => .pure _
  refine .bind textOnly_skipLayout fun _ => .rest fun ahead => ?_
  cases ahead with
  | nil =>
    cases closer with
    | none => exact .pure _
    | some closer => exact .unclosed _
  | cons c after =>
    cases closer with
    | none => exact hnext
    | some closer =>
      dsimp only
      split
      · exact .bind (.advance _) fun _ => .pure _
      · exact hnext

/-- A region looks for its commands in the text ahead. -/
theorem textOnly_region (hn : nested.TextOnly) : TextOnly (region nested) (region nested) := by
  have hmissing : TextOnly region.missing region.missing :=
    .offset fun _ _ => .bind (.note _ _) fun _ => .pure _
  have hnext : TextOnly (region.next nested) (region.next nested) :=
    .bind (textOnly_item hn) fun _ => .bind hn.region fun _ => .pure _
  refine .bind textOnly_skipLayout fun _ => .rest fun ahead => ?_
  cases ahead with
  | nil => exact hmissing
  | cons c after =>
    dsimp only
    split
    · exact hmissing
    split
    · split
      · exact hmissing
      split
      · exact .bind (.advance _) fun _ => .bind (textOnly_delimiterAfter _) fun _ => .pure _
      split
      · refine .bind (.advance _) fun _ => .bind (textOnly_delimiterAfter _) fun _ => ?_
        exact .bind hn.region fun _ => .pure _
      · exact hnext
    · exact hnext

/-- Rows look for their marks in the text ahead. -/
theorem textOnly_rows (hn : nested.TextOnly) (row : Row) (cell : Cell) :
    TextOnly (rows nested row cell) (rows nested row cell) := by
  have hmissing : TextOnly (rows.missing row cell) (rows.missing row cell) :=
    .offset fun _ _ => .bind (.note _ _) fun _ => .pure _
  have hnext : TextOnly (rows.next nested row cell) (rows.next nested row cell) :=
    .bind (textOnly_item hn) fun _ => hn.rows _ _
  have hothers : TextOnly (nested.rows [] [] >>= fun others => pure ((row ++ [cell]) :: others))
      (nested.rows [] [] >>= fun others => pure ((row ++ [cell]) :: others)) :=
    .bind (hn.rows _ _) fun _ => .pure _
  have hthrough : TextOnly (through? ']') (through? ']') := fun _ _ h => alike_through _ h
  refine .bind textOnly_skipLayout fun _ => .rest fun ahead => ?_
  cases ahead with
  | nil => exact hmissing
  | cons c after =>
    dsimp only
    split
    · exact hmissing
    split
    · exact .bind (.advance _) fun _ => hn.rows _ _
    split
    · split
      · refine .bind (.advance _) fun _ => .rest fun ahead => ?_
        split
        · exact .bind hthrough fun _ => hothers
        · exact hothers
      split
      · exact .bind (.advance _) fun _ => .bind textOnly_environmentName fun _ => .pure _
      · exact hnext
    · exact hnext

/-- An environment is chosen by its name. -/
theorem textOnly_environment (hn : nested.TextOnly) :
    TextOnly (environment nested) (environment nested) := by
  refine .bind textOnly_environmentName fun found => ?_
  cases found with
  | none => exact .offset fun _ _ => .bind (.note _ _) fun _ => .pure _
  | some name =>
    dsimp only
    split
    · refine .bind (.note _ _) fun _ => .bind (fun _ _ h => ?_) fun _ => .pure _
      exact alike_skipEnvironment name h
    · refine .ite (fun _ => .bind textOnly_columnSpecification fun _ => ?_) fun _ =>
        .bind (.pure _) fun _ => ?_
      all_goals
        refine .bind (hn.rows _ _) fun _ => ?_
        split
        · exact .pure _
        · exact .pure _

/-- A delimited region is a delimiter and its content. -/
theorem textOnly_delimited (hn : nested.TextOnly) :
    TextOnly (delimited nested) (delimited nested) :=
  .bind (textOnly_delimiterAfter _) fun _ => .bind hn.region fun _ => .pure _

/-- A command needs the place of its backslash for a note only. -/
theorem textOnly_command (hn : nested.TextOnly) (start start' : Nat) (found : Command) :
    TextOnly (command nested start found) (command nested start' found) := by
  cases found with
  | symbol | identifier | operatorName | space | limits | ignored | right | middle
  | endEnvironment => exact .pure _
  | sized factor =>
    refine .bind textOnly_delimiter fun found => ?_
    cases found with
    | some glyph => exact .pure _
    | none => exact .bind (.note _ _) fun _ => .pure _
  | decoration | boxed | phantom | cancel => exact .bind (textOnly_argument hn) fun _ => .pure _
  | fraction | overset | underset =>
    exact .bind (textOnly_argument hn) fun _ => .bind (textOnly_argument hn) fun _ => .pure _
  | sqrt =>
    refine .bind textOnly_skipLayout fun _ => .rest fun ahead => ?_
    split
    · refine .bind (.advance _) fun _ => .bind (hn.sequence _) fun _ => ?_
      exact .bind (textOnly_argument hn) fun _ => .pure _
    · exact .bind (textOnly_argument hn) fun _ => .pure _
  | left => exact .bind (textOnly_delimited hn) fun _ => .pure _
  | beginEnvironment => exact .bind (textOnly_environment hn) fun _ => .pure _
  | namedOperator => exact .bind textOnly_textArgument fun _ => .pure _

/-- The argument of a style command is chosen by the character ahead. -/
theorem textOnly_styled (hn : nested.TextOnly) (style : StyleCommand) :
    TextOnly (styled nested style) (styled nested style) := by
  cases style with
  | text => exact .bind textOnly_textArgument fun _ => .pure _
  | formula style =>
    refine .bind textOnly_skipLayout fun _ => .rest fun ahead => ?_
    split
    · exact .bind (.advance _) fun _ => .bind (hn.sequence _) fun _ => .pure _
    · exact .bind hn.base fun _ => .pure _

/-- A command is chosen by its name. -/
theorem textOnly_commandBase (hn : nested.TextOnly) (after : List Char) :
    TextOnly (commandBase nested after) (commandBase nested after) := by
  unfold commandBase
  dsimp only
  split
  · exact .pure _
  split
  · split
    · exact .pure _
    · refine .offset fun start start' => ?_
      exact .bind (.advance _) fun _ => textOnly_command hn start start' _
  · exact .bind (.advance _) fun _ => .pure _
  · exact .bind (.advance _) fun _ => .bind (textOnly_styled hn _) fun _ => .pure _

/-- A base is chosen by the text ahead. -/
theorem textOnly_base (hn : nested.TextOnly) :
    TextOnly (Reading.base nested) (Reading.base nested) := by
  refine .bind textOnly_skipLayout fun _ => .rest fun ahead => ?_
  cases ahead with
  | nil => exact .pure _
  | cons c after =>
    dsimp only
    split
    · exact .bind (.advance _) fun _ => .bind (hn.sequence _) fun _ => .pure _
    split
    · exact .bind (.advance _) fun _ => .pure _
    split
    · exact textOnly_commandBase hn after
    split
    · exact .pure _
    split
    · exact .bind textOnly_primes fun _ => .pure _
    split
    · exact .bind (.advance _) fun _ => .pure _
    split
    · exact .pure _
    · exact .bind (.advance _) fun _ => .pure _

end Reading

namespace Nested

/-- If the nested parts depend on the text alone, so do the parts one level up. -/
theorem TextOnly.rules {nested : Nested} (hn : nested.TextOnly) : nested.rules.TextOnly where
  base := Reading.textOnly_base hn
  limits := Reading.textOnly_limits hn
  sequence := Reading.textOnly_sequence hn
  region := Reading.textOnly_region hn
  rows := Reading.textOnly_rows hn
  forward := hn.forward.rules

/-- **Every rule depends on the text ahead alone**, to any depth. -/
theorem textOnly_approach (depth : Nat) : (approach depth).TextOnly := by
  induction depth with
  | zero =>
    exact {
      base := .unclosed _
      limits := fun place => .unclosed _
      sequence := fun closer => .unclosed _
      region := .unclosed _
      rows := fun row cell => .unclosed _
      forward := forward_approach 0 }
  | succ depth ih => exact ih.rules

/-- A depth that is counted from below makes no difference. -/
theorem textOnly_ofDepth (depth : Nat) : (ofDepth depth).TextOnly := by
  induction depth with
  | zero =>
    exact {
      base := .pure _
      limits := fun place => .pure _
      sequence := fun closer => .pure _
      region := .pure _
      rows := fun row cell => .pure _
      forward := forward_ofDepth 0 }
  | succ depth ih => exact ih.rules

/-- **Every rule depends on the text ahead alone**, without a bound. -/
theorem textOnly_unbounded : unbounded.TextOnly := by
  -- where the same text is ahead, the same depth is enough
  have hdepth (s : Scan) : unbounded.Agree (ofDepth (2 * s.rest.length + 2))
      (s.rest.length + 1) (s.rest.length + 1) := agree_unbounded (by omega) (by omega)
  have hlt (s : Scan) := Nat.lt_succ_self s.rest.length
  have hsame {α : Type} {m : Reading α} (rule : Nested → Reading α)
      (hrun : ∀ s, m s = rule (ofDepth (2 * s.rest.length + 2)) s)
      (hrule : ∀ depth, Reading.TextOnly (rule (ofDepth depth)) (rule (ofDepth depth))) :
      Reading.TextOnly m m := by
    intro s u hsu
    rw [Reading.Alike, hrun s, hrun u, hsu]
    exact hrule _ s u hsu
  refine ⟨?_, fun place => ?_, fun closer => ?_, ?_, fun row cell => ?_, forward_unbounded⟩
  · exact hsame (·.base) (fun s => (hdepth s).base s (hlt s))
      fun depth => (textOnly_ofDepth depth).base
  · exact hsame (·.limits place) (fun s => (hdepth s).limits place s (hlt s))
      fun depth => (textOnly_ofDepth depth).limits place
  · exact hsame (·.sequence closer) (fun s => (hdepth s).sequence closer s (hlt s))
      fun depth => (textOnly_ofDepth depth).sequence closer
  · exact hsame (·.region) (fun s => (hdepth s).region s (hlt s))
      fun depth => (textOnly_ofDepth depth).region
  · exact hsame (·.rows row cell) (fun s => (hdepth s).rows row cell s (hlt s))
      fun depth => (textOnly_ofDepth depth).rows row cell

end Nested

/-- **A sequence that can be read in one place can be read in any other.**  Wherever the same text
is ahead, it consists of the same expressions and leaves the same text. -/
theorem Reading.sequence_anywhere {closer : Option Closer} {s u t : Scan} {members : List Expr}
    (hsu : s.rest = u.rest) (h : Reading.alone (·.sequence closer) s = .ok members t) :
    ∃ v, Reading.alone (·.sequence closer) u = .ok members v ∧ v.rest = t.rest := by
  let depth := 2 * s.rest.length + 2
  have hs : Reading.alone (·.sequence closer) s = (Nested.approach depth).sequence closer s := by
    rw [Nested.approach_eq_tower]
    exact sequence_eq_tower Nested.failing closer (Nat.le_refl _)
  have hu : Reading.alone (·.sequence closer) u = (Nested.approach depth).sequence closer u := by
    have hdepth : 2 * u.rest.length + 2 ≤ depth := Nat.le_of_eq (by rw [← hsu])
    rw [Nested.approach_eq_tower]
    exact sequence_eq_tower Nested.failing closer hdepth
  have halike := (Nested.textOnly_approach depth).sequence closer s u hsu
  rw [Alike, ← hs, ← hu, h] at halike
  cases hrun : Reading.alone (·.sequence closer) u with
  | ok found v =>
    rw [hrun] at halike
    obtain ⟨rfl, hrest⟩ := halike
    exact ⟨v, rfl, hrest.symm⟩
  | error e v =>
    rw [hrun] at halike
    cases halike

end OfficeMath
