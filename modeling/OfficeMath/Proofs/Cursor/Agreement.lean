import OfficeMath.Proofs.Cursor.Pieces
import OfficeMath.Proofs.Latex.Approach

/-!
# A walk never leaves the places of a formula

The rules for a cursor and the rules for a list of characters are compared one by one.  Where they
refer to nested parts, these are assumed to match (`Walk.Nested.Matches`); then the rules match, and
so they do at every depth (`Walk.Nested.matches_ofDepth`).

A cursor that follows a scan has stood at places of the formula only and has taken slices between
such places only.  So it is for every cursor that a walk over a whole formula passes through, since
the walk does what the reader does, and the reader has no other way to go than over whole
characters.  `walk_keeps_to_places` says this of the record that the cursor has kept.
-/

namespace OfficeMath

namespace Walk

variable {text : String} {s : Scan}

/-- The nested parts are walked over as they are read. -/
structure Nested.Matches (text : String) (walking : Nested) (reading : OfficeMath.Nested) :
    Prop where
  base : ∀ s, Walk.Matches text s walking.base reading.base
  limits : ∀ place s, Walk.Matches text s (walking.limits place) (reading.limits place)
  sequence : ∀ closer s, Walk.Matches text s (walking.sequence closer) (reading.sequence closer)
  region : ∀ s, Walk.Matches text s walking.region reading.region
  rows : ∀ row cell s, Walk.Matches text s (walking.rows row cell) (reading.rows row cell)

section
variable {walking : Nested} {reading : OfficeMath.Nested}

/-! ## Arguments and scripts -/

/-- The cursor reads an argument as the reader does. -/
theorem matches_argument (hn : walking.Matches text reading) :
    Matches text s (argument walking) (Reading.argument reading) := by
  refine .bind matches_skipLayout fun _ t => .peek ?_
  cases hrest : t.rest with
  | nil => exact .pure _
  | cons c after =>
    refine .ite (fun _ => .take (gives_readChar hrest) ?_) fun _ => ?_
    · exact .bind (hn.sequence _ _) fun _ _ => .pure _
    refine .ite (fun _ => .take (gives_readChar hrest) (.pure _)) fun _ => ?_
    refine .bind (hn.base t) fun found u => ?_
    cases found with
    | some base => exact .pure _
    | none => exact .pure _

/-- A command that moves the scripts is looked at and then taken. -/
theorem matches_limits (hn : walking.Matches text reading) (place : Limits) :
    Matches text s (limits walking place) (Reading.limits reading place) := by
  refine .bind matches_skipLayout fun _ t => .rest ?_
  by_cases hcommand : t.rest.head? = some '\\'
  · obtain ⟨after, hrest⟩ := List.head?_eq_some_iff.mp hcommand
    have hat : commandAt? t.rest = some (String.ofList (OfficeMath.commandName after)) := by
      rw [hrest, commandAt?]
    have htake := @gives_takeCommand text t after hrest
    rw [hat]
    refine .after (gives_peekCommand hrest) ?_
    -- the reader asks for the name as a string
    have hname {name : String}
        (h : some (String.ofList (OfficeMath.commandName after)) = some name) :
        OfficeMath.commandName after = name.toList := by
      rw [← Option.some.inj h, String.toList_ofList]
    by_cases hfixed : OfficeMath.commandName after = "limits".toList
    · rw [hfixed] at htake ⊢
      rw [if_pos rfl, String.ofList_toList]
      exact .take htake (hn.limits _ _)
    rw [if_neg fun h => hfixed (Option.some.inj h)]
    by_cases hside : OfficeMath.commandName after = "nolimits".toList
    · rw [hside] at htake ⊢
      rw [if_pos rfl, String.ofList_toList]
      exact .take htake (hn.limits _ _)
    rw [if_neg fun h => hside (Option.some.inj h)]
    split
    · next heq => exact absurd (hname heq) hfixed
    · next heq => exact absurd (hname heq) hside
    · exact .pure _
  · have hat : commandAt? t.rest = none := by
      cases hrest : t.rest with
      | nil => rfl
      | cons c after => exact commandAt?_cons_of_ne (by simpa [hrest] using hcommand) after
    rw [hat]
    exact .after (gives_peekCommand_none hcommand) (.pure _)

/-- A superscript is a run of apostrophes or an argument on both sides. -/
theorem matches_superscript (hn : walking.Matches text reading) :
    Matches text s (superscript walking) (Reading.superscript reading) := by
  refine .bind matches_skipLayout fun _ t => .bind matches_primes fun count u => ?_
  cases count with
  | zero => exact matches_argument hn
  | succ count => exact .pure _

/-- The loop for scripts takes the same marks, by induction on the bound. -/
theorem matches_scriptsFrom (hn : walking.Matches text reading) (bound : Nat) (scripts : Scripts) :
    Matches text s (scriptsFrom walking bound scripts)
      (Reading.scriptsFrom reading bound scripts) := by
  induction bound generalizing s scripts with
  | zero => exact .pure _
  | succ bound ih =>
    refine .bind matches_skipLayout fun _ t => .peek ?_
    by_cases hlower : t.rest.head? = some '_'
    · obtain ⟨after, hrest⟩ := List.head?_eq_some_iff.mp hlower
      rw [hlower, if_pos rfl]
      cases hfound : scripts.lower with
      | some _ => exact .pure _
      | none =>
        refine .take (gives_readChar hrest) ?_
        exact .bind (matches_argument hn) fun _ _ => ih _
    refine .otherwise hlower ?_
    by_cases hupper : t.rest.head? = some '^'
    · obtain ⟨after, hrest⟩ := List.head?_eq_some_iff.mp hupper
      rw [hupper, if_pos rfl]
      cases hfound : scripts.upper with
      | some _ =>
        dsimp only
        split
        · refine .take (gives_readChar hrest) ?_
          exact .bind (matches_superscript hn) fun _ _ => ih _
        · exact .pure _
      | none =>
        refine .take (gives_readChar hrest) ?_
        exact .bind (matches_superscript hn) fun _ _ => ih _
    refine .otherwise hupper ?_
    split
    · next heq => exact absurd heq hlower
    · next heq => exact absurd heq hupper
    · exact .pure _

/-- Scripts are the same commands, apostrophes and rounds. -/
theorem matches_scripts (hn : walking.Matches text reading) (base : Base) :
    Matches text s (scripts walking base) (Reading.scripts reading base) :=
  .bind (matches_limits hn _) fun _ _ => .bind matches_primes fun _ _ =>
    .bind (matches_scriptsFrom hn _ _) fun _ _ => .pure _

/-! ## Sequences, regions and arrays -/

/-- An item is told by the place where it ends, which is the offset. -/
theorem matches_item (hn : walking.Matches text reading) :
    Matches text s (item walking) (Reading.item reading) := by
  refine .bind matches_skipLayout fun _ t => .place (.bind (hn.base t) fun found u => ?_)
  cases found with
  | some base => exact .bind (matches_scripts hn base) fun _ _ => .pure _
  | none =>
    refine .place ?_
    split
    · exact .bind matches_skipToken fun _ _ => .pure _
    · exact .pure _

/-- A sequence ends at the same closer. -/
theorem matches_sequence (hn : walking.Matches text reading) (closer : Option Closer) :
    Matches text s (sequence walking closer) (Reading.sequence reading closer) := by
  have next {t : Scan} : Matches text t (sequence.next walking closer)
      (Reading.sequence.next reading closer) :=
    .bind (matches_item hn) fun _ _ => .bind (hn.sequence _ _) fun _ _ => .pure _
  refine .bind matches_skipLayout fun _ t => .peek ?_
  cases closer with
  | none =>
    cases hrest : t.rest with
    | nil => exact .pure _
    | cons c after => exact next
  | some closer =>
    cases hrest : t.rest with
    | nil => exact .unclosed _
    | cons c after =>
      refine .ite (fun _ => ?_) fun _ => next
      exact .take (gives_readChar hrest) (.pure _)

/-- The commands of a region are looked at by the cursor and taken only then. -/
theorem matches_region (hn : walking.Matches text reading) :
    Matches text s (region walking) (Reading.region reading) := by
  refine .bind matches_skipLayout fun _ t => .after gives_peek (.rest ?_)
  have next : Matches text t (region.next walking) (Reading.region.next reading) :=
    .bind (matches_item hn) fun _ _ => .bind (hn.region _) fun _ _ => .pure _
  by_cases hcommand : t.rest.head? = some '\\'
  · obtain ⟨after, hrest⟩ := List.head?_eq_some_iff.mp hcommand
    have htake := @gives_takeCommand text t after hrest
    have hbrace : ¬ '\\' = '}' := by decide
    rw [hrest]
    dsimp only
    rw [if_neg hbrace, if_pos rfl]
    refine .after (gives_peekCommand hrest) ?_
    refine .iteIff (by simp) (fun _ => .noteHere) fun _ => ?_
    refine .iteIff Option.some_inj (fun hright => ?_) fun _ => ?_
    · rw [hright] at htake
      exact .take htake (.bind (matches_delimiterAfter _) fun _ _ => .pure _)
    refine .iteIff Option.some_inj (fun hmiddle => ?_) fun _ => next
    rw [hmiddle] at htake
    refine .take htake (.bind (matches_delimiterAfter _) fun _ _ => ?_)
    exact .bind (hn.region _) fun _ _ => .pure _
  · refine .after (gives_peekCommand_none hcommand) ?_
    cases hrest : t.rest with
    | nil => exact .noteHere
    | cons c after =>
      have hbackslash : c ≠ '\\' := by simpa [hrest] using hcommand
      dsimp only
      rw [if_neg hbackslash]
      refine .iteIff (by simp) (fun _ => .noteHere) fun _ => ?_
      exact .otherwise (by simp) (.otherwise (by simp) next)

/-- So are those of an array, and the height of a row is passed over. -/
theorem matches_rows (hn : walking.Matches text reading) (row : Row) (cell : Cell) :
    Matches text s (rows walking row cell) (Reading.rows reading row cell) := by
  refine .bind matches_skipLayout fun _ t => .after gives_peek (.rest ?_)
  have next : Matches text t (rows.next walking row cell) (Reading.rows.next reading row cell) :=
    .bind (matches_item hn) fun _ _ => hn.rows _ _ _
  by_cases hcommand : t.rest.head? = some '\\'
  · obtain ⟨after, hrest⟩ := List.head?_eq_some_iff.mp hcommand
    have htake := @gives_takeCommand text t after hrest
    have hbrace : ¬ '\\' = '}' := by decide
    have hcell : ¬ '\\' = '&' := by decide
    rw [hrest]
    dsimp only [List.head?_cons]
    rw [if_neg hbrace, if_neg hcell, if_pos rfl]
    refine .after (gives_peekCommand hrest) ?_
    refine .otherwise (by simp) (.otherwise (by simp) ?_)
    refine .iteIff Option.some_inj (fun hrow => ?_) fun _ => ?_
    · rw [hrow] at htake
      refine .take htake (.peek ?_)
      split
      · refine .bind (matches_through _) fun _ _ => ?_
        exact .bind (hn.rows _ _ _) fun _ _ => .pure _
      · exact .bind (hn.rows _ _ _) fun _ _ => .pure _
    refine .iteIff Option.some_inj (fun hend => ?_) fun _ => next
    rw [hend] at htake
    exact .take htake (.bind matches_environmentName fun _ _ => .pure _)
  · refine .after (gives_peekCommand_none hcommand) ?_
    cases hrest : t.rest with
    | nil => exact .noteHere
    | cons c after =>
      have hbackslash : c ≠ '\\' := by simpa [hrest] using hcommand
      dsimp only
      rw [if_neg hbackslash]
      refine .iteIff (by simp) (fun _ => .noteHere) fun _ => ?_
      refine .iteIff (by simp) (fun _ => .take (gives_readChar hrest) (hn.rows _ _ _)) fun _ => ?_
      exact .otherwise (by simp) (.otherwise (by simp) next)

/-- An environment is chosen by the same name. -/
theorem matches_environment (hn : walking.Matches text reading) :
    Matches text s (environment walking) (Reading.environment reading) := by
  refine .bind matches_environmentName fun found t => ?_
  cases found with
  | none => exact .noteHere
  | some name =>
    dsimp only
    cases Environment.ofName? name with
    | none =>
      exact .bind (.note _) fun _ _ => .bind (matches_skipEnvironment name) fun _ _ => .pure _
    | some environment =>
      refine .ite (fun _ => .bind matches_columnSpecification fun _ _ => ?_) fun _ =>
        .bind (.pure _) fun _ _ => ?_
      all_goals
        refine .bind (hn.rows _ _ _) fun _ _ => ?_
        cases environment.delimiters? with
        | none => exact .pure _
        | some delimiters => exact .pure _

/-- A delimited region begins with the same delimiter. -/
theorem matches_delimited (hn : walking.Matches text reading) :
    Matches text s (delimited walking) (Reading.delimited reading) :=
  .bind (matches_delimiterAfter _) fun _ _ => .bind (hn.region _) fun _ _ => .pure _

/-! ## Commands -/

/-- What a command stands for.  One that belongs to the surroundings is put back instead. -/
theorem matches_command (hn : walking.Matches text reading) (start : Nat) {found : Command}
    (hfound : Reading.isPartOfSurroundings found = false) :
    Matches text s (command walking start found) (Reading.command reading start found) := by
  have argument {t : Scan} := @matches_argument text t walking reading hn
  cases found with
  | symbol | identifier | operatorName | space | limits | ignored => exact .pure _
  | sized factor =>
    refine .bind matches_delimiter fun glyph t => ?_
    cases glyph with
    | some glyph => exact .pure _
    | none => exact .bind (.note _) fun _ _ => .pure _
  | decoration => exact .bind argument fun _ _ => .pure _
  | fraction | overset | underset =>
    exact .bind argument fun _ _ => .bind argument fun _ _ => .pure _
  | sqrt =>
    refine .bind matches_skipLayout fun _ t => .rest ?_
    by_cases hopen : t.rest.head? = some '['
    · obtain ⟨after, hrest⟩ := List.head?_eq_some_iff.mp hopen
      rw [hrest]
      refine .take (gives_eat hrest) (.bind (hn.sequence _ _) fun _ _ => ?_)
      exact .bind argument fun _ _ => .pure _
    · refine .after (gives_eat_of_ne hopen) (.otherwise Bool.false_ne_true ?_)
      split
      · next hrest => exact absurd (congrArg List.head? hrest) hopen
      · exact .bind argument fun _ _ => .pure _
  | left => exact .bind (matches_delimited hn) fun _ _ => .pure _
  | beginEnvironment => exact .bind (matches_environment hn) fun _ _ => .pure _
  | boxed | phantom | cancel => exact .bind argument fun _ _ => .pure _
  | namedOperator => exact .bind matches_textArgument fun _ _ => .pure _
  | right | middle | endEnvironment => cases hfound

/-- The argument of a style command begins with the same character. -/
theorem matches_styled (hn : walking.Matches text reading) (style : StyleCommand) :
    Matches text s (styled walking style) (Reading.styled reading style) := by
  cases style with
  | text => exact .bind matches_textArgument fun _ _ => .pure _
  | formula =>
    refine .bind matches_skipLayout fun _ t => .rest ?_
    by_cases hopen : t.rest.head? = some '{'
    · obtain ⟨after, hrest⟩ := List.head?_eq_some_iff.mp hopen
      rw [hrest]
      exact .take (gives_eat hrest) (.bind (hn.sequence _ _) fun _ _ => .pure _)
    · refine .after (gives_eat_of_ne hopen) (.otherwise Bool.false_ne_true ?_)
      split
      · next hrest => exact absurd (congrArg List.head? hrest) hopen
      · exact .bind (hn.base _) fun _ _ => .pure _

/-- A command is taken to find out what it is, and put back if it cannot be used here. -/
theorem matches_commandBase (hn : walking.Matches text reading) {after : List Char}
    (h : s.rest = '\\' :: after) :
    Matches text s (commandBase walking) (Reading.commandBase reading after) := by
  refine .given fun hs => .after gives_place ?_
  unfold Reading.commandBase
  dsimp only
  have htake := @gives_takeCommand text s after h
  have hspelling := gives_spelling hs h
  generalize OfficeMath.commandName after = name at htake hspelling ⊢
  have hback := gives_goBack hs (1 + name.length)
  unfold Meaning.ofName?
  cases hcommand : command? (String.ofList name) with
  | some found =>
    dsimp only
    cases hpart : Reading.isPartOfSurroundings found with
    | true =>
      rw [if_pos rfl]
      refine Ends.bind htake ?_
      dsimp only
      rw [hcommand]
      cases found with
      | right | middle | endEnvironment => exact hback.bind (.pure _)
      | _ => cases hpart
    | false =>
      rw [if_neg Bool.false_ne_true]
      refine .offset (.take htake ?_)
      dsimp only
      rw [hcommand]
      exact matches_command hn _ hpart
  | none =>
    dsimp only
    cases hdelimiter : delimiterCommand? (String.ofList name) with
    | some glyph =>
      refine .take htake ?_
      dsimp only
      rw [hcommand]
      refine .after gives_place (.after hspelling ?_)
      rw [delimiterSpelled?_command, hdelimiter]
      exact .pure _
    | none =>
      cases hstyle : styleCommand? (String.ofList name) with
      | some style =>
        refine .take htake ?_
        dsimp only
        rw [hcommand]
        refine .after gives_place (.after hspelling ?_)
        rw [delimiterSpelled?_command, hdelimiter]
        dsimp only
        rw [hstyle]
        exact .bind (matches_styled hn style) fun _ _ => .pure _
      | none =>
        refine Ends.bind htake ?_
        dsimp only
        rw [hcommand]
        refine gives_place.bind (hspelling.bind ?_)
        rw [delimiterSpelled?_command, hdelimiter]
        dsimp only
        rw [hstyle]
        exact hback.bind (.pure _)

/-- A base is recognized by its first character. -/
theorem matches_base (hn : walking.Matches text reading) :
    Matches text s (base walking) (Reading.base reading) := by
  refine .bind matches_skipLayout fun _ t => .peek ?_
  cases hrest : t.rest with
  | nil => exact .pure _
  | cons c after =>
    refine .ite (fun _ => .take (gives_readChar hrest) ?_) fun _ => ?_
    · exact .bind (hn.sequence _ _) fun _ _ => .pure _
    have hnumber := @gives_number text t
    rw [hrest] at hnumber
    by_cases hzero : numberLength (c :: after) = 0
    · rw [if_pos hzero, hzero, Scan.advance_zero] at hnumber
      rw [if_neg (not_not_intro hzero)]
      refine .after hnumber ?_
      dsimp only
      split
      · next hbackslash =>
        rw [hbackslash] at hrest
        exact matches_commandBase hn hrest
      split
      · exact .pure _
      split
      · exact .bind matches_primes fun _ _ => .pure _
      split
      · exact .take (gives_readChar hrest) (.pure _)
      cases Expr.ofChar? c with
      | none => exact .pure _
      | some e => exact .take (gives_readChar hrest) (.pure _)
    · rw [if_neg hzero] at hnumber
      rw [if_pos hzero]
      exact .take hnumber (.pure _)

end

/-! ## The whole formula -/

namespace Nested

/-- The rules match at every depth. -/
theorem matches_ofDepth (text : String) (depth : Nat) :
    (ofDepth depth).Matches text (OfficeMath.Nested.ofDepth depth) := by
  induction depth with
  | zero =>
    exact {
      base := fun _ => .pure _
      limits := fun _ _ => .pure _
      sequence := fun _ _ => .pure _
      region := fun _ => .pure _
      rows := fun _ _ _ => .pure _ }
  | succ depth ih =>
    exact {
      base := fun _ => matches_base ih
      limits := fun place _ => matches_limits ih place
      sequence := fun closer _ => matches_sequence ih closer
      region := fun _ => matches_region ih
      rows := fun row cell _ => matches_rows ih row cell }

end Nested

end Walk

/-- A walk over a formula ends as reading it to the same depth does, with a cursor that has followed
the reader. -/
theorem walk_cases (depth : Nat) (text : String) :
    (∃ members finish,
      (Nested.ofDepth depth).sequence none (Scan.start text) = .ok members finish ∧
        (walk depth text).1 = ⟨.ok (settleOperators members), finish.notes.reverse⟩ ∧
        (walk depth text).2.Follows text finish) ∨
    ∃ e finish, (Nested.ofDepth depth).sequence none (Scan.start text) = .error e finish ∧
      (walk depth text).1 = ⟨.error e, finish.notes.reverse⟩ ∧
      (walk depth text).2.Follows text finish := by
  have hmatches := (Walk.Nested.matches_ofDepth text depth).sequence none (Scan.start text)
  unfold Walk.Matches at hmatches
  cases hrun : (Nested.ofDepth depth).sequence none (Scan.start text) with
  | ok members finish =>
    rw [hrun] at hmatches
    obtain ⟨d, hwalk, hd⟩ := hmatches _ (Cursor.follows_start text)
    refine .inl ⟨members, finish, rfl, ?_⟩
    rw [walk, hwalk, ← hd.notes_eq]
    exact ⟨rfl, hd⟩
  | error e finish =>
    rw [hrun] at hmatches
    obtain ⟨d, hwalk, hd⟩ := hmatches _ (Cursor.follows_start text)
    refine .inr ⟨e, finish, rfl, ?_⟩
    rw [walk, hwalk, ← hd.notes_eq]
    exact ⟨rfl, hd⟩

/-- The cursor at the end of a walk follows some scan. -/
theorem walk_follows (depth : Nat) (text : String) :
    ∃ finish, (walk depth text).2.Follows text finish := by
  rcases walk_cases depth text with ⟨-, finish, -, -, hd⟩ | ⟨-, finish, -, -, hd⟩
  · exact ⟨finish, hd⟩
  · exact ⟨finish, hd⟩

/-- A sequence without a closing character is read to the end of the formula. -/
theorem Nested.finished_approach (depth : Nat) {s t : Scan} {members : List Expr}
    (h : (approach depth).sequence .none s = .ok members t) : t.rest = [] := by
  induction depth generalizing s t members with
  | zero => cases h
  | succ depth ih => exact Reading.sequence_finished ih h

/-- **A walk with enough depth reads what the reader reads**, and if the formula can be read it
stands at the end. -/
theorem walk_eq_read {depth : Nat} {text : String} (h : 2 * text.toList.length + 2 ≤ depth) :
    (walk depth text).1 = read text ∧
      ∀ formula, (read text).formula = .ok formula →
        (walk depth text).2.place = text.utf8ByteSize := by
  have hagree : Nested.unbounded.Agree (Nested.ofDepth depth) (text.toList.length + 1)
      (text.toList.length + 1) := Nested.agree_unbounded (by omega) (by omega)
  have hdepth : Reading.alone (·.sequence none) (Scan.start text)
      = (Nested.ofDepth depth).sequence none (Scan.start text) := by
    rw [Nested.alone_sequence]
    exact hagree.sequence none _ (Nat.lt_succ_self _)
  rcases walk_cases depth text with ⟨members, finish, hrun, hread, hd⟩ | ⟨e, finish, hrun, hread, -⟩
  · rw [hrun] at hdepth
    rw [read, hdepth]
    refine ⟨hread, fun _ _ => ?_⟩
    rw [sequence_eq_tower Nested.failing none h, ← Nested.approach_eq_tower] at hdepth
    have hsize := size_of_aheadAt hd.ahead
    rw [Nested.finished_approach depth hdepth, utf8Length, Nat.add_zero] at hsize
    exact hd.place_eq.trans hsize.symm
  · rw [hrun] at hdepth
    rw [read, hdepth]
    refine ⟨hread, fun formula hformula => ?_⟩
    cases hformula

/-- **A walk never leaves the places of a formula.**  Every byte at which the cursor has stood, up
to the one where it stands, is in the formula or its end, and not inside of a character; every slice
that was taken lies between two such bytes in the right order, so that it is there and never
replaced by an empty one.  A walk that goes as deep as the formula asks for has read all of it, and
reads what the reader reads. -/
theorem walk_keeps_to_places (depth : Nat) (text : String) :
    (walk depth text).2.visited.head? = some (walk depth text).2.place ∧
    (∀ place ∈ (walk depth text).2.visited, place ≤ text.utf8ByteSize ∧ IsPlace text place) ∧
    (∀ piece ∈ (walk depth text).2.slices,
      piece.1 ≤ piece.2 ∧ piece.2 ≤ text.utf8ByteSize ∧ IsPlace text piece.1 ∧
        IsPlace text piece.2 ∧ (slice? text piece.1 piece.2).isSome) ∧
    (2 * text.toList.length + 2 ≤ depth → (walk depth text).1 = read text ∧
      ∀ formula, (read text).formula = .ok formula →
        (walk depth text).2.place = text.utf8ByteSize) := by
  obtain ⟨finish, hd⟩ := walk_follows depth text
  refine ⟨hd.latest, ?_, ?_, walk_eq_read⟩
  · intro place hplace
    have hvalid := hd.visited place hplace
    exact ⟨hvalid.le, hvalid⟩
  · intro piece hpiece
    obtain ⟨hle, hfirst, hlast⟩ := hd.slices piece hpiece
    refine ⟨hle, hlast.le, hfirst, hlast, ?_⟩
    rw [slice?, if_pos ⟨hle, String.Pos.Raw.isValid_eq_true_iff.mpr hfirst,
      String.Pos.Raw.isValid_eq_true_iff.mpr hlast⟩]
    rfl

/-- A comment with an umlaut, a starred name and its text, a command that is put back, and a dot
that is no part of a number: the walk ends at byte 31, behind all of it. -/
theorem walk_keeps_to_places_umlaut :
    (walk 60 "é%ü\n\\operatorname*\x7bö\x7d\\foo 3.").1
        = read "é%ü\n\\operatorname*\x7bö\x7d\\foo 3." ∧
      (walk 60 "é%ü\n\\operatorname*\x7bö\x7d\\foo 3.").2.place = 31 := by
  obtain ⟨-, -, -, henough⟩ := walk_keeps_to_places 60 "é%ü\n\\operatorname*\x7bö\x7d\\foo 3."
  obtain ⟨hread, hend⟩ := henough (by decide)
  have hsome : (read "é%ü\n\\operatorname*\x7bö\x7d\\foo 3.").formula.toOption.isSome := by
    decide +kernel
  obtain ⟨formula, hformula⟩ := Option.isSome_iff_exists.mp hsome
  exact ⟨hread, hend formula (eq_ok_of_toOption hformula)⟩

end OfficeMath
