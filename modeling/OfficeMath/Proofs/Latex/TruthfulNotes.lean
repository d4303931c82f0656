import OfficeMath.Formula.Equality
import OfficeMath.Latex.Parse
import OfficeMath.Proofs.Latex.Lexemes
import OfficeMath.Proofs.Latex.Progress

/-!
# The notes tell the truth, in order

Whether a formula can be read or not, the notes of the reader can be trusted (`read_log`):

* where a note says that a command or a character was skipped, this command or character is there;
* the places of the skips increase strictly, so nothing is skipped twice;
* the places of all notes that name one do not decrease, and they are inside of the formula.

This is an invariant of the scan (`Scan.Reports`): the notes made so far are truthful and in order,
and all of them speak of what has been taken.  Characters are taken without further ado
(`Scan.Reports.advance`).  A note is made either about the place that has been reached, or about the
place at which a token began; in the second case no other note has been made since then, because
the steps in between only take characters (`Reading.Quiet`).  Nothing is ever put back, so a note
that has been made remains true.
-/

namespace OfficeMath

/-! ## Places and notes about them -/

/-- The characters that are ahead at a byte of a text. -/
def AheadAt (text : List Char) (place : Nat) (ahead : List Char) : Prop :=
  ∃ front, text = front ++ ahead ∧ utf8Length front = place

/-- At the start everything is ahead. -/
theorem aheadAt_zero (text : List Char) : AheadAt text 0 text := ⟨[], rfl, rfl⟩

/-- Taking characters leads from place to place. -/
theorem AheadAt.advance {text ahead : List Char} {place : Nat} (h : AheadAt text place ahead)
    (count : Nat) :
    AheadAt text (place + utf8Length (ahead.take count)) (ahead.drop count) := by
  obtain ⟨front, rfl, rfl⟩ := h
  refine ⟨front ++ ahead.take count, ?_, utf8Length_append _ _⟩
  rw [List.append_assoc, List.take_append_drop]

/-- A place is inside of the text or at its end. -/
theorem AheadAt.le {text ahead : List Char} {place : Nat} (h : AheadAt text place ahead) :
    place ≤ utf8Length text := by
  obtain ⟨front, rfl, rfl⟩ := h
  rw [utf8Length_append]
  exact Nat.le_add_right _ _

/-- A command is spelled out where it is read. -/
theorem isPrefix_of_commandAt {ahead : List Char} {name : String}
    (h : commandAt? ahead = some name) : '\\' :: name.toList <+: ahead := by
  obtain ⟨after, rfl, hname⟩ := commandAt?_eq_some h
  rw [← hname, List.prefix_cons_inj]
  exact commandName_isPrefix after

namespace Note

/-- The place of what a note reports to have been skipped. -/
def skipOffset? : Note → Option Nat
  | .skippedCommand _ offset | .skippedCharacter _ offset => some offset
  | _ => none

/-- What has been skipped is there.  Of sizes that cannot be written the reader does not speak. -/
def Truthful (text : List Char) : Note → Prop
  | .skippedCommand name place => ∃ ahead, AheadAt text place ahead ∧ commandAt? ahead = some name
  | .skippedCharacter c place => ∃ ahead, AheadAt text place ahead ∧ ahead.head? = some c
  | .naturalSize _ => False
  | _ => True

/-- The reader reports for debugging. -/
theorem Truthful.level_eq {text : List Char} {n : Note} (h : n.Truthful text) :
    n.level = .debug := by
  cases n with
  | naturalSize => exact h.elim
  | _ => rfl

/-- A note speaks of what is before a place, or of the place itself unless it reports a skip. -/
def UpTo (place : Nat) (n : Note) : Prop :=
  (∀ k ∈ n.offset?, k ≤ place) ∧ ∀ k ∈ n.skipOffset?, k < place

/-- Two notes in order: their places do not decrease, and those of skips increase. -/
def Precedes (n m : Note) : Prop :=
  (∀ j ∈ n.offset?, ∀ k ∈ m.offset?, j ≤ k) ∧ ∀ j ∈ n.skipOffset?, ∀ k ∈ m.skipOffset?, j < k

/-- A skip names its place. -/
theorem offset?_of_skipOffset? {n : Note} {place : Nat} (h : n.skipOffset? = some place) :
    n.offset? = some place := by
  cases n with
  | skippedCommand | skippedCharacter => exact h
  | _ => cases h

/-- What is before a place is before a later one. -/
theorem UpTo.mono {n : Note} {place later : Nat} (h : n.UpTo place) (hle : place ≤ later) :
    n.UpTo later :=
  ⟨fun k hk => Nat.le_trans (h.1 k hk) hle, fun k hk => Nat.lt_of_lt_of_le (h.2 k hk) hle⟩

/-- A note about a place comes after the notes about what is before it. -/
theorem UpTo.precedes {n m : Note} {place : Nat} (h : n.UpTo place)
    (hplace : ∀ k ∈ m.offset?, k = place) : n.Precedes m := by
  refine ⟨fun j hj k hk => ?_, fun j hj k hk => ?_⟩
  · rw [hplace k hk]
    exact h.1 j hj
  · rw [hplace k (offset?_of_skipOffset? hk)]
    exact h.2 j hj

end Note

/-! ## The invariant -/

namespace Scan

/-- The notes made so far are truthful and in order, and speak of what has been taken. -/
structure Reports (text : List Char) (s : Scan) : Prop where
  here : AheadAt text s.offset s.rest
  truthful : ∀ n ∈ s.notes, n.Truthful text
  past : ∀ n ∈ s.notes, n.UpTo s.offset
  ordered : s.notes.Pairwise fun later earlier => earlier.Precedes later

namespace Reports

variable {text : List Char} {s : Scan}

/-- There are no notes at the start. -/
theorem start (formula : String) : (Scan.start formula).Reports formula.toList :=
  ⟨aheadAt_zero _, nofun, nofun, .nil⟩

/-- Taking characters keeps all notes true. -/
theorem advance (h : s.Reports text) (count : Nat) : (s.advance count).Reports text :=
  ⟨h.here.advance count, h.truthful, fun n hn => (h.past n hn).mono (Nat.le_add_right _ _),
    h.ordered⟩

/-- A note about a place, made where all other notes speak of what is before it. -/
theorem note (h : s.Reports text) {n : Note} (place : Nat) (htrue : n.Truthful text)
    (hplace : ∀ k ∈ n.offset?, k = place) (hpast : ∀ m ∈ s.notes, m.UpTo place)
    (hnow : n.UpTo s.offset) : { s with notes := n :: s.notes : Scan }.Reports text :=
  ⟨h.here, List.forall_mem_cons.mpr ⟨htrue, h.truthful⟩, List.forall_mem_cons.mpr ⟨hnow, h.past⟩,
    .cons (fun m hm => (hpast m hm).precedes hplace) h.ordered⟩

end Reports

end Scan

namespace Reading

variable {α β : Type}

/-- A step that takes characters and makes no note, whether it succeeds or fails. -/
def Quiet (m : Reading α) : Prop := ∀ s : Scan, ∃ count, m.finish s = s.advance count

namespace Quiet

variable {m : Reading α} {f : α → Reading β}

theorem pure (a : α) : (Pure.pure a : Reading α).Quiet := fun s => ⟨0, s.advance_zero.symm⟩

theorem rest : Reading.rest.Quiet := fun s => ⟨0, s.advance_zero.symm⟩

theorem advance (count : Nat) : (Reading.advance count).Quiet := fun _ => ⟨count, rfl⟩

theorem unclosed (closer : Closer) : (Reading.unclosed closer : Reading α).Quiet :=
  fun s => ⟨0, s.advance_zero.symm⟩

/-- Two steps in a row. -/
theorem bind (first : m.Quiet) (second : ∀ a, (f a).Quiet) : (m >>= f).Quiet := by
  intro s
  obtain ⟨count, hfirst⟩ := first s
  cases hrun : m s with
  | ok a t =>
    obtain ⟨more, hsecond⟩ := second a t
    rw [finish_ok hrun] at hfirst
    exact ⟨count + more, by rw [finish_bind hrun, hsecond, hfirst, Scan.advance_add]⟩
  | error e t => exact ⟨count, by rw [finish_bind_error hrun, hfirst]⟩

end Quiet

/-- Layout is skipped without a note. -/
theorem quiet_skipLayout : skipLayout.Quiet := .bind .rest fun _ => .advance _

/-- Apostrophes are taken without a note. -/
theorem quiet_primes : primes.Quiet := .bind .rest fun _ => .bind (.advance _) fun _ => .pure _

/-- A mark may be missing without a note. -/
theorem quiet_through (mark : Char) : (through? mark).Quiet := by
  refine .bind .rest fun ahead => ?_
  split
  · exact .bind (.advance _) fun _ => .pure _
  · exact .bind .rest fun _ => .bind (.advance _) fun _ => .pure _

/-- Looking for a delimiter makes no note; its absence is noted by whoever needs it. -/
theorem quiet_delimiter : delimiter?.Quiet := by
  refine .bind quiet_skipLayout fun _ => .bind .rest fun ahead => ?_
  split
  · exact .bind (.advance _) fun _ => .pure _
  · exact .pure _

/-- The name of an environment is looked for without a note. -/
theorem quiet_environmentName : environmentName?.Quiet := by
  refine .bind quiet_skipLayout fun _ => .bind .rest fun ahead => ?_
  split
  · refine .bind (.advance _) fun _ => .bind (quiet_through _) fun found => ?_
    split
    · exact .pure _
    · exact .unclosed _
  · exact .pure _

/-- A column specification is passed over without a note. -/
theorem quiet_columnSpecification : columnSpecification.Quiet := by
  refine .bind quiet_skipLayout fun _ => .bind .rest fun ahead => ?_
  split
  · refine .bind (.advance _) fun _ => ?_
    split
    · exact .bind (.advance _) fun _ => .pure _
    · exact .bind (.advance _) fun _ => .unclosed _
  · exact .pure _

/-! ## Steps that keep the invariant -/

/-- A step keeps the notes truthful and in order, whether it succeeds or fails. -/
def Logs (text : List Char) (m : Reading α) : Prop :=
  ∀ s : Scan, s.Reports text → (m.finish s).Reports text

variable {text : List Char}

/-- Taking characters says nothing. -/
theorem Quiet.logs {m : Reading α} (h : m.Quiet) : Logs text m := by
  intro s hs
  obtain ⟨count, hfinish⟩ := h s
  rw [hfinish]
  exact hs.advance count

namespace Logs

variable {m : Reading α} {f : α → Reading β}

theorem pure (a : α) : Logs text (Pure.pure a : Reading α) := (Quiet.pure a).logs

theorem rest : Logs text Reading.rest := Quiet.rest.logs

theorem offset : Logs text Reading.offset := fun _ hs => hs

theorem advance (count : Nat) : Logs text (Reading.advance count) := (Quiet.advance count).logs

theorem unclosed (closer : Closer) : Logs text (Reading.unclosed closer : Reading α) :=
  (Quiet.unclosed closer).logs

/-- A note without a place. -/
theorem note {n : Note} (hplace : n.offset? = none) (htrue : n.Truthful text) :
    Logs text (Reading.note n) := by
  intro s hs
  have hnone (k : Nat) : k ∉ n.offset? := by simp [hplace]
  refine hs.note _ htrue (fun k hk => absurd hk (hnone k)) hs.past
    ⟨fun k hk => absurd hk (hnone k), fun k hk => ?_⟩
  exact absurd (Note.offset?_of_skipOffset? hk) (hnone k)

/-- Two steps in a row. -/
theorem bind (first : Logs text m) (second : ∀ a, Logs text (f a)) : Logs text (m >>= f) := by
  intro s hs
  have hfirst := first s hs
  cases hrun : m s with
  | ok a t =>
    rw [finish_ok hrun] at hfirst
    rw [finish_bind hrun]
    exact second a t hfirst
  | error e t => rwa [finish_bind_error hrun]

/-- A note about the place that has been reached, and what is done after it. -/
theorem noteHere {n : Nat → Note} {f : Unit → Reading β} (hplace : ∀ k, (n k).offset? = some k)
    (hskip : ∀ k, (n k).skipOffset? = none) (htrue : ∀ k, (n k).Truthful text)
    (hf : Logs text (f ())) :
    Logs text (Reading.offset >>= fun place => Reading.note (n place) >>= f) := by
  intro s hs
  refine hf _ (hs.note s.offset (htrue s.offset) ?_ hs.past ⟨?_, ?_⟩)
  · intro k hk
    simpa [hplace] using hk.symm
  · intro k hk
    simp only [hplace, Option.mem_some_iff] at hk
    omega
  · intro k hk
    simp [hskip] at hk

/-- A choice between two steps. -/
theorem ite {c : Prop} [Decidable c] {m m' : Reading α} (yes : Logs text m) (no : Logs text m') :
    Logs text (if c then m else m') := by
  by_cases h : c
  · rwa [if_pos h]
  · rwa [if_neg h]

end Logs

/-! ## Notes about the place at which a token began -/

/-- Where a character has been taken since, a note may be made about the place before it. -/
theorem reports_noteBack {s : Scan} (hs : s.Reports text) (hahead : s.rest ≠ []) {count : Nat}
    (hcount : 0 < count) {n : Note} (htrue : n.Truthful text)
    (hplace : ∀ k ∈ n.offset?, k = s.offset) :
    ((note n).finish (s.advance count)).Reports text := by
  have hlater : s.offset < (s.advance count).offset := by
    obtain ⟨c, after, hrest⟩ := List.exists_cons_of_ne_nil hahead
    obtain ⟨count, rfl⟩ := Nat.exists_eq_succ_of_ne_zero (Nat.ne_of_gt hcount)
    have hbyte := c.utf8Size_pos
    simp only [Scan.advance, hrest, List.take_succ_cons, utf8Length]
    omega
  refine (hs.advance count).note _ htrue hplace hs.past ⟨fun k hk => ?_, fun k hk => ?_⟩
  · rw [hplace k hk]
    exact Nat.le_of_lt hlater
  · rw [hplace k (Note.offset?_of_skipOffset? hk)]
    exact hlater

/-- So it may after more characters have been taken. -/
theorem reports_token {s : Scan} (hs : s.Reports text) (hahead : s.rest ≠ []) {count : Nat}
    (hcount : 0 < count) {n : Note} (htrue : n.Truthful text)
    (hplace : ∀ k ∈ n.offset?, k = s.offset) {m : Reading α} (hm : m.Quiet) :
    ((m >>= fun _ => note n).finish (s.advance count)).Reports text := by
  obtain ⟨more, hmore⟩ := hm (s.advance count)
  cases hrun : m (s.advance count) with
  | ok a t =>
    rw [finish_ok hrun, Scan.advance_add] at hmore
    rw [finish_bind hrun, hmore]
    exact reports_noteBack hs hahead (by omega) htrue hplace
  | error e t =>
    rw [finish_bind_error hrun, hmore]
    exact (hs.advance count).advance more

/-- A token that is dropped is noted at its own place. -/
theorem logs_skipToken : Logs text skipToken := by
  intro s hs
  cases hrest : s.rest with
  | nil =>
    have hfinish : skipToken.finish s = s := by
      unfold skipToken
      rw [finish_bind (run_offset s), finish_bind (run_rest s), hrest]
      rfl
    rwa [hfinish]
  | cons c after =>
    have hahead : s.rest ≠ [] := by simp [hrest]
    unfold skipToken
    rw [finish_bind (run_offset s), finish_bind (run_rest s), hrest]
    dsimp only
    rw [finish_bind (run_advance 1 s)]
    have hhere : AheadAt text s.offset (c :: after) := hrest ▸ hs.here
    split
    · next hbackslash =>
      subst hbackslash
      have htrue :
          (Note.skippedCommand (String.ofList (commandName after)) s.offset).Truthful text :=
        ⟨_, hhere, rfl⟩
      have hplace (k : Nat)
          (hk : k ∈ (Note.skippedCommand (String.ofList (commandName after)) s.offset).offset?) :
          k = s.offset := (Option.some.inj hk).symm
      rw [finish_bind (run_advance _ _), Scan.advance_add]
      split
      · exact reports_token hs hahead (by omega) htrue hplace quiet_environmentName
      · split
        · exact reports_token hs hahead (by omega) htrue hplace quiet_delimiter
        · exact reports_noteBack hs hahead (by omega) htrue hplace
    · exact reports_noteBack hs hahead Nat.one_pos ⟨_, hhere, rfl⟩
        fun k hk => (Option.some.inj hk).symm

/-- A command in plain text is noted at its backslash. -/
theorem logs_textFrom (bound depth : Nat) (collected : List Char) :
    Logs text (textFrom bound depth collected) := by
  induction bound generalizing depth collected with
  | zero => exact .unclosed _
  | succ bound ih =>
    intro s hs
    unfold textFrom
    rw [finish_bind (run_rest s)]
    cases hrest : s.rest with
    | nil => exact hs
    | cons c after =>
      have hahead : s.rest ≠ [] := by simp [hrest]
      have hone := hs.advance 1
      dsimp only
      rw [finish_bind (run_offset s), finish_bind (run_advance 1 s)]
      split
      · split
        · exact hone
        · exact ih _ _ _ hone
      split
      · exact ih _ _ _ hone
      split
      · exact ih _ _ _ hone
      split
      · rw [finish_bind (run_advance _ _), Scan.advance_add]
        split
        · exact ih _ _ _ (hs.advance _)
        · split
          · refine ih _ _ _ (reports_noteBack hs hahead (by omega) trivial fun k hk => ?_)
            exact (Option.some.inj hk).symm
          · exact ih _ _ _ (hs.advance _)
      split
      · exact ih _ _ _ hone
      · exact ih _ _ _ hone

/-- A text argument notes what its loop notes. -/
theorem logs_textArgument : Logs text textArgument := by
  refine .bind quiet_skipLayout.logs fun _ => .bind .rest fun ahead => ?_
  split
  · exact .pure _
  refine .bind (.advance _) fun _ => ?_
  split
  · exact logs_textFrom _ _ _
  · exact .pure _

/-- A missing delimiter is noted where it should stand. -/
theorem logs_delimiterAfter (command : String) : Logs text (delimiterAfter command) := by
  refine .bind quiet_delimiter.logs fun found => ?_
  split
  · exact .pure _
  · exact .noteHere (fun _ => rfl) (fun _ => rfl) (fun _ => trivial) (.pure _)

/-- A body that is passed over is noted only if it does not end. -/
theorem logs_skipEnvironmentFrom (name : String) (bound depth : Nat) :
    Logs text (skipEnvironmentFrom name bound depth) := by
  have hopen : Logs text (note (.openEnvironment name)) := .note rfl trivial
  induction bound generalizing depth with
  | zero => exact hopen
  | succ bound ih =>
    refine .bind .rest fun ahead => ?_
    split
    · exact hopen
    refine .bind (.advance _) fun _ => ?_
    split
    · refine .bind (.advance _) fun _ => ?_
      split
      · refine .bind quiet_environmentName.logs fun found => ?_
        split
        · exact ih _
        · exact ih _
      split
      · refine .bind quiet_environmentName.logs fun found => ?_
        split
        · cases depth with
          | zero => exact .pure _
          | succ depth => exact ih depth
        · exact ih _
      · exact ih depth
    · exact ih depth

/-- Passing over a body notes what its loop notes. -/
theorem logs_skipEnvironment (name : String) : Logs text (skipEnvironment name) :=
  .bind .rest fun _ => logs_skipEnvironmentFrom name _ 0

end Reading

/-! ## The rules of the grammar -/

/-- Nested parts keep the notes truthful and in order. -/
structure Nested.Logs (text : List Char) (nested : Nested) : Prop where
  base : Reading.Logs text nested.base
  limits : ∀ place, Reading.Logs text (nested.limits place)
  sequence : ∀ closer, Reading.Logs text (nested.sequence closer)
  region : Reading.Logs text nested.region
  rows : ∀ row cell, Reading.Logs text (nested.rows row cell)

namespace Reading

variable {text : List Char} {nested : Nested}

/-- An argument notes what its group or its base notes. -/
theorem logs_argument (hn : nested.Logs text) : Logs text (argument nested) := by
  refine .bind quiet_skipLayout.logs fun _ => .bind .rest fun ahead => ?_
  split
  · exact .pure _
  split
  · exact .bind (.advance _) fun _ => .bind (hn.sequence _) fun _ => .pure _
  split
  · exact .bind (.advance _) fun _ => .pure _
  · refine .bind hn.base fun found => ?_
    split
    · exact .pure _
    · exact .pure _

/-- Commands that move scripts make no note of their own. -/
theorem logs_limits (hn : nested.Logs text) (place : Limits) :
    Logs text (limits nested place) := by
  refine .bind quiet_skipLayout.logs fun _ => .bind .rest fun ahead => ?_
  split
  · exact .bind (.advance _) fun _ => hn.limits _
  · exact .bind (.advance _) fun _ => hn.limits _
  · exact .pure _

/-- A superscript notes what its argument notes. -/
theorem logs_superscript (hn : nested.Logs text) : Logs text (superscript nested) := by
  refine .bind quiet_skipLayout.logs fun _ => .bind quiet_primes.logs fun count => ?_
  split
  · exact logs_argument hn
  · exact .pure _

/-- The notes of the scripts follow one another, by induction on the bound. -/
theorem logs_scriptsFrom (hn : nested.Logs text) (bound : Nat) (scripts : Scripts) :
    Logs text (scriptsFrom nested bound scripts) := by
  induction bound generalizing scripts with
  | zero => exact .pure _
  | succ bound ih =>
    refine .bind quiet_skipLayout.logs fun _ => .bind .rest fun ahead => ?_
    split
    · split
      · exact .pure _
      · exact .bind (.advance _) fun _ => .bind (logs_argument hn) fun _ => ih _
    · split
      · exact .bind (.advance _) fun _ => .bind (logs_superscript hn) fun _ => ih _
      split
      · exact .bind (.advance _) fun _ => .bind (logs_superscript hn) fun _ => ih _
      · exact .pure _
    · exact .pure _

/-- Scripts note nothing but what is noted inside them. -/
theorem logs_scripts (hn : nested.Logs text) (base : Base) : Logs text (scripts nested base) :=
  .bind (logs_limits hn _) fun _ => .bind quiet_primes.logs fun _ =>
    .bind (logs_scriptsFrom hn _ _) fun _ => .pure _

/-- An item notes what its base and its scripts note, or the token that is dropped. -/
theorem logs_item (hn : nested.Logs text) : Logs text (item nested) := by
  refine .bind quiet_skipLayout.logs fun _ => .bind .offset fun start => ?_
  refine .bind hn.base fun found => ?_
  split
  · exact .bind (logs_scripts hn _) fun _ => .pure _
  · refine .bind .offset fun here => ?_
    split
    · exact .bind logs_skipToken fun _ => .pure _
    · exact .pure _

/-- The notes of a sequence are those of its items, in their order. -/
theorem logs_sequence (hn : nested.Logs text) (closer : Option Closer) :
    Logs text (sequence nested closer) := by
  have hnext : Logs text (sequence.next nested closer) :=
    .bind (logs_item hn) fun _ => .bind (hn.sequence _) fun _ => .pure _
  refine .bind quiet_skipLayout.logs fun _ => .bind .rest fun ahead => ?_
  split
  · exact .pure _
  · exact .unclosed _
  · split
    · exact .bind (.advance _) fun _ => .pure _
    · exact hnext
  · exact hnext

/-- A region that something else closes is noted where it ends. -/
theorem logs_region (hn : nested.Logs text) : Logs text (region nested) := by
  have hmissing : Logs text region.missing :=
    .noteHere (fun _ => rfl) (fun _ => rfl) (fun _ => trivial) (.pure _)
  have hnext : Logs text (region.next nested) :=
    .bind (logs_item hn) fun _ => .bind hn.region fun _ => .pure _
  refine .bind quiet_skipLayout.logs fun _ => .bind .rest fun ahead => ?_
  split
  · exact hmissing
  split
  · exact hmissing
  split
  · dsimp only
    split
    · exact hmissing
    split
    · exact .bind (.advance _) fun _ => .bind (logs_delimiterAfter _) fun _ => .pure _
    split
    · refine .bind (.advance _) fun _ => .bind (logs_delimiterAfter _) fun _ => ?_
      exact .bind hn.region fun _ => .pure _
    · exact hnext
  · exact hnext

/-- Rows that something else closes are noted where they end. -/
theorem logs_rows (hn : nested.Logs text) (row : Row) (cell : Cell) :
    Logs text (rows nested row cell) := by
  have hmissing : Logs text (rows.missing row cell) :=
    .noteHere (fun _ => rfl) (fun _ => rfl) (fun _ => trivial) (.pure _)
  have hnext : Logs text (rows.next nested row cell) := .bind (logs_item hn) fun _ => hn.rows _ _
  refine .bind quiet_skipLayout.logs fun _ => .bind .rest fun ahead => ?_
  split
  · exact hmissing
  split
  · exact hmissing
  split
  · exact .bind (.advance _) fun _ => hn.rows _ _
  split
  · dsimp only
    split
    · refine .bind (.advance _) fun _ => .bind .rest fun ahead => ?_
      split
      · exact .bind (quiet_through _).logs fun _ => .bind (hn.rows _ _) fun _ => .pure _
      · exact .bind (hn.rows _ _) fun _ => .pure _
    split
    · exact .bind (.advance _) fun _ => .bind quiet_environmentName.logs fun _ => .pure _
    · exact hnext
  · exact hnext

/-- A missing name is noted at its place, and an unsupported environment by its name. -/
theorem logs_environment (hn : nested.Logs text) : Logs text (environment nested) := by
  refine .bind quiet_environmentName.logs fun found => ?_
  split
  · exact .noteHere (fun _ => rfl) (fun _ => rfl) (fun _ => trivial) (.pure _)
  split
  · exact .bind (.note rfl trivial) fun _ => .bind (logs_skipEnvironment _) fun _ => .pure _
  · refine .ite (.bind quiet_columnSpecification.logs fun _ => ?_) (.bind (.pure _) fun _ => ?_)
    all_goals
      refine .bind (hn.rows _ _) fun _ => ?_
      split
      · exact .pure _
      · exact .pure _

/-- A delimited region notes its opening delimiter first and then its content. -/
theorem logs_delimited (hn : nested.Logs text) : Logs text (delimited nested) :=
  .bind (logs_delimiterAfter _) fun _ => .bind hn.region fun _ => .pure _

/-- A command, after its name; it began at byte `s.offset`, where it took a character at least. -/
theorem reports_command (hn : nested.Logs text) {s : Scan} (hs : s.Reports text)
    (hahead : s.rest ≠ []) {count : Nat} (hcount : 0 < count) (found : Command) :
    ((command nested s.offset found).finish (s.advance count)).Reports text := by
  have hargument := logs_argument hn
  have hlater := hs.advance count
  cases found with
  | symbol | identifier | operatorName | space | limits | ignored | right | middle
  | endEnvironment => exact hlater
  | sized factor =>
    obtain ⟨more, hmore⟩ := quiet_delimiter (s.advance count)
    cases hrun : delimiter? (s.advance count) with
    | ok found t =>
      rw [finish_ok hrun, Scan.advance_add] at hmore
      unfold command
      rw [finish_bind hrun, hmore]
      cases found with
      | some glyph => exact hs.advance _
      | none =>
        exact reports_noteBack hs hahead (by omega) (n := .sizeWithoutDelimiter s.offset) trivial
          fun k hk => (Option.some.inj hk).symm
    | error e t =>
      unfold command
      rw [finish_bind_error hrun]
      exact quiet_delimiter.logs _ hlater
  | decoration | boxed | phantom | cancel =>
    exact (Logs.bind hargument fun _ => .pure _) _ hlater
  | fraction | overset | underset =>
    exact (Logs.bind hargument fun _ => .bind hargument fun _ => .pure _) _ hlater
  | sqrt =>
    have hsqrt : Logs text (command nested s.offset .sqrt) := by
      refine .bind quiet_skipLayout.logs fun _ => .bind .rest fun ahead => ?_
      split
      · refine .bind (.advance _) fun _ => .bind (hn.sequence _) fun _ => ?_
        exact .bind hargument fun _ => .pure _
      · exact .bind hargument fun _ => .pure _
    exact hsqrt _ hlater
  | left => exact (Logs.bind (logs_delimited hn) fun _ => .pure _) _ hlater
  | beginEnvironment => exact (Logs.bind (logs_environment hn) fun _ => .pure _) _ hlater
  | namedOperator => exact (Logs.bind logs_textArgument fun _ => .pure _) _ hlater

/-- A style command notes what its argument notes. -/
theorem logs_styled (hn : nested.Logs text) (style : StyleCommand) :
    Logs text (styled nested style) := by
  cases style with
  | text => exact .bind logs_textArgument fun _ => .pure _
  | formula =>
    refine .bind quiet_skipLayout.logs fun _ => .bind .rest fun ahead => ?_
    split
    · exact .bind (.advance _) fun _ => .bind (hn.sequence _) fun _ => .pure _
    · exact .bind hn.base fun _ => .pure _

/-- A command reports from behind its name, once the place of its backslash is known. -/
theorem reports_commandBase (hn : nested.Logs text) {s : Scan} (hs : s.Reports text)
    (hahead : s.rest ≠ []) (after : List Char) :
    ((commandBase nested after).finish s).Reports text := by
  unfold commandBase
  dsimp only
  split
  · exact hs
  · split
    · split
      · exact hs
      · exact reports_command hn hs hahead (by omega) _
    · exact hs.advance _
    · exact (Logs.bind (.advance _) fun _ => .bind (logs_styled hn _) fun _ => .pure _) s hs

/-- A base makes notes only as a group or as a command. -/
theorem logs_base (hn : nested.Logs text) : Logs text (base nested) := by
  intro s hs
  have hlayout := hs.advance (layoutLength s.rest)
  unfold base
  rw [finish_bind (run_skipLayout s), finish_bind (run_rest _)]
  generalize s.advance (layoutLength s.rest) = t at hlayout
  cases hrest : t.rest with
  | nil => exact hlayout
  | cons c after =>
    have hahead : t.rest ≠ [] := by simp [hrest]
    dsimp only
    split
    · exact (Logs.bind (.advance _) fun _ => .bind (hn.sequence _) fun _ => .pure _) t hlayout
    split
    · exact hlayout.advance _
    split
    · exact reports_commandBase hn hlayout hahead after
    split
    · exact hlayout
    split
    · exact hlayout.advance _
    split
    · exact hlayout.advance _
    split
    · exact hlayout
    · exact hlayout.advance _

end Reading

/-! ## The log of a formula -/

namespace Nested

/-- If the parts that are nested report truthfully, so do the parts one level up. -/
theorem Logs.rules {text : List Char} {nested : Nested} (hn : nested.Logs text) :
    nested.rules.Logs text :=
  ⟨Reading.logs_base hn, Reading.logs_limits hn, Reading.logs_sequence hn, Reading.logs_region hn,
    Reading.logs_rows hn⟩

/-- **Every step keeps the notes truthful and in order**, to any depth. -/
theorem logs_ofDepth (text : List Char) (depth : Nat) : (ofDepth depth).Logs text := by
  induction depth with
  | zero => exact ⟨.pure _, fun _ => .pure _, fun _ => .pure _, .pure _, fun _ _ => .pure _⟩
  | succ depth ih => exact ih.rules

end Nested

/-- What the notes on a formula are worth. -/
structure TrustworthyLog (text : String) (notes : List Note) : Prop where
  /-- All of them are reported for debugging. -/
  debug : ∀ n ∈ notes, n.level = .debug
  /-- A command that is reported to have been skipped is there … -/
  commands : ∀ name place, .skippedCommand name place ∈ notes → ∃ ahead,
    AheadAt text.toList place ahead ∧ '\\' :: name.toList <+: ahead ∧
      commandAt? ahead = some name
  /-- … and so is a character. -/
  characters : ∀ c place, .skippedCharacter c place ∈ notes → ∃ after,
    AheadAt text.toList place (c :: after)
  /-- The places of the skips increase. -/
  skips : (notes.filterMap Note.skipOffset?).Pairwise (· < ·)
  /-- The places of all notes that name one do not decrease. -/
  offsets : (notes.filterMap Note.offset?).Pairwise (· ≤ ·)
  /-- They are in the formula or at its end. -/
  within : ∀ place ∈ notes.filterMap Note.offset?, place ≤ text.utf8ByteSize

/-- The notes of a scan, in the order in which they were made. -/
theorem Scan.Reports.log {text : String} {s : Scan} (h : s.Reports text.toList) :
    TrustworthyLog text s.notes.reverse := by
  have hordered : s.notes.reverse.Pairwise Note.Precedes := List.pairwise_reverse.mpr h.ordered
  refine ⟨fun n hn => (h.truthful n (List.mem_reverse.mp hn)).level_eq,
    fun name place hnote => ?_, fun c place hnote => ?_, ?_, ?_, fun place hplace => ?_⟩
  · obtain ⟨ahead, hahead, hname⟩ := h.truthful _ (List.mem_reverse.mp hnote)
    exact ⟨ahead, hahead, isPrefix_of_commandAt hname, hname⟩
  · obtain ⟨ahead, hahead, hhead⟩ := h.truthful _ (List.mem_reverse.mp hnote)
    obtain ⟨after, rfl⟩ := List.head?_eq_some_iff.mp hhead
    exact ⟨after, hahead⟩
  · exact hordered.filterMap _ fun n m hnm j hj k hk => hnm.2 j hj k hk
  · exact hordered.filterMap _ fun n m hnm j hj k hk => hnm.1 j hj k hk
  · obtain ⟨n, hn, hoffset⟩ := List.mem_filterMap.mp hplace
    have hpast := (h.past n (List.mem_reverse.mp hn)).1 place hoffset
    have hend := h.here.le
    rw [utf8Length_toList] at hend
    omega

/-- The notes on a formula are those of the scan at which its reading ends. -/
theorem notes_read (text : String) : (read text).notes
    = ((Reading.alone (·.sequence none)).finish (Scan.start text)).notes.reverse := by
  cases hrun : Reading.alone (·.sequence none) (Scan.start text) with
  | ok members t => rw [Reading.finish_ok hrun, read, hrun]
  | error e t => rw [Reading.finish_error hrun, read, hrun]

/-- **The log is truthful and in the order of the formula**, whether the formula can be read or
not. -/
theorem read_log (text : String) : TrustworthyLog text (read text).notes := by
  have hsequence : Reading.Logs text.toList (Reading.alone (·.sequence none)) :=
    .bind .rest fun _ => (Nested.logs_ofDepth _ _).sequence none
  rw [notes_read]
  exact (hsequence _ (Scan.Reports.start text)).log

/-- A skipped command before a character that is skipped and an open group: a log of a formula
that cannot be read. -/
example : (read "\\x&\x7b").notes = [.skippedCommand "x" 0, .skippedCharacter '&' 2] := by
  decide +kernel

end OfficeMath
