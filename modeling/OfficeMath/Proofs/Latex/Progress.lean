import OfficeMath.Proofs.Latex.Steps

/-!
# The reader goes forward

No rule of the grammar ever puts a character back, forgets a note or stands still.

* `Scan.Leads` — one scan arises from another by taking characters and making notes;
* `Nested.forward_ofDepth` — every rule leads from the scan that it begins at to the scan that it
  ends at, whether it succeeds or fails (`Reading.Forward`);
* `Reading.length_item_lt` — an item that begins before the end of the formula takes a character,
  so that every round of a repetition leaves less of the formula to the rounds after it.

The one rule that may succeed without taking anything is that for a base: where a script has no
base, the base is empty.  But then the script is still ahead, and the item takes it.
-/

namespace OfficeMath

/-! ## Scans that follow one another -/

namespace Scan

/-- A scan leads to another one by taking characters and making notes. -/
def Leads (s t : Scan) : Prop :=
  ∃ count added, t = { s.advance count with notes := added ++ s.notes }

namespace Leads

/-- A scan leads to itself. -/
theorem refl (s : Scan) : s.Leads s := ⟨0, [], by simp⟩

/-- Taking characters leads on. -/
theorem advance (s : Scan) (count : Nat) : s.Leads (s.advance count) := ⟨count, [], rfl⟩

/-- A note leaves the place as it is. -/
theorem note (s : Scan) (n : Note) : s.Leads { s with notes := n :: s.notes } :=
  ⟨0, [n], by simp⟩

/-- What leads on twice leads on. -/
theorem trans {s t u : Scan} (first : s.Leads t) (second : t.Leads u) : s.Leads u := by
  obtain ⟨count, added, rfl⟩ := first
  obtain ⟨count', added', rfl⟩ := second
  refine ⟨count + count', added' ++ added, ?_⟩
  rw [← advance_add]
  simp [Scan.advance]

/-- What is ahead later is no longer than what is ahead now. -/
theorem length_le {s t : Scan} (h : s.Leads t) : t.rest.length ≤ s.rest.length := by
  obtain ⟨count, added, rfl⟩ := h
  simp [Scan.advance]

/-- What is ahead later is the end of what is ahead now. -/
theorem rest_suffix {s t : Scan} (h : s.Leads t) : t.rest <:+ s.rest := by
  obtain ⟨count, added, rfl⟩ := h
  exact List.drop_suffix _ _

/-- Reading on does not change the size of the formula. -/
theorem size_eq {s t : Scan} (h : s.Leads t) : t.size = s.size := by
  obtain ⟨count, added, rfl⟩ := h
  exact Scan.size_advance s count

/-- Where the offset has changed, less is ahead. -/
theorem length_lt_of_offset_ne {s t : Scan} (h : s.Leads t) (hne : t.offset ≠ s.offset) :
    t.rest.length < s.rest.length := by
  obtain ⟨count, added, rfl⟩ := h
  have htaken : s.rest.take count ≠ [] := by
    intro hnone
    simp [Scan.advance, hnone, utf8Length] at hne
  have hcount : count ≠ 0 := fun h => htaken (by simp [h])
  have hlength : s.rest.length ≠ 0 := fun h => htaken (by simp [List.length_eq_zero_iff.mp h])
  simp only [Scan.advance, List.length_drop]
  omega

/-- Where the offset is the same, so is what is ahead. -/
theorem rest_eq_of_offset_eq {s t : Scan} (h : s.Leads t) (heq : t.offset = s.offset) :
    t.rest = s.rest := by
  obtain ⟨count, added, rfl⟩ := h
  have htaken : s.rest.take count = [] := by
    cases htake : s.rest.take count with
    | nil => rfl
    | cons c more =>
      have hpos := c.utf8Size_pos
      simp only [Scan.advance, htake, utf8Length] at heq
      omega
  have hsplit := List.take_append_drop count s.rest
  rwa [htaken, List.nil_append] at hsplit

end Leads

/-- Taking a character leaves less ahead. -/
theorem length_advance_lt {s : Scan} {count : Nat} (hrest : s.rest ≠ []) (hcount : 0 < count) :
    (s.advance count).rest.length < s.rest.length := by
  have hpos := List.length_pos_iff.mpr hrest
  simp only [advance, List.length_drop]
  omega

/-- What is ahead after a character and some more. -/
theorem rest_advance_cons {s : Scan} {c : Char} {after : List Char} (hrest : s.rest = c :: after)
    (more : Nat) : (s.advance (1 + more)).rest = after.drop more := by
  rw [advance, hrest]
  show (c :: after).drop (1 + more) = after.drop more
  rw [Nat.add_comm, List.drop_succ_cons]

/-- What is ahead after a character. -/
theorem rest_advance_one {s : Scan} {c : Char} {after : List Char} (hrest : s.rest = c :: after) :
    (s.advance 1).rest = after := rest_advance_cons hrest 0

end Scan

/-! ## Steps that go forward -/

namespace Reading

variable {α β : Type}

/-- The scan that a step ends at, whether it succeeds or fails. -/
def finish (m : Reading α) (s : Scan) : Scan :=
  match m s with
  | .ok _ t => t
  | .error _ t => t

/-- A step leads to where it ends. -/
def Forward (m : Reading α) : Prop := ∀ s : Scan, s.Leads (m.finish s)

/-- Where a step succeeds, it ends where it says. -/
theorem finish_ok {m : Reading α} {s t : Scan} {a : α} (h : m s = .ok a t) : m.finish s = t := by
  rw [finish, h]

/-- Where a step fails, it has got as far as its error says. -/
theorem finish_error {m : Reading α} {s t : Scan} {e : Unclosed} (h : m s = .error e t) :
    m.finish s = t := by
  rw [finish, h]

/-- If the first of two steps succeeds, the second one decides where both together end. -/
theorem finish_bind {m : Reading α} {f : α → Reading β} {s t : Scan} {a : α} (h : m s = .ok a t) :
    (m >>= f).finish s = (f a).finish t := by
  rw [finish, run_bind_ok h, finish]

/-- If the first of two steps fails, both together end where it does. -/
theorem finish_bind_error {m : Reading α} {f : α → Reading β} {s t : Scan} {e : Unclosed}
    (h : m s = .error e t) : (m >>= f).finish s = m.finish s := by
  rw [finish_error (run_bind_error h), finish_error h]

namespace Forward

variable {m : Reading α} {f : α → Reading β}

/-- What a step that goes forward leads to. -/
theorem leads (h : m.Forward) {s t : Scan} {a : α} (hrun : m s = .ok a t) : s.Leads t :=
  finish_ok hrun ▸ h s

theorem pure (a : α) : (Pure.pure a : Reading α).Forward := fun s => .refl s

theorem rest : Reading.rest.Forward := fun s => .refl s

theorem offset : Reading.offset.Forward := fun s => .refl s

theorem advance (count : Nat) : (Reading.advance count).Forward := fun s => .advance s count

theorem note (n : Note) : (Reading.note n).Forward := fun s => .note s n

theorem unclosed (closer : Closer) : (Reading.unclosed closer : Reading α).Forward :=
  fun s => .refl s

/-- Two steps in a row. -/
theorem bind (first : m.Forward) (second : ∀ a, (f a).Forward) : (m >>= f).Forward := by
  intro s
  cases hrun : m s with
  | ok a t =>
    rw [finish_bind hrun]
    exact (first.leads hrun).trans (second a t)
  | error e t =>
    rw [finish_bind_error hrun]
    exact first s

/-- A choice between two steps. -/
theorem ite {c : Prop} [Decidable c] {m m' : Reading α} (yes : m.Forward) (no : m'.Forward) :
    (if c then m else m').Forward := by
  by_cases h : c
  · rw [if_pos h]
    exact yes
  · rw [if_neg h]
    exact no

end Forward

/-! ## The lexical steps -/

/-- Layout is taken and not given back. -/
theorem forward_skipLayout : skipLayout.Forward := .bind .rest fun _ => .advance _

/-- So are apostrophes. -/
theorem forward_primes : primes.Forward :=
  .bind .rest fun _ => .bind (.advance _) fun _ => .pure _

/-- A text up to a mark is taken with the mark, and without the mark everything is. -/
theorem forward_through (mark : Char) : (through? mark).Forward := by
  refine .bind .rest fun ahead => ?_
  split
  · exact .bind (.advance _) fun _ => .pure _
  · exact .bind .rest fun _ => .bind (.advance _) fun _ => .pure _

/-- A delimiter is taken as a whole or not at all. -/
theorem forward_delimiter : delimiter?.Forward := by
  refine .bind forward_skipLayout fun _ => .bind .rest fun ahead => ?_
  split
  · exact .bind (.advance _) fun _ => .pure _
  · exact .pure _

/-- A missing delimiter costs a note and nothing else. -/
theorem forward_delimiterAfter (command : String) : (delimiterAfter command).Forward := by
  refine .bind forward_delimiter fun found => ?_
  split
  · exact .pure _
  · exact .bind .offset fun _ => .bind (.note _) fun _ => .pure _

/-- The name of an environment is taken with its braces, and everything is if they are not
closed. -/
theorem forward_environmentName : environmentName?.Forward := by
  refine .bind forward_skipLayout fun _ => .bind .rest fun ahead => ?_
  split
  · refine .bind (.advance _) fun _ => .bind (forward_through _) fun found => ?_
    split
    · exact .pure _
    · exact .unclosed _
  · exact .pure _

/-- So is a column specification. -/
theorem forward_columnSpecification : columnSpecification.Forward := by
  refine .bind forward_skipLayout fun _ => .bind .rest fun ahead => ?_
  split
  · refine .bind (.advance _) fun _ => ?_
    split
    · exact .bind (.advance _) fun _ => .pure _
    · exact .bind (.advance _) fun _ => .unclosed _
  · exact .pure _

/-- A body that is passed over is taken character by character, by induction on the bound. -/
theorem forward_skipEnvironmentFrom (name : String) (bound depth : Nat) :
    (skipEnvironmentFrom name bound depth).Forward := by
  induction bound generalizing depth with
  | zero => exact .note _
  | succ bound ih =>
    refine .bind .rest fun ahead => ?_
    split
    · exact .note _
    refine .bind (.advance _) fun _ => ?_
    split
    · refine .bind (.advance _) fun _ => ?_
      split
      · refine .bind forward_environmentName fun found => ?_
        split
        · exact ih (depth + 1)
        · exact ih depth
      split
      · refine .bind forward_environmentName fun found => ?_
        split
        · cases depth with
          | zero => exact .pure _
          | succ outer => exact ih outer
        · exact ih depth
      · exact ih depth
    · exact ih depth

/-- The loop through such a body goes forward for every bound. -/
theorem forward_skipEnvironment (name : String) : (skipEnvironment name).Forward :=
  .bind .rest fun _ => forward_skipEnvironmentFrom name _ 0

/-- Plain text is taken character by character, by induction on the bound. -/
theorem forward_textFrom (bound depth : Nat) (text : List Char) :
    (textFrom bound depth text).Forward := by
  induction bound generalizing depth text with
  | zero => exact .unclosed _
  | succ bound ih =>
    refine .bind .rest fun ahead => ?_
    split
    · exact .unclosed _
    refine .bind .offset fun _ => .bind (.advance _) fun _ => ?_
    split
    · cases depth with
      | zero => exact .pure _
      | succ outer => exact ih outer text
    split
    · exact ih (depth + 1) text
    split
    · exact ih depth _
    split
    · refine .bind (.advance _) fun _ => ?_
      split
      · exact ih depth text
      split
      · exact .bind (.note _) fun _ => ih depth text
      · exact ih depth _
    split
    · exact ih depth _
    · exact ih depth _

/-- A text argument is the loop through it, or a single character. -/
theorem forward_textArgument : textArgument.Forward := by
  refine .bind forward_skipLayout fun _ => .bind .rest fun ahead => ?_
  split
  · exact .pure _
  · exact .bind (.advance _) fun _ => .ite (forward_textFrom _ _ _) (.pure _)

/-- A token that nothing can be made of is taken as well. -/
theorem forward_skipToken : skipToken.Forward := by
  refine .bind .offset fun _ => .bind .rest fun ahead => ?_
  split
  · exact .pure _
  refine .bind (.advance _) fun _ => ?_
  split
  · refine .bind (.advance _) fun _ => ?_
    split
    · exact .bind forward_environmentName fun _ => .note _
    split
    · exact .bind forward_delimiter fun _ => .note _
    · exact .note _
  · exact .note _

/-! ## The rules of the grammar -/

end Reading

/-- Whether the characters ahead begin a script. -/
def Scan.ScriptAhead (s : Scan) : Prop := s.rest.head? = some '^' ∨ s.rest.head? = some '_'

/-- Nested parts are read going forward.  A base that is found has taken a character, unless it is
the empty base of a script ahead. -/
structure Nested.Forward (nested : Nested) : Prop where
  base : nested.base.Forward
  limits : ∀ place, (nested.limits place).Forward
  sequence : ∀ closer, (nested.sequence closer).Forward
  region : nested.region.Forward
  rows : ∀ row cell, (nested.rows row cell).Forward
  found : ∀ {s t b}, nested.base s = .ok (some b) t →
    t.rest.length < s.rest.length ∨ t.ScriptAhead

namespace Reading

variable {nested : Nested}

/-- An argument is a group, a digit or a base. -/
theorem forward_argument (hn : nested.Forward) : (argument nested).Forward := by
  refine .bind forward_skipLayout fun _ => .bind .rest fun ahead => ?_
  split
  · exact .pure _
  split
  · exact .bind (.advance _) fun _ => .bind (hn.sequence _) fun _ => .pure _
  split
  · exact .bind (.advance _) fun _ => .pure _
  · refine .bind hn.base fun found => ?_
    cases found with
    | none => exact .pure _
    | some b => exact .pure _

/-- Commands that move scripts are taken with their names; any other command stays. -/
theorem forward_limits (hn : nested.Forward) (place : Limits) :
    (Reading.limits nested place).Forward := by
  refine .bind forward_skipLayout fun _ => .bind .rest fun ahead => ?_
  split
  · exact .bind (.advance _) fun _ => hn.limits _
  · exact .bind (.advance _) fun _ => hn.limits _
  · exact .pure _

/-- A superscript is a run of apostrophes or an argument. -/
theorem forward_superscript (hn : nested.Forward) : (superscript nested).Forward := by
  refine .bind forward_skipLayout fun _ => .bind forward_primes fun count => ?_
  split
  · exact forward_argument hn
  · exact .pure _

/-- Each round of the loop for scripts takes a mark and a script, by induction on the bound. -/
theorem forward_scriptsFrom (hn : nested.Forward) (bound : Nat) (scripts : Scripts) :
    (scriptsFrom nested bound scripts).Forward := by
  induction bound generalizing scripts with
  | zero => exact .pure _
  | succ bound ih =>
    refine .bind forward_skipLayout fun _ => .bind .rest fun ahead => ?_
    split
    · split
      · exact .pure _
      · exact .bind (.advance _) fun _ => .bind (forward_argument hn) fun _ => ih _
    · split
      · exact .bind (.advance _) fun _ => .bind (forward_superscript hn) fun _ => ih _
      split
      · exact .bind (.advance _) fun _ => .bind (forward_superscript hn) fun _ => ih _
      · exact .pure _
    · exact .pure _

/-- Scripts are the commands that move them, apostrophes and the loop. -/
theorem forward_scripts (hn : nested.Forward) (b : Base) : (scripts nested b).Forward := by
  refine .bind (forward_limits hn _) fun _ => .bind forward_primes fun _ => ?_
  exact .bind (forward_scriptsFrom hn _ _) fun _ => .pure _

/-- An item is a base and its scripts, or a token that is dropped. -/
theorem forward_item (hn : nested.Forward) : (item nested).Forward := by
  refine .bind forward_skipLayout fun _ => .bind .offset fun _ => .bind hn.base fun found => ?_
  split
  · exact .bind (forward_scripts hn _) fun _ => .pure _
  · refine .bind .offset fun _ => ?_
    split
    · exact .bind forward_skipToken fun _ => .pure _
    · exact .pure _

/-- A sequence ends with its closer or goes on behind an item. -/
theorem forward_sequence (hn : nested.Forward) (closer : Option Closer) :
    (sequence nested closer).Forward := by
  have hnext : (sequence.next nested closer).Forward :=
    .bind (forward_item hn) fun _ => .bind (hn.sequence closer) fun _ => .pure _
  refine .bind forward_skipLayout fun _ => .bind .rest fun ahead => ?_
  split
  · exact .pure _
  · exact .unclosed _
  · exact .ite (.bind (.advance _) fun _ => .pure _) hnext
  · exact hnext

/-- A delimited region ends with `\right` or goes on behind an item or a separator. -/
theorem forward_region (hn : nested.Forward) : (region nested).Forward := by
  have hmissing : region.missing.Forward :=
    .bind .offset fun _ => .bind (.note _) fun _ => .pure _
  have hnext : (region.next nested).Forward :=
    .bind (forward_item hn) fun _ => .bind hn.region fun _ => .pure _
  refine .bind forward_skipLayout fun _ => .bind .rest fun ahead => ?_
  split
  · exact hmissing
  split
  · exact hmissing
  split
  · dsimp only
    split
    · exact hmissing
    split
    · exact .bind (.advance _) fun _ => .bind (forward_delimiterAfter _) fun _ => .pure _
    split
    · refine .bind (.advance _) fun _ => .bind (forward_delimiterAfter _) fun _ => ?_
      exact .bind hn.region fun _ => .pure _
    · exact hnext
  · exact hnext

/-- The rows of an array end with the environment or go on behind an item or a mark. -/
theorem forward_rows (hn : nested.Forward) (row : Row) (cell : Cell) :
    (rows nested row cell).Forward := by
  have hmissing : (rows.missing row cell).Forward :=
    .bind .offset fun _ => .bind (.note _) fun _ => .pure _
  have hnext : (rows.next nested row cell).Forward :=
    .bind (forward_item hn) fun _ => hn.rows _ _
  have hothers : (nested.rows [] [] >>= fun others => pure ((row ++ [cell]) :: others)).Forward :=
    .bind (hn.rows _ _) fun _ => .pure _
  refine .bind forward_skipLayout fun _ => .bind .rest fun ahead => ?_
  split
  · exact hmissing
  split
  · exact hmissing
  split
  · exact .bind (.advance _) fun _ => hn.rows _ _
  split
  · dsimp only
    split
    · refine .bind (.advance _) fun _ => .bind .rest fun _ => ?_
      split
      · exact .bind (forward_through _) fun _ => hothers
      · exact hothers
    split
    · exact .bind (.advance _) fun _ => .bind forward_environmentName fun _ => .pure _
    · exact hnext
  · exact hnext

/-- An environment is a name with a column specification and rows, or a body that is passed over. -/
theorem forward_environment (hn : nested.Forward) : (environment nested).Forward := by
  refine .bind forward_environmentName fun found => ?_
  split
  · exact .bind .offset fun _ => .bind (.note _) fun _ => .pure _
  split
  · exact .bind (.note _) fun _ => .bind (forward_skipEnvironment _) fun _ => .pure _
  · refine .ite (.bind forward_columnSpecification fun _ => ?_) (.bind (.pure _) fun _ => ?_)
    all_goals
      refine .bind (hn.rows _ _) fun _ => ?_
      split
      · exact .pure _
      · exact .pure _

/-- A delimited region begins with its opening delimiter. -/
theorem forward_delimited (hn : nested.Forward) : (delimited nested).Forward := by
  refine .bind (forward_delimiterAfter _) fun _ => .bind hn.region fun _ => ?_
  exact .pure _

/-- Arguments, a region, an environment, a delimiter or a text may follow the name of a command. -/
theorem forward_command (hn : nested.Forward) (start : Nat) (found : Command) :
    (command nested start found).Forward := by
  have hargument := forward_argument hn
  cases found with
  | symbol | identifier | operatorName | space | limits | ignored | right | middle
  | endEnvironment => exact .pure _
  | sized factor =>
    refine .bind forward_delimiter fun found => ?_
    split
    · exact .pure _
    · exact .bind (.note _) fun _ => .pure _
  | decoration | boxed | phantom | cancel => exact .bind hargument fun _ => .pure _
  | fraction | overset | underset =>
    exact .bind hargument fun _ => .bind hargument fun _ => .pure _
  | sqrt =>
    refine .bind forward_skipLayout fun _ => .bind .rest fun ahead => ?_
    split
    · refine .bind (.advance _) fun _ => .bind (hn.sequence _) fun _ => ?_
      exact .bind hargument fun _ => .pure _
    · exact .bind hargument fun _ => .pure _
  | left => exact .bind (forward_delimited hn) fun _ => .pure _
  | beginEnvironment => exact .bind (forward_environment hn) fun _ => .pure _
  | namedOperator => exact .bind forward_textArgument fun _ => .pure _

/-- The argument of a style command is a text, a group or a base. -/
theorem forward_styled (hn : nested.Forward) (style : StyleCommand) :
    (styled nested style).Forward := by
  cases style with
  | text => exact .bind forward_textArgument fun _ => .pure _
  | formula =>
    refine .bind forward_skipLayout fun _ => .bind .rest fun ahead => ?_
    split
    · exact .bind (.advance _) fun _ => .bind (hn.sequence _) fun _ => .pure _
    · exact .bind hn.base fun _ => .pure _

/-- A command is taken with its name; what belongs to the surroundings stays. -/
theorem forward_commandBase (hn : nested.Forward) (after : List Char) :
    (commandBase nested after).Forward := by
  unfold commandBase
  dsimp only
  split
  · exact .pure _
  split
  · split
    · exact .pure _
    · refine .bind .offset fun _ => .bind (.advance _) fun _ => ?_
      exact forward_command hn _ _
  · exact .bind (.advance _) fun _ => .pure _
  · exact .bind (.advance _) fun _ => .bind (forward_styled hn _) fun _ => .pure _

/-- A base takes layout and then a group, a number, a command or a character. -/
theorem forward_base (hn : nested.Forward) : (Reading.base nested).Forward := by
  refine .bind forward_skipLayout fun _ => .bind .rest fun ahead => ?_
  split
  · exact .pure _
  split
  · exact .bind (.advance _) fun _ => .bind (hn.sequence _) fun _ => .pure _
  split
  · exact .bind (.advance _) fun _ => .pure _
  split
  · exact forward_commandBase hn _
  split
  · exact .pure _
  split
  · exact .bind forward_primes fun _ => .pure _
  split
  · exact .bind (.advance _) fun _ => .pure _
  split
  · exact .pure _
  · exact .bind (.advance _) fun _ => .pure _

/-! ## No round stands still -/

@[simp] theorem run_skipLayout (s : Scan) :
    skipLayout s = .ok () (s.advance (layoutLength s.rest)) := rfl

@[simp] theorem run_primes (s : Scan) :
    primes s = .ok (primeCount s.rest) (s.advance (primeCount s.rest)) := rfl

/-- A step that begins by taking characters leaves less ahead. -/
theorem length_finish_advance_lt {α : Type} {s : Scan} {count : Nat} {f : Unit → Reading α}
    (hrest : s.rest ≠ []) (hcount : 0 < count) (hf : (f ()).Forward) :
    ((advance count >>= f).finish s).rest.length < s.rest.length := by
  have hlater := (hf (s.advance count)).length_le
  have htaken := Scan.length_advance_lt hrest hcount
  rw [finish_bind (run_advance count s)]
  omega

/-- A step after another one leaves no more ahead than the first one alone. -/
theorem length_finish_bind_le {α β : Type} {m : Reading α} {f : α → Reading β} {s : Scan}
    (hf : ∀ a, (f a).Forward) :
    ((m >>= f).finish s).rest.length ≤ (m.finish s).rest.length := by
  cases hrun : m s with
  | ok a t =>
    rw [finish_bind hrun, finish_ok hrun]
    exact (hf a t).length_le
  | error e t => exact Nat.le_of_eq (by rw [finish_bind_error hrun])

/-- A command that gives a base has been taken. -/
theorem commandBase_found (hn : nested.Forward) {s t : Scan} {b : Base} {after : List Char}
    (hrest : s.rest ≠ []) (h : commandBase nested after s = .ok (some b) t) :
    t.rest.length < s.rest.length := by
  have taken {count : Nat} {f : Unit → Reading (Option Base)} (hcount : 0 < count)
      (hf : (f ()).Forward) (hrun : (advance count >>= f) s = .ok (some b) t) :
      t.rest.length < s.rest.length := by
    have hlt := length_finish_advance_lt hrest hcount hf
    rwa [finish_ok hrun] at hlt
  unfold commandBase at h
  cases hmeaning : Meaning.ofName? (String.ofList (commandName after)) with
  | none =>
    rw [hmeaning] at h
    cases h
  | some meaning =>
    rw [hmeaning] at h
    cases meaning with
    | command found =>
      dsimp only at h
      split at h
      · cases h
      · rw [run_bind_ok (run_offset s)] at h
        exact taken (by omega) (forward_command hn _ _) h
    | delimiter glyph => exact taken (by omega) (.pure _) h
    | style style => exact taken (by omega) (.bind (forward_styled hn _) fun _ => .pure _) h

/-- A base that is found has taken a character, or a script is ahead. -/
theorem base_found (hn : nested.Forward) {s t : Scan} {b : Base}
    (h : Reading.base nested s = .ok (some b) t) :
    t.rest.length < s.rest.length ∨ t.ScriptAhead := by
  unfold Reading.base at h
  rw [run_bind_ok (run_skipLayout s), run_bind_ok (run_rest _)] at h
  have hlayout := (Scan.Leads.advance s (layoutLength s.rest)).length_le
  generalize s.advance (layoutLength s.rest) = u at h hlayout
  cases hrest : u.rest with
  | nil =>
    rw [hrest] at h
    cases h
  | cons c after =>
    have hne : u.rest ≠ [] := by simp [hrest]
    have taken {count : Nat} {f : Unit → Reading (Option Base)} (hcount : 0 < count)
        (hf : (f ()).Forward) (hrun : (advance count >>= f) u = .ok (some b) t) :
        t.rest.length < s.rest.length := by
      have hlt := length_finish_advance_lt hne hcount hf
      rw [finish_ok hrun] at hlt
      omega
    rw [hrest] at h
    dsimp only at h
    split at h
    · exact .inl (taken (by omega) (.bind (hn.sequence _) fun _ => .pure _) h)
    split at h
    · exact .inl (taken (by omega) (.pure _) h)
    split at h
    · exact .inl (Nat.lt_of_lt_of_le (commandBase_found hn hne h) hlayout)
    split at h
    · next hscript =>
      cases h
      refine .inr ?_
      simpa [Scan.ScriptAhead, hrest] using hscript
    split at h
    · next hprime =>
      rw [run_bind_ok (run_primes u)] at h
      cases h
      have hcount : 0 < primeCount u.rest := by simp [hrest, hprime, primeCount]
      have hlt := Scan.length_advance_lt hne hcount
      exact .inl (by omega)
    split at h
    · exact .inl (taken (by omega) (.pure _) h)
    cases hchar : Expr.ofChar? c with
    | none =>
      rw [hchar] at h
      cases h
    | some e =>
      rw [hchar] at h
      exact .inl (taken (by omega) (.pure _) h)

/-- Where there is no base, the formula has ended, or a character is ahead that stands for nothing,
or a command. -/
theorem base_eq_none {s t : Scan} (h : Reading.base nested s = .ok none t) {u : Scan}
    (hu : u = s.advance (layoutLength s.rest)) :
    (u.rest = [] ∧ t = u) ∨
      (∃ c after, u.rest = c :: after ∧ t = u ∧ Expr.ofChar? c = none ∧
        numberLength (c :: after) = 0 ∧ c ∉ ['{', '\\', '^', '_', '\x27', '~']) ∨
      ∃ after, u.rest = '\\' :: after ∧ commandBase nested after u = .ok none t := by
  unfold Reading.base at h
  rw [run_bind_ok (run_skipLayout s), run_bind_ok (run_rest _), ← hu] at h
  cases hrest : u.rest with
  | nil =>
    rw [hrest] at h
    cases h
    exact .inl ⟨rfl, rfl⟩
  | cons c after =>
    rw [hrest] at h
    dsimp only at h
    by_cases hbrace : c = '{'
    · rw [if_pos hbrace] at h
      obtain ⟨-, v, -, hgroup⟩ := bind_eq_ok.mp h
      obtain ⟨members, w, -, hdone⟩ := bind_eq_ok.mp hgroup
      cases hdone
    rw [if_neg hbrace] at h
    by_cases hnumber : numberLength (c :: after) ≠ 0
    · rw [if_pos hnumber] at h
      cases h
    rw [if_neg hnumber] at h
    by_cases hbackslash : c = '\\'
    · subst hbackslash
      rw [if_pos rfl] at h
      exact .inr (.inr ⟨after, rfl, h⟩)
    rw [if_neg hbackslash] at h
    by_cases hscript : (c = '^' || c = '_') = true
    · rw [if_pos hscript] at h
      cases h
    rw [if_neg hscript] at h
    by_cases hprime : c = '\x27'
    · rw [if_pos hprime] at h
      cases h
    rw [if_neg hprime] at h
    by_cases hspace : c = '~'
    · rw [if_pos hspace] at h
      cases h
    rw [if_neg hspace] at h
    have hmarks : c ≠ '^' ∧ c ≠ '_' := by simpa using hscript
    cases hchar : Expr.ofChar? c with
    | some e =>
      rw [hchar] at h
      cases h
    | none =>
      rw [hchar] at h
      cases h
      exact .inr (.inl ⟨c, after, rfl, rfl, hchar, Decidable.not_not.mp hnumber,
        by simp [hbrace, hbackslash, hmarks, hprime, hspace]⟩)

/-- Where a script is ahead there are no layout, no primes and no command. -/
theorem run_of_scriptAhead (nested : Nested) {s : Scan} (h : s.ScriptAhead) :
    skipLayout s = .ok () s ∧ primes s = .ok 0 s ∧
      ∀ place, limits nested place s = .ok place s := by
  obtain ⟨c, after, hrest, hc⟩ : ∃ c after, s.rest = c :: after ∧ (c = '^' ∨ c = '_') := by
    cases hrest : s.rest with
    | nil => simp [Scan.ScriptAhead, hrest] at h
    | cons c after => exact ⟨c, after, rfl, by simpa [Scan.ScriptAhead, hrest] using h⟩
  have hlayout : layoutLength s.rest = 0 := by
    rcases hc with rfl | rfl <;> rw [hrest] <;> rfl
  have hprimes : primeCount s.rest = 0 := by
    rcases hc with rfl | rfl <;> rw [hrest] <;> rfl
  have hcommand : commandAt? s.rest = none := by
    rcases hc with rfl | rfl <;> rw [hrest] <;> rfl
  have hskip : skipLayout s = .ok () s := by rw [run_skipLayout, hlayout, Scan.advance_zero]
  refine ⟨hskip, by rw [run_primes, hprimes, Scan.advance_zero], fun place => ?_⟩
  unfold limits
  rw [run_bind_ok hskip, run_bind_ok (run_rest s), hcommand]
  rfl

/-- Where a script is ahead, its base takes it. -/
theorem length_scripts_lt (hn : nested.Forward) {s : Scan} (h : s.ScriptAhead) (b : Base) :
    ((scripts nested b).finish s).rest.length < s.rest.length := by
  obtain ⟨hskip, hprimes, hlimits⟩ := run_of_scriptAhead _ h
  have hne : s.rest ≠ [] := by
    intro hnone
    simp [Scan.ScriptAhead, hnone] at h
  have hfirst : ((scriptsFrom nested 3 ⟨none, none, false⟩).finish s).rest.length
      < s.rest.length := by
    unfold scriptsFrom
    rw [finish_bind hskip, finish_bind (run_rest s)]
    rcases h with h | h
    · rw [h]
      exact length_finish_advance_lt hne Nat.one_pos
        (.bind (forward_superscript hn) fun _ => forward_scriptsFrom hn _ _)
    · rw [h]
      exact length_finish_advance_lt hne Nat.one_pos
        (.bind (forward_argument hn) fun _ => forward_scriptsFrom hn _ _)
  unfold scripts
  rw [finish_bind (hlimits _), finish_bind hprimes]
  refine Nat.lt_of_le_of_lt ?_ hfirst
  exact length_finish_bind_le fun _ => .pure _

/-- Where the formula goes on, a token that is skipped leaves less ahead. -/
theorem length_skipToken_lt {s : Scan} (h : s.rest ≠ []) :
    (skipToken.finish s).rest.length < s.rest.length := by
  obtain ⟨c, after, hrest⟩ := List.exists_cons_of_ne_nil h
  have hahead : rest s = .ok (c :: after) s := by rw [run_rest, hrest]
  unfold skipToken
  rw [finish_bind (run_offset s), finish_bind hahead]
  refine length_finish_advance_lt h Nat.one_pos ?_
  refine .ite (.bind (.advance _) fun _ => ?_) (.note _)
  refine .ite (.bind forward_environmentName fun _ => .note _) ?_
  exact .ite (.bind forward_delimiter fun _ => .note _) (.note _)

/-- **Every round moves on.**  An item takes a character unless only layout is ahead. -/
theorem length_item_lt (hn : nested.Forward) {s t : Scan} {found : Option Expr}
    (h : item nested s = .ok found t) (hahead : layoutLength s.rest < s.rest.length) :
    t.rest.length < s.rest.length := by
  unfold item at h
  rw [run_bind_ok (run_skipLayout s), run_bind_ok (run_offset _)] at h
  have hlayout := (Scan.Leads.advance s (layoutLength s.rest)).length_le
  have hrest : (s.advance (layoutLength s.rest)).rest ≠ [] := by
    simpa [Scan.advance] using hahead
  generalize s.advance (layoutLength s.rest) = u at h hlayout hrest
  cases hbase : nested.base u with
  | error e v =>
    rw [run_bind_error hbase] at h
    cases h
  | ok found v =>
    rw [run_bind_ok hbase] at h
    have hv := hn.base.leads hbase
    have hlength := hv.length_le
    cases found with
    | some b =>
      obtain ⟨e, w, hscripts, hw⟩ := bind_eq_ok.mp h
      cases hw
      have hlater := ((forward_scripts hn b).leads hscripts).length_le
      rcases hn.found hbase with hlt | hscript
      · omega
      · have hlt := length_scripts_lt hn hscript b
        rw [finish_ok hscripts] at hlt
        omega
    | none =>
      dsimp only at h
      rw [run_bind_ok (run_offset v)] at h
      by_cases hsame : v.offset = u.offset
      · rw [if_pos hsame] at h
        obtain ⟨_, w, htoken, hw⟩ := bind_eq_ok.mp h
        cases hw
        have hlater := (forward_skipToken.leads htoken).length_le
        by_cases hnone : v.rest = []
        · have hpos := List.length_pos_iff.mpr hrest
          rw [hnone] at hlater
          simp only [List.length_nil] at hlater
          omega
        · have hlt := length_skipToken_lt hnone
          rw [finish_ok htoken] at hlt
          omega
      · rw [if_neg hsame] at h
        cases h
        have hlt := hv.length_lt_of_offset_ne hsame
        omega

/-- A sequence without a closing character ends where the formula does. -/
theorem sequence_finished {s : Scan} (hn : ∀ {s members t}, nested.sequence none s = .ok members t →
    t.rest = []) {t : Scan} {members : List Expr} (h : sequence nested none s = .ok members t) :
    t.rest = [] := by
  unfold sequence at h
  rw [run_bind_ok (run_skipLayout s), run_bind_ok (run_rest _)] at h
  cases hrest : (s.advance (layoutLength s.rest)).rest with
  | nil =>
    rw [hrest] at h
    cases h
    exact hrest
  | cons c after =>
    rw [hrest] at h
    obtain ⟨first, u, -, hothers⟩ := bind_eq_ok.mp h
    obtain ⟨others, v, hrun, hdone⟩ := bind_eq_ok.mp hothers
    cases hdone
    exact hn hrun

end Reading

namespace Nested

/-- The rules, over given nested parts. -/
def rules (nested : Nested) : Nested where
  base := Reading.base nested
  limits := Reading.limits nested
  sequence := Reading.sequence nested
  region := Reading.region nested
  rows := Reading.rows nested

/-- The rules go forward if their nested parts do. -/
theorem Forward.rules {nested : Nested} (hn : nested.Forward) : nested.rules.Forward :=
  ⟨Reading.forward_base hn, Reading.forward_limits hn, Reading.forward_sequence hn,
    Reading.forward_region hn, Reading.forward_rows hn, Reading.base_found hn⟩

/-- **Reading goes forward**, to any depth. -/
theorem forward_ofDepth (depth : Nat) : (ofDepth depth).Forward := by
  induction depth with
  | zero =>
    refine ⟨.pure _, fun _ => .pure _, fun _ => .pure _, .pure _, fun _ _ => .pure _, ?_⟩
    intro s t b h
    cases h
  | succ depth ih => exact ih.rules

end Nested

end OfficeMath
