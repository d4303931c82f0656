import OfficeMath.Proofs.Latex.GroupInvariant
import OfficeMath.Proofs.Latex.SideBySide

/-!
# Balanced braces

In a text the character after a backslash is no brace, whatever it is.  If the other braces of a
formula are balanced (`balancedFrom`), one would expect that it can be read.  This is not so: where
the reader takes text as it stands, it may take the closing brace of a group that it is in
(`not_parse_of_balanced`).

This happens in three places, and there only (`keepsBraces`): the argument of a text command may
be a lone closing brace or backslash; an unsupported environment is skipped together with the
braces in it; and in the column specification of an array the reader counts braces that stand
after a backslash.  A formula with balanced braces in which these places are sound can be read
(`parse_ok_of_balanced`), provided that it has no comments, which may hide braces, and no opening
brackets, which may begin the index of a root or the height of a row.

The reader and the balance may disagree about which groups are open.  Of an environment name
that has braces in it the reader takes one closing brace only.  But it always leaves at least as
many closing braces ahead as it needs (`Sufficient`), and so it never misses one.
-/

namespace OfficeMath

/-- Whether the braces ahead are balanced where `depth` groups are open.  The first character ahead
may stand after a backslash. -/
def balancedFrom : (escaped : Bool) → (depth : Nat) → List Char → Bool
  | _, depth, [] => depth = 0
  | true, depth, _ :: rest => balancedFrom false depth rest
  | false, depth, c :: rest =>
    if c = '\\' then balancedFrom true depth rest
    else if c = '{' then balancedFrom false (depth + 1) rest
    else if c = '}' then depth ≠ 0 && balancedFrom false (depth - 1) rest
    else balancedFrom false depth rest

/-- How many more groups are opened than closed. -/
def openedFrom : (escaped : Bool) → List Char → Int
  | _, [] => 0
  | true, _ :: rest => openedFrom false rest
  | false, c :: rest =>
    if c = '\\' then openedFrom true rest
    else if c = '{' then openedFrom false rest + 1
    else if c = '}' then openedFrom false rest - 1
    else openedFrom false rest

/-- The texts after those backslashes that do not stand after a backslash themselves. -/
def commandTails : (escaped : Bool) → List Char → List (List Char)
  | _, [] => []
  | true, _ :: rest => commandTails false rest
  | false, c :: rest =>
    if c = '\\' then rest :: commandTails true rest else commandTails false rest

/-! ## Where text is taken as it stands -/

/-- The argument of a text command is neither a closing brace nor a backslash. -/
def plainTextKept (ahead : List Char) : Bool :=
  match ahead.drop (layoutLength ahead) with
  | [] => true
  | c :: _ => c ≠ '}' && c ≠ '\\'

/-- Up to the brace that closes a column specification, no brace stands after a backslash. -/
def specificationKeptFrom : (escaped : Bool) → (depth : Nat) → List Char → Bool
  | _, _, [] => true
  | true, depth, c :: rest => c ≠ '{' && c ≠ '}' && specificationKeptFrom false depth rest
  | false, depth, c :: rest =>
    if c = '\\' then specificationKeptFrom true depth rest
    else if c = '{' then specificationKeptFrom false (depth + 1) rest
    else if c = '}' then
      match depth with
      | 0 => true
      | depth + 1 => specificationKeptFrom false depth rest
    else specificationKeptFrom false depth rest

/-- The column specification ahead, if there is one, has no such brace. -/
def specificationKept (ahead : List Char) : Bool :=
  match ahead.drop (layoutLength ahead) with
  | '{' :: inside => specificationKeptFrom false 0 inside
  | _ => true

/-- What is skipped as the body of an environment closes no more groups than it opens. -/
def skippedKept (name : String) (s : Scan) : Bool :=
  openedFrom false ((Reading.skipEnvironment name).finish s).rest ≤ openedFrom false s.rest

/-- The plain text after the beginning of an environment keeps the braces. -/
def environmentKept (ahead : List Char) : Bool :=
  match Reading.environmentName? ⟨0, ahead, []⟩ with
  | .ok (some name) t =>
    match Environment.ofName? name with
    | none => skippedKept name t
    | some known => !known.hasColumnSpecification || specificationKept t.rest
  | _ => true

/-- The plain text after a command keeps the braces, given the text after its backslash. -/
def keepsBraces (after : List Char) : Bool :=
  let name := commandName after
  let ahead := after.drop name.length
  if takesText (String.ofList name) then plainTextKept ahead
  else if name = "begin".toList then environmentKept ahead
  else true

/-- Whether a command takes text does not matter where the text would be kept. -/
theorem keepsBraces_of_kept {after : List Char}
    (htext : plainTextKept (after.drop (commandName after).length) ∨
      takesText (String.ofList (commandName after)) = false)
    (henvironment : commandName after = "begin".toList →
      environmentKept (after.drop (commandName after).length)) : keepsBraces after := by
  unfold keepsBraces
  dsimp only
  split
  · next htakes => exact htext.resolve_right (by simp [htakes])
  split
  · next hname => exact henvironment hname
  · rfl

/-! ## Enough closing braces -/

/-- The opened groups of a balanced text are those that it closes. -/
theorem openedFrom_of_balanced {escaped : Bool} {depth : Nat} {text : List Char}
    (h : balancedFrom escaped depth text) : openedFrom escaped text = -depth := by
  induction text generalizing escaped depth with
  | nil =>
    have hdepth : depth = 0 := by cases escaped <;> simpa [balancedFrom] using h
    cases escaped <;> simp [openedFrom, hdepth]
  | cons c rest ih =>
    cases escaped with
    | true => exact ih h
    | false =>
      unfold balancedFrom at h
      unfold openedFrom
      split at h
      · next hc =>
        rw [if_pos hc]
        exact ih h
      next hbackslash =>
      rw [if_neg hbackslash]
      split at h
      · next hc =>
        rw [if_pos hc, ih h]
        omega
      next hopening =>
      rw [if_neg hopening]
      split at h
      · next hc =>
        rw [Bool.and_eq_true, decide_eq_true_iff] at h
        rw [if_pos hc, ih h.2]
        omega
      · next hc =>
        rw [if_neg hc]
        exact ih h

/-- The braces ahead are balanced where at least this many groups are open, and whatever is taken
as it stands keeps them. -/
structure Sufficient (escaped : Bool) (count : Nat) (text : List Char) : Prop where
  comments : '%' ∉ text
  brackets : '[' ∉ text
  commands : ∀ after ∈ commandTails escaped text, keepsBraces after
  balanced : ∃ depth ≥ count, balancedFrom escaped depth text

namespace Sufficient

variable {count : Nat} {c : Char} {after text : List Char} {escaped : Bool}

/-- Fewer groups need fewer braces. -/
theorem mono {fewer : Nat} (h : Sufficient escaped count text) (hle : fewer ≤ count) :
    Sufficient escaped fewer text := by
  obtain ⟨depth, hdepth, hbalanced⟩ := h.balanced
  exact ⟨h.comments, h.brackets, h.commands, depth, Nat.le_trans hle hdepth, hbalanced⟩

/-- A text that has ended closes no group. -/
theorem not_nil (h : Sufficient escaped (count + 1) []) : False := by
  obtain ⟨depth, hdepth, hbalanced⟩ := h.balanced
  have hzero : depth = 0 := by cases escaped <;> simpa [balancedFrom] using hbalanced
  omega

/-- The character after a backslash is passed over, whatever it is. -/
theorem afterBackslash (h : Sufficient true count (c :: after)) : Sufficient false count after := by
  obtain ⟨depth, hdepth, hbalanced⟩ := h.balanced
  exact ⟨fun hc => h.comments (List.mem_cons_of_mem _ hc),
    fun hc => h.brackets (List.mem_cons_of_mem _ hc), h.commands, depth, hdepth, hbalanced⟩

/-- Behind a backslash the next character is escaped, and the command keeps its braces. -/
theorem backslash (h : Sufficient false count ('\\' :: after)) :
    Sufficient true count after ∧ keepsBraces after := by
  obtain ⟨depth, hdepth, hbalanced⟩ := h.balanced
  have hcommands := h.commands
  simp only [commandTails, ↓reduceIte, List.forall_mem_cons] at hcommands
  rw [balancedFrom, if_pos rfl] at hbalanced
  exact ⟨⟨fun hc => h.comments (List.mem_cons_of_mem _ hc),
    fun hc => h.brackets (List.mem_cons_of_mem _ hc), hcommands.2, depth, hdepth, hbalanced⟩,
    hcommands.1⟩

/-- A character that is no backslash changes the balance alone. -/
theorem next (h : Sufficient false count (c :: after)) (hc : c ≠ '\\') {fewer : Nat}
    (hbalanced : ∃ depth ≥ fewer, balancedFrom false depth after) :
    Sufficient false fewer after := by
  have hcommands := h.commands
  rw [commandTails, if_neg hc] at hcommands
  exact ⟨fun hc => h.comments (List.mem_cons_of_mem _ hc),
    fun hc => h.brackets (List.mem_cons_of_mem _ hc), hcommands, hbalanced⟩

/-- Behind an opening brace one more closing brace is ahead. -/
theorem opening (h : Sufficient false count ('{' :: after)) :
    Sufficient false (count + 1) after := by
  obtain ⟨depth, hdepth, hbalanced⟩ := h.balanced
  rw [balancedFrom, if_neg (by decide), if_pos rfl] at hbalanced
  exact h.next (by decide) ⟨depth + 1, Nat.succ_le_succ hdepth, hbalanced⟩

/-- Where the reader has no open group, the balance has one. -/
theorem closing (h : Sufficient false count ('}' :: after)) :
    Sufficient false (count - 1) after := by
  obtain ⟨depth, hdepth, hbalanced⟩ := h.balanced
  rw [balancedFrom, if_neg (by decide), if_neg (by decide), if_pos rfl, Bool.and_eq_true]
    at hbalanced
  exact h.next (by decide) ⟨depth - 1, by omega, hbalanced.2⟩

/-- A character that is neither a brace nor a backslash leaves the count alone. -/
theorem char (hc : c ∉ ['{', '}', '\\']) (h : Sufficient false count (c :: after)) :
    Sufficient false count after := by
  obtain ⟨hopening, hclosing, hbackslash⟩ : c ≠ '{' ∧ c ≠ '}' ∧ c ≠ '\\' := by simpa using hc
  obtain ⟨depth, hdepth, hbalanced⟩ := h.balanced
  rw [balancedFrom, if_neg hbackslash, if_neg hopening, if_neg hclosing] at hbalanced
  exact h.next hbackslash ⟨depth, hdepth, hbalanced⟩

/-- So do any number of such characters. -/
theorem chars {taken : List Char} (htaken : ∀ c ∈ taken, c ∉ ['{', '}', '\\'])
    (h : Sufficient false count (taken ++ text)) : Sufficient false count text := by
  induction taken with
  | nil => exact h
  | cons c taken ih =>
    obtain ⟨hc, htaken⟩ := List.forall_mem_cons.mp htaken
    exact ih htaken (h.char hc)

/-- Any character is passed over where no closing brace is needed. -/
theorem any (hc : c ≠ '\\') (h : Sufficient false 0 (c :: after)) : Sufficient false 0 after := by
  by_cases hopening : c = '{'
  · subst hopening
    exact h.opening.mono (Nat.zero_le _)
  by_cases hclosing : c = '}'
  · subst hclosing
    exact h.closing
  · exact h.char (by simp [hc, hopening, hclosing])

/-- Without comments, layout is made of blanks. -/
theorem layout (h : Sufficient false count text) :
    Sufficient false count (text.drop (layoutLength text)) := by
  have hblanks : ∀ c ∈ text.take (layoutLength text), isBlank c := by
    have hcomments := h.comments
    clear h
    induction text with
    | nil => simp
    | cons c rest ih =>
      obtain ⟨hpercent, hrest⟩ : '%' ≠ c ∧ '%' ∉ rest := by simpa using hcomments
      by_cases hblank : isBlank c
      · rw [layoutLength_blank hblank, Nat.add_comm, List.take_succ_cons]
        exact List.forall_mem_cons.mpr ⟨hblank, ih hrest⟩
      · rw [layoutLength_cons (by simpa using hblank) (Ne.symm hpercent)]
        simp
  have hbraces : ∀ c ∈ ['{', '}', '\\'], isBlank c = false := by decide
  rw [← List.take_append_drop (layoutLength text) text] at h
  refine h.chars fun c hc hbrace => ?_
  have hblank := hblanks c hc
  rw [hbraces c hbrace] at hblank
  cases hblank

/-- A command is passed over with its name. -/
theorem command (h : Sufficient false count ('\\' :: after)) :
    Sufficient false count (after.drop (commandName after).length) := by
  obtain ⟨hescaped, -⟩ := h.backslash
  cases after with
  | nil =>
    obtain ⟨depth, hdepth, hbalanced⟩ := hescaped.balanced
    exact ⟨hescaped.comments, hescaped.brackets, nofun, depth, hdepth, hbalanced⟩
  | cons c rest =>
    obtain ⟨more, hname, hmore⟩ := commandName_cons_cases c rest
    have hprefix : more <+: rest := by
      have hwhole := commandName_isPrefix (c :: rest)
      rw [hname] at hwhole
      exact (List.cons_prefix_cons.mp hwhole).2
    obtain ⟨after, rfl⟩ := hprefix
    rw [hname, List.length_cons, List.drop_succ_cons, List.drop_left]
    refine hescaped.afterBackslash.chars fun x hx hbrace => ?_
    have hbraces : ∀ x ∈ ['{', '}', '\\'], ¬ (x.isAlpha ∨ x = '*') := by decide
    exact hbraces x hbrace (hmore x hx)

end Sufficient

/-! ## Steps that succeed -/

namespace Reading

namespace Leaves

variable {α β : Type} {ahead : List Char} {post middle : List Char → Prop} {m : Reading α}
  {f : α → Reading β}

theorem pure (a : α) (h : post ahead) : (Pure.pure a : Reading α).Leaves ahead post :=
  fun s hs => ⟨a, s, rfl, hs ▸ h⟩

theorem note (n : Note) (h : post ahead) : (Reading.note n).Leaves ahead post :=
  fun s hs => ⟨(), { s with notes := n :: s.notes }, rfl, hs ▸ h⟩

/-- Making a note and going on. -/
theorem noted {f : Unit → Reading β} (n : Note) (h : (f ()).Leaves ahead post) :
    (Reading.note n >>= f).Leaves ahead post :=
  fun s hs => h { s with notes := n :: s.notes } hs

/-- Two steps in a row. -/
theorem bind (first : m.Leaves ahead middle)
    (second : ∀ a after, middle after → (f a).Leaves after post) : (m >>= f).Leaves ahead post := by
  intro s hs
  obtain ⟨a, t, hrun, ht⟩ := first s hs
  obtain ⟨b, u, hrun', hu⟩ := second a t.rest ht t rfl
  exact ⟨b, u, (run_bind_ok hrun).trans hrun', hu⟩

/-- Looking ahead. -/
theorem rest {f : List Char → Reading β} (h : (f ahead).Leaves ahead post) :
    (Reading.rest >>= f).Leaves ahead post := by
  intro s hs
  subst hs
  exact h s rfl

/-- Looking at the offset. -/
theorem offset {f : Nat → Reading β} (h : ∀ start, (f start).Leaves ahead post) :
    (Reading.offset >>= f).Leaves ahead post :=
  fun s hs => h s.offset s hs

/-- Taking characters. -/
theorem take {f : Unit → Reading β} {count : Nat} (h : (f ()).Leaves (ahead.drop count) post) :
    (Reading.advance count >>= f).Leaves ahead post := by
  intro s hs
  subst hs
  exact h (s.advance count) rfl

/-- Taking layout. -/
theorem layout {f : Unit → Reading β}
    (h : (f ()).Leaves (ahead.drop (layoutLength ahead)) post) :
    (skipLayout >>= f).Leaves ahead post := by
  intro s hs
  subst hs
  exact h (s.advance (layoutLength s.rest)) rfl

/-- Taking everything up to a mark. -/
theorem through {f : Option (List Char) → Reading β} {mark : Char} {taken : List Char}
    (htaken : before? mark ahead = some taken)
    (h : (f (some taken)).Leaves (ahead.drop (taken.length + 1)) post) :
    (through? mark >>= f).Leaves ahead post := by
  intro s hs
  subst hs
  have hrun : through? mark s = .ok (some taken) (s.advance (taken.length + 1)) := by
    unfold through?
    rw [run_bind_ok (run_rest s), htaken]
    rfl
  rw [run_bind_ok hrun]
  exact h (s.advance (taken.length + 1)) rfl

/-- A choice between two steps. -/
theorem ite {c : Prop} [Decidable c] {m' : Reading α} (yes : c → m.Leaves ahead post)
    (no : ¬ c → m'.Leaves ahead post) : (if c then m else m').Leaves ahead post := by
  by_cases h : c
  · rw [if_pos h]
    exact yes h
  · rw [if_neg h]
    exact no h

end Leaves

/-! ## Text taken as it stands -/

variable {count : Nat} {ahead : List Char}

/-- Inside a group there is a closing brace ahead.  It may stand after a backslash, and then the
group is still to be closed. -/
theorem before_closing {escaped : Bool} (h : Sufficient escaped (count + 1) ahead) :
    ∃ taken, before? '}' ahead = some taken ∧
      Sufficient false count (ahead.drop (taken.length + 1)) := by
  induction ahead generalizing escaped with
  | nil => exact h.not_nil.elim
  | cons c after ih =>
    by_cases hclosing : c = '}'
    · subst hclosing
      refine ⟨[], if_pos rfl, ?_⟩
      cases escaped with
      | true => exact h.afterBackslash.mono (Nat.le_succ count)
      | false => exact h.closing
    have hlater : ∃ escaped, Sufficient escaped (count + 1) after := by
      cases escaped with
      | true => exact ⟨false, h.afterBackslash⟩
      | false =>
        by_cases hbackslash : c = '\\'
        · subst hbackslash
          exact ⟨true, h.backslash.1⟩
        by_cases hopening : c = '{'
        · subst hopening
          exact ⟨false, h.opening.mono (Nat.le_succ _)⟩
        · exact ⟨false, h.char (by simp [hbackslash, hopening, hclosing])⟩
    obtain ⟨escaped, hafter⟩ := hlater
    obtain ⟨taken, htaken, hrest⟩ := ih hafter
    exact ⟨c :: taken, by rw [before?, if_neg hclosing, htaken]; rfl, hrest⟩

/-- The name of an environment keeps the braces. -/
theorem leaves_environmentName (h : Sufficient false count ahead) :
    environmentName?.Leaves ahead (Sufficient false count) := by
  have hlayout := h.layout
  refine .layout (.rest ?_)
  split
  · next inside hrest =>
    rw [hrest] at hlayout
    obtain ⟨taken, htaken, hafter⟩ := before_closing hlayout.opening
    rw [hrest]
    exact .take (.through htaken (.pure _ hafter))
  · exact .pure _ hlayout

/-- Plain text in braces ends at the brace that closes it. -/
theorem leaves_textFrom (count depth : Nat) (h : Sufficient false (count + depth + 1) ahead)
    {bound : Nat} (hbound : ahead.length ≤ bound) (text : List Char) :
    (textFrom bound depth text).Leaves ahead (Sufficient false count) := by
  induction bound generalizing ahead depth text with
  | zero =>
    rw [List.length_eq_zero_iff.mp (Nat.le_zero.mp hbound)] at h
    exact h.not_nil.elim
  | succ bound ih =>
    cases ahead with
    | nil => exact h.not_nil.elim
    | cons c after =>
      have hlength : after.length ≤ bound := Nat.le_of_succ_le_succ hbound
      refine .rest (.offset fun start => .take ?_)
      refine .ite (fun hclosing => ?_) fun hclosing => ?_
      · subst hclosing
        cases depth with
        | zero => exact .pure _ h.closing
        | succ depth => exact ih depth h.closing hlength _
      refine .ite (fun hopening => ?_) fun hopening => ?_
      · subst hopening
        exact ih (depth + 1) h.opening hlength _
      refine .ite (fun htie => ?_) fun _ => ?_
      · exact ih depth (h.char (by simp [htie])) hlength _
      refine .ite (fun hbackslash => ?_) fun hbackslash => ?_
      · subst hbackslash
        have hlater := h.command
        have hshorter : (after.drop (commandName after).length).length ≤ bound := by
          rw [List.length_drop]
          omega
        refine .take ?_
        split
        · exact ih depth hlater hshorter _
        split
        · exact .noted _ (ih depth hlater hshorter _)
        · exact ih depth hlater hshorter _
      · have hlater : Sufficient false (count + depth + 1) after :=
          h.char (by simp [hclosing, hopening, hbackslash])
        split
        · exact ih depth hlater hlength _
        · exact ih depth hlater hlength _

/-- The argument of a text command, if it is no lone closing brace or backslash. -/
theorem leaves_textArgument (h : Sufficient false count ahead) (hkept : plainTextKept ahead) :
    textArgument.Leaves ahead (Sufficient false count) := by
  have hlayout := h.layout
  refine .layout (.rest ?_)
  unfold plainTextKept at hkept
  cases hrest : ahead.drop (layoutLength ahead) with
  | nil => exact .pure _ (hrest ▸ hlayout)
  | cons c after =>
    rw [hrest] at hlayout hkept
    refine .take (.ite (fun hopening => ?_) fun hopening => ?_)
    · subst hopening
      exact leaves_textFrom count 0 hlayout.opening (Nat.le_refl _) _
    · exact .pure _ (hlayout.char (by simpa [hopening] using hkept))

/-- A column specification without braces after backslashes ends at the brace that closes it. -/
theorem specificationAhead_of_kept (count depth : Nat) {escaped : Bool}
    (h : Sufficient escaped (count + depth + 1) ahead)
    (hkept : specificationKeptFrom escaped depth ahead) :
    ∃ found, specificationAhead? depth ahead = some found ∧
      Sufficient false count (ahead.drop found.2) := by
  induction ahead generalizing escaped depth with
  | nil => exact h.not_nil.elim
  | cons c after ih =>
    -- In three of the cases the character is no brace.
    have hpassed {escaped' : Bool} (hopening : c ≠ '{') (hclosing : c ≠ '}')
        (hlater : Sufficient escaped' (count + depth + 1) after)
        (hkept' : specificationKeptFrom escaped' depth after) :
        ∃ found, specificationAhead? depth (c :: after) = some found ∧
          Sufficient false count ((c :: after).drop found.2) := by
      obtain ⟨found, hfound, hafter⟩ := ih depth hlater hkept'
      unfold specificationAhead?
      rw [if_neg hopening, if_neg hclosing, hfound]
      exact ⟨_, rfl, hafter⟩
    cases escaped with
    | true =>
      obtain ⟨⟨hopening, hclosing⟩, hkept'⟩ :
          (c ≠ '{' ∧ c ≠ '}') ∧ specificationKeptFrom false depth after := by
        simpa [specificationKeptFrom] using hkept
      exact hpassed hopening hclosing h.afterBackslash hkept'
    | false =>
      unfold specificationKeptFrom at hkept
      by_cases hbackslash : c = '\\'
      · rw [if_pos hbackslash] at hkept
        subst hbackslash
        exact hpassed (by decide) (by decide) h.backslash.1 hkept
      rw [if_neg hbackslash] at hkept
      by_cases hopening : c = '{'
      · rw [if_pos hopening] at hkept
        subst hopening
        obtain ⟨found, hfound, hafter⟩ := ih (depth + 1) h.opening hkept
        unfold specificationAhead?
        rw [if_pos rfl, hfound]
        exact ⟨_, rfl, hafter⟩
      rw [if_neg hopening] at hkept
      by_cases hclosing : c = '}'
      · rw [if_pos hclosing] at hkept
        subst hclosing
        unfold specificationAhead?
        rw [if_neg hopening, if_pos rfl]
        cases depth with
        | zero => exact ⟨_, rfl, h.closing⟩
        | succ depth =>
          obtain ⟨found, hfound, hafter⟩ := ih depth h.closing hkept
          dsimp only
          rw [hfound]
          exact ⟨_, rfl, hafter⟩
      · rw [if_neg hclosing] at hkept
        exact hpassed hopening hclosing (h.char (by simp [hbackslash, hopening, hclosing])) hkept

/-- A column specification that is kept is closed inside of the text. -/
theorem leaves_columnSpecification (h : Sufficient false count ahead)
    (hkept : specificationKept ahead) :
    columnSpecification.Leaves ahead (Sufficient false count) := by
  have hlayout := h.layout
  refine .layout (.rest ?_)
  unfold specificationKept at hkept
  split
  · next inside hrest =>
    rw [hrest] at hlayout hkept
    obtain ⟨found, hfound, hafter⟩ := specificationAhead_of_kept count 0 hlayout.opening hkept
    rw [hrest]
    refine .take ?_
    rw [hfound]
    exact .take (.pure _ hafter)
  · exact .pure _ hlayout

/-- A body that is passed over needs no closing brace, by induction on the bound. -/
theorem leaves_skipEnvironmentFrom (name : String) (bound depth : Nat)
    (h : Sufficient false 0 ahead) :
    (skipEnvironmentFrom name bound depth).Leaves ahead (Sufficient false 0) := by
  induction bound generalizing ahead depth with
  | zero => exact .note _ h
  | succ bound ih =>
    refine .rest ?_
    cases ahead with
    | nil => exact .note _ h
    | cons c after =>
      refine .take (.ite (fun hc => .take ?_) fun hc => ih depth (h.any hc))
      subst hc
      have hlater := h.command
      split
      · refine .bind (leaves_environmentName hlater) fun found after hafter => ?_
        split
        · exact ih _ hafter
        · exact ih _ hafter
      split
      · refine .bind (leaves_environmentName hlater) fun found after hafter => ?_
        split
        · cases depth with
          | zero => exact .pure _ hafter
          | succ depth => exact ih _ hafter
        · exact ih _ hafter
      · exact ih depth hlater

/-- The body of an environment is skipped, and keeps the braces if it closes no more groups than
it opens. -/
theorem leaves_skipEnvironment {name : String} {s : Scan} (h : Sufficient false count s.rest)
    (hkept : skippedKept name s) :
    (skipEnvironment name).Leaves s.rest (Sufficient false count) := by
  intro u hu
  have hskips : (skipEnvironment name).Leaves s.rest (Sufficient false 0) :=
    .rest (leaves_skipEnvironmentFrom name _ 0 (h.mono (Nat.zero_le _)))
  obtain ⟨_, t, hrun, ht⟩ := hskips s rfl
  obtain ⟨_, v, hrun', hv⟩ := hskips u hu
  obtain ⟨-, hrest⟩ := (alike_skipEnvironment name hu.symm).ok hrun hrun'
  refine ⟨_, v, hrun', ?_⟩
  obtain ⟨depth, hdepth, hbalanced⟩ := h.balanced
  obtain ⟨depth', -, hbalanced'⟩ := hv.balanced
  have hopened := of_decide_eq_true hkept
  rw [finish_ok hrun, hrest, openedFrom_of_balanced hbalanced, openedFrom_of_balanced hbalanced']
    at hopened
  exact ⟨hv.comments, hv.brackets, hv.commands, depth', by omega, hbalanced'⟩

end Reading

/-! ## Formulas -/

/-- Enough closing braces are ahead, whatever is taken. -/
def enoughBraces : GroupInvariant where
  Holds := Sufficient false
  layout h := h.layout
  opening h := h.opening
  closing h := h.closing
  stray h := h.closing
  char _ hc h := h.char hc
  command h := h.command
  text h htext := by
    obtain ⟨-, hkept⟩ := h.backslash
    rw [keepsBraces, if_pos htext] at hkept
    exact Reading.leaves_textArgument h.command hkept
  name h _ := Reading.leaves_environmentName h.command
  environment := by
    intro count after h hname s t environment hs hrun
    obtain ⟨-, hkept⟩ := h.backslash
    have hahead : Sufficient false count (after.drop 5) := by
      have hcommand := h.command
      rwa [hname] at hcommand
    have hplain : takesText "begin" = false := by decide +kernel
    have hkept' : environmentKept (after.drop 5) := by
      simpa [keepsBraces, hname, hplain] using hkept
    -- Where the environment begins does not matter.
    have halike : Reading.Alike Eq s ⟨0, after.drop 5, []⟩ Reading.environmentName?
      Reading.environmentName? := Reading.alike_environmentName hs
    have hafter : Sufficient false count t.rest := by
      obtain ⟨_, u, hrun', hu⟩ := Reading.leaves_environmentName hahead s hs
      rw [hrun] at hrun'
      cases hrun'
      exact hu
    unfold environmentKept at hkept'
    cases hrun' : Reading.environmentName? ⟨0, after.drop 5, []⟩ with
    | error e u =>
      rw [Reading.Alike, hrun, hrun'] at halike
      cases halike
    | ok found u =>
      obtain ⟨rfl, hrest⟩ := halike.ok hrun hrun'
      rw [hrun'] at hkept'
      rw [hrest] at hafter ⊢
      dsimp only at hkept'
      constructor
      · intro hunsupported
        rw [hunsupported] at hkept'
        exact Reading.leaves_skipEnvironment hafter hkept'
      · intro known hknown hcolumns
        rw [hknown] at hkept'
        exact Reading.leaves_columnSpecification hafter (by simpa [hcolumns] using hkept')
  height h _ := fun hmem => h.brackets (List.mem_cons_of_mem _ hmem)
  index h hname := by
    intro hbracket
    refine h.brackets (List.mem_cons_of_mem _ ?_)
    exact List.mem_of_mem_drop (List.mem_of_mem_drop (List.mem_of_mem_head? hbracket))

/-- **Balanced braces can be read** where text that is taken as it stands keeps them, in a formula
without comments and without opening brackets. -/
theorem parse_ok_of_balanced {text : String} (hcomments : '%' ∉ text.toList)
    (hbrackets : '[' ∉ text.toList) (hbalanced : balancedFrom false 0 text.toList)
    (hkept : ∀ after ∈ commandTails false text.toList, keepsBraces after) :
    ∃ formula, parse text = .ok formula := by
  have henough : enoughBraces.Holds 0 text.toList :=
    ⟨hcomments, hbrackets, hkept, 0, Nat.le_refl 0, hbalanced⟩
  obtain ⟨-, herror⟩ := enoughBraces.parse_cases henough
  cases hparse : parse text with
  | ok formula => exact ⟨formula, rfl⟩
  | error e =>
    obtain ⟨-, count, hleft⟩ := herror e hparse
    exact (Sufficient.not_nil hleft).elim

/-- A text with braces of its own, an array with columns, an environment that is skipped and a name
with a brace in it; the last command is unknown. -/
theorem parse_ok_of_balanced_environments :
    let text := "\x7b\\text\x7ba\\\x7d{}\x7d \\begin{array}\x7bc@\x7b\\quad\x7dl\x7d\\mathbf{1}&\x7d" ++
      "\\left\\\x7b\\begin{tikz}\\draw\x7b\\end{x}\x7d\\end{tikz}" ++
      "\\begin\x7ba\x7bb\x7d\\end\x7ba\x7bb\x7dc\x7d\x7d\\foo"
    balancedFrom false 0 text.toList ∧ ∃ formula, parse text = .ok formula := by
  intro text
  -- One check, so that the kernel decodes the text once.
  have hall : '%' ∉ text.toList ∧ '[' ∉ text.toList ∧ balancedFrom false 0 text.toList ∧
      ∀ after ∈ commandTails false text.toList,
        (plainTextKept (after.drop (commandName after).length) ∨
          takesText (String.ofList (commandName after)) = false) ∧
        (commandName after = "begin".toList →
          environmentKept (after.drop (commandName after).length)) := by
    decide +kernel
  obtain ⟨hcomments, hbrackets, hbalanced, hkept⟩ := hall
  exact ⟨hbalanced, parse_ok_of_balanced hcomments hbrackets hbalanced fun after hmem =>
    keepsBraces_of_kept (hkept after hmem).1 (hkept after hmem).2⟩

/-- **Balanced braces alone do not suffice.**  The text command takes the closing brace of the group
that it stands in for its argument. -/
theorem not_parse_of_balanced :
    ¬ ∀ text : String, '%' ∉ text.toList → '[' ∉ text.toList →
      balancedFrom false 0 text.toList → ∃ formula, parse text = .ok formula := by
  intro hclaim
  obtain ⟨formula, hread⟩ := hclaim "\x7b\\text\x7d" (by decide) (by decide) (by decide)
  have hfails : parse "\x7b\\text\x7d" = .error ⟨7, .brace⟩ :=
    eq_error_of_error? (by decide +kernel)
  rw [hfails] at hread
  cases hread

end OfficeMath
