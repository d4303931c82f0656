import OfficeMath.Proofs.Cursor.Bytes
import OfficeMath.Proofs.Cursor.Rules
import OfficeMath.Proofs.Latex.Lexemes

/-!
# What the steps of a walk do

A cursor follows a scan (`Cursor.Follows`) if it stands where the characters of the scan are ahead,
has made the same notes, and has so far stood at places only and taken slices between places only.
Each step of a walk is described by what it does to the scan that the cursor follows
(`Walk.Gives`): a step that only looks leaves the scan as it is, and one that takes something takes
whole characters, as many as the lexeme ahead has.
-/

namespace OfficeMath

/-- A cursor follows a scan of a text, and has never left the places of the text. -/
structure Cursor.Follows (c : Cursor) (text : String) (s : Scan) : Prop where
  text_eq : c.text = text
  place_eq : c.place = s.offset
  ahead : AheadAt text.toList s.offset s.rest
  notes_eq : c.notes = s.notes
  /-- The record is up to date. -/
  latest : c.visited.head? = some c.place
  visited : ∀ place ∈ c.visited, IsPlace text place
  slices : ∀ piece ∈ c.slices, piece.1 ≤ piece.2 ∧ IsPlace text piece.1 ∧ IsPlace text piece.2

/-- At every place of a formula there is a cursor that follows the scan there. -/
theorem Cursor.follows_at {text : String} {place : Nat} {ahead : List Char}
    (h : AheadAt text.toList place ahead) :
    (Cursor.mk text place [] [place] []).Follows text ⟨place, ahead, []⟩ where
  text_eq := rfl
  place_eq := rfl
  ahead := h
  notes_eq := rfl
  latest := rfl
  visited := by
    intro other hother
    rw [List.mem_singleton.mp hother]
    exact isPlace_of_aheadAt h
  slices := nofun

/-- The cursor at the start of a formula follows the scan at its start. -/
theorem Cursor.follows_start (text : String) : (Cursor.start text).Follows text (Scan.start text) :=
  follows_at (aheadAt_zero _)

namespace Walk

variable {α β : Type}

/-- A walk ends with a result wherever the cursor follows a scan, and follows the scan of the result
then. -/
def Ends (text : String) (s : Scan) (w : Walk α) : EStateM.Result Unclosed Scan α → Prop
  | .ok a t => ∀ c : Cursor, c.Follows text s → ∃ d, w c = .ok a d ∧ d.Follows text t
  | .error e t => ∀ c : Cursor, c.Follows text s → ∃ d, w c = .error e d ∧ d.Follows text t

/-- A walk gives a value and leads the cursor from one scan to another one. -/
abbrev Gives (text : String) (s : Scan) (w : Walk α) (a : α) (t : Scan) : Prop :=
  Ends text s w (.ok a t)

variable {text : String} {s t : Scan} {w : Walk α} {f : α → Walk β} {a : α}

namespace Ends

variable {r : EStateM.Result Unclosed Scan α} {r' : EStateM.Result Unclosed Scan β}

theorem pure (a : α) : Gives text s (Pure.pure a : Walk α) a s := fun c hc => ⟨c, rfl, hc⟩

/-- A second walk goes on where the first one has led. -/
theorem bind (first : Gives text s w a t) (second : Ends text t (f a) r') :
    Ends text s (w >>= f) r' := by
  cases r' with
  | ok b u =>
    intro c hc
    obtain ⟨d, hrun, hd⟩ := first c hc
    obtain ⟨d', hrun', hd'⟩ := second d hd
    refine ⟨d', ?_, hd'⟩
    show EStateM.bind w f c = _
    rw [EStateM.bind, hrun]
    exact hrun'
  | error e u =>
    intro c hc
    obtain ⟨d, hrun, hd⟩ := first c hc
    obtain ⟨d', hrun', hd'⟩ := second d hd
    refine ⟨d', ?_, hd'⟩
    show EStateM.bind w f c = _
    rw [EStateM.bind, hrun]
    exact hrun'

/-- Where the first walk fails the second one is not taken. -/
theorem bindError {e : Unclosed} (first : Ends text s w (.error e t)) :
    Ends text s (w >>= f) (.error e t) := by
  intro c hc
  obtain ⟨d, hrun, hd⟩ := first c hc
  refine ⟨d, ?_, hd⟩
  show EStateM.bind w f c = _
  rw [EStateM.bind, hrun]

/-- Where no cursor follows the scan nothing has to be shown. -/
theorem given (h : AheadAt text.toList s.offset s.rest → Ends text s w r) : Ends text s w r := by
  cases r with
  | ok a t => exact fun c hc => h hc.ahead c hc
  | error e t => exact fun c hc => h hc.ahead c hc

end Ends

/-! ## Elementary steps -/

/-- The place of the cursor is the offset of the scan. -/
theorem gives_place : Gives text s place s.offset s :=
  fun c hc => ⟨c, congrArg (EStateM.Result.ok · c) hc.place_eq, hc⟩

/-- The size is that of the whole text. -/
theorem gives_size : Gives text s size text.utf8ByteSize s := by
  intro c hc
  refine ⟨c, ?_, hc⟩
  rw [← hc.text_eq]
  rfl

/-- A walk may go back to a place, or on to another one. -/
theorem gives_goTo {place : Nat} {ahead : List Char} (h : AheadAt text.toList place ahead) :
    Gives text s (goTo place) () ⟨place, ahead, s.notes⟩ := by
  intro c hc
  refine ⟨_, rfl, hc.text_eq, rfl, h, hc.notes_eq, rfl, ?_, hc.slices⟩
  exact List.forall_mem_cons.mpr ⟨isPlace_of_aheadAt h, hc.visited⟩

/-- Going on by the bytes of some characters takes these characters. -/
theorem gives_goBy {count : Nat} (taken : Nat) (h : count = utf8Length (s.rest.take taken)) :
    Gives text s (goBy count) () (s.advance taken) := by
  subst h
  refine .given fun hs => ?_
  exact gives_place.bind (gives_goTo (hs.advance taken))

/-- Going to the end of the formula takes all that is ahead. -/
theorem gives_goToEnd :
    Gives text s (goTo text.utf8ByteSize) () (s.advance s.rest.length) := by
  refine .given fun hs => ?_
  have hend := hs.advance s.rest.length
  rw [List.take_length, ← size_of_aheadAt hs] at hend
  rw [Scan.advance, List.take_length, ← size_of_aheadAt hs]
  exact gives_goTo hend

/-- Notes are kept in the same order. -/
theorem gives_note (n : Note) : Gives text s (note n) () { s with notes := n :: s.notes } := by
  intro c hc
  exact ⟨_, rfl, hc.text_eq, hc.place_eq, hc.ahead, congrArg (n :: ·) hc.notes_eq, hc.latest,
    hc.visited, hc.slices⟩

/-- A group that is not closed is reported at the same place. -/
theorem ends_unclosed (closer : Closer) :
    Ends text s (unclosed closer : Walk α) (.error ⟨s.offset, closer⟩ s) := by
  intro c hc
  refine ⟨c, ?_, hc⟩
  rw [← hc.place_eq]
  rfl

/-- A slice between two places is what stands there. -/
theorem gives_slice {first last : Nat} {piece : List Char} (behind : List Char)
    (h : AheadAt text.toList first (piece ++ behind)) (hlast : last = first + utf8Length piece) :
    Gives text s (slice first last) piece s := by
  subst hlast
  intro c hc
  have hbehind : AheadAt text.toList (first + utf8Length piece) behind := by
    have hadvance := h.advance piece.length
    rwa [List.take_left, List.drop_left] at hadvance
  have hpiece : (slice? c.text first (first + utf8Length piece)).getD [] = piece := by
    rw [hc.text_eq, slice?_of_aheadAt h, Option.getD_some]
  refine ⟨_, congrArg (EStateM.Result.ok · _) hpiece, hc.text_eq, hc.place_eq, hc.ahead,
    hc.notes_eq, hc.latest, hc.visited, ?_⟩
  exact List.forall_mem_cons.mpr
    ⟨⟨Nat.le_add_right _ _, isPlace_of_aheadAt h, isPlace_of_aheadAt hbehind⟩, hc.slices⟩

/-- The slice up to the end is the rest of the text. -/
theorem gives_rest : Gives text s rest s.rest s := by
  refine .given fun hs => gives_place.bind (gives_size.bind ?_)
  exact gives_slice [] (by rwa [List.append_nil]) (size_of_aheadAt hs)

/-! ## Characters -/

/-- The character ahead is the first one of the rest. -/
theorem gives_peek : Gives text s peek s.rest.head? s :=
  gives_rest.bind (.pure _)

/-- At the end no character is read. -/
theorem gives_readChar_nil (h : s.rest = []) : Gives text s readChar none s := by
  refine gives_peek.bind ?_
  rw [h]
  exact .pure _

/-- A character is read with all its bytes. -/
theorem gives_readChar {c : Char} {after : List Char} (h : s.rest = c :: after) :
    Gives text s readChar (some c) (s.advance 1) := by
  refine gives_peek.bind ?_
  rw [h]
  refine (gives_goBy 1 ?_).bind (.pure _)
  rw [h]
  rfl

/-- The character that is asked for is taken if it is ahead. -/
theorem gives_eat {c : Char} {after : List Char} (h : s.rest = c :: after) :
    Gives text s (eat c) true (s.advance 1) := by
  refine gives_peek.bind ?_
  rw [h, List.head?_cons, if_pos rfl]
  refine (gives_goBy 1 ?_).bind (.pure _)
  rw [h]
  rfl

/-- Otherwise the cursor stays. -/
theorem gives_eat_of_ne {c : Char} (h : s.rest.head? ≠ some c) :
    Gives text s (eat c) false s := by
  refine gives_peek.bind ?_
  rw [if_neg h]
  exact .pure _

/-! ## Layout -/

/-- The front of a text that a condition holds of, by its length. -/
theorem take_length_takeWhile (p : Char → Bool) (ahead : List Char) :
    ahead.take (ahead.takeWhile p).length = ahead.takeWhile p :=
  (List.prefix_iff_eq_take.mp (List.takeWhile_prefix p)).symm

/-- A comment is layout up to the end of its line. -/
theorem layoutLength_percent (after : List Char) :
    layoutLength ('%' :: after) = (('%' :: after).takeWhile (· ≠ '\n')).length
      + layoutLength (('%' :: after).drop (('%' :: after).takeWhile (· ≠ '\n')).length) := by
  have hopen : layoutLength ('%' :: after) = 1 + layoutLengthFrom true after := rfl
  have hline : ('%' :: after).takeWhile (· ≠ '\n') = '%' :: after.takeWhile (· ≠ '\n') := rfl
  have hwords : '\n' ∉ after.takeWhile (· ≠ '\n') := by
    intro hmem
    simpa using List.all_eq_true.mp List.all_takeWhile _ hmem
  have hsplit : after.takeWhile (· ≠ '\n') ++ after.dropWhile (· ≠ '\n') = after :=
    List.takeWhile_append_dropWhile
  rw [hopen, hline, List.length_cons, List.drop_succ_cons]
  generalize after.takeWhile (· ≠ '\n') = words at hwords hsplit
  cases hbehind : after.dropWhile (· ≠ '\n') with
  | nil =>
    rw [hbehind, List.append_nil] at hsplit
    subst hsplit
    rw [layoutLengthFrom_open hwords, List.drop_length]
    exact Nat.add_comm _ _
  | cons c behind =>
    have hc : c = '\n' := by
      have hstop := List.head?_dropWhile_not (· ≠ '\n') after
      rw [hbehind] at hstop
      simpa using hstop
    rw [hbehind, hc] at hsplit
    subst hsplit
    rw [layoutLengthFrom_comment hwords, List.drop_left, layoutLength_blank (by decide)]
    omega

/-- Layout is skipped blank by blank and comment by comment, by induction on the bound. -/
theorem gives_skipLayoutFrom (bound : Nat) (h : s.rest.length ≤ bound) :
    Gives text s (skipLayoutFrom bound) () (s.advance (layoutLength s.rest)) := by
  induction bound generalizing s with
  | zero =>
    have hnil : layoutLength s.rest = 0 := by
      rw [List.length_eq_zero_iff.mp (Nat.le_zero.mp h)]
      rfl
    rw [hnil, Scan.advance_zero]
    exact .pure _
  | succ bound ih =>
    refine gives_peek.bind ?_
    cases hrest : s.rest with
    | nil =>
      rw [layoutLength, layoutLengthFrom, Scan.advance_zero]
      exact .pure _
    | cons c after =>
      rw [hrest, List.length_cons] at h
      -- what is taken first, and the layout behind it
      have portion (taken : Nat) (hpos : 0 < taken) {count : Nat}
          (hcount : count = utf8Length (s.rest.take taken))
          (hmore : layoutLength (c :: after) = taken + layoutLength ((c :: after).drop taken)) :
          Ends text s (goBy count >>= fun _ => skipLayoutFrom bound)
            (.ok () (s.advance (layoutLength (c :: after)))) := by
        refine (gives_goBy taken hcount).bind ?_
        rw [hmore, ← Scan.advance_add, ← hrest]
        refine ih ?_
        show (s.rest.drop taken).length ≤ bound
        rw [hrest, List.length_drop, List.length_cons]
        omega
      rw [List.head?_cons]
      dsimp only
      by_cases hblank : isBlank c
      · rw [if_pos hblank]
        refine portion 1 Nat.one_pos ?_ (layoutLength_blank hblank after)
        rw [hrest]
        rfl
      rw [if_neg hblank]
      by_cases hpercent : c = '%'
      · subst hpercent
        rw [if_pos rfl]
        refine gives_rest.bind (portion _ ?_ ?_ (layoutLength_percent after))
        · exact Nat.succ_pos _
        · rw [lineLength_eq, hrest, take_length_takeWhile]
      · rw [if_neg hpercent, layoutLength_cons (by simpa using hblank) hpercent, Scan.advance_zero]
        exact .pure _

/-- The length of the text bounds the loop. -/
theorem gives_skipLayout : Gives text s skipLayout () (s.advance (layoutLength s.rest)) :=
  gives_rest.bind (gives_skipLayoutFrom _ (Nat.le_refl _))

/-! ## Runs -/

/-- A run is taken as the characters that it consists of. -/
theorem gives_run {p : UInt8 → Bool} {q : Char → Bool} (h : Decides p q) :
    Gives text s (goBy (runLength p s.rest)) () (s.advance (s.rest.takeWhile q).length) := by
  refine gives_goBy _ ?_
  rw [take_length_takeWhile, runLength_eq h, utf8Length_run h]

/-- The slice from where the cursor has been up to where it is. -/
theorem gives_sliceFrom (hs : AheadAt text.toList s.offset s.rest) (count : Nat) :
    Gives text (s.advance count) (slice s.offset (s.advance count).offset) (s.rest.take count)
      (s.advance count) := by
  refine gives_slice (s.rest.drop count) ?_ rfl
  rwa [List.take_append_drop]

/-- A run of digits is sliced off. -/
theorem gives_digits : Gives text s digits (s.rest.take (digitCount s.rest))
    (s.advance (digitCount s.rest)) :=
  .given fun hs => gives_place.bind <| gives_rest.bind <|
    (gives_run decides_digit).bind <| gives_place.bind (gives_sliceFrom hs _)

/-- Apostrophes are counted by the bytes that they take, one each. -/
theorem gives_primes : Gives text s primes (primeCount s.rest) (s.advance (primeCount s.rest)) := by
  refine gives_rest.bind ((gives_run decides_apostrophe).bind ?_)
  rw [runLength_eq decides_apostrophe]
  exact .pure _

/-! ## Commands -/

/-- A star is taken if there is a command of the name with the star. -/
theorem gives_star (letters : List Char) {start : Nat}
    (hs : AheadAt text.toList start (letters ++ s.rest))
    (hplace : s.offset = start + utf8Length letters) :
    Gives text s (commandName.star start) ()
      (s.advance (if s.rest.head? = some '*' ∧
        (OfficeMath.command? (String.ofList (letters ++ ['*']))).isSome then 1 else 0)) := by
  refine gives_peek.bind ?_
  by_cases hstar : s.rest.head? = some '*'
  · obtain ⟨after, hrest⟩ := List.head?_eq_some_iff.mp hstar
    have hslice : Gives text s (slice start (s.offset + 1)) (letters ++ ['*']) s := by
      refine gives_slice after ?_ ?_
      · rwa [List.append_assoc, List.singleton_append, ← hrest]
      · rw [hplace, utf8Length_append, Nat.add_assoc]
        rfl
    rw [if_pos hstar]
    refine gives_place.bind (hslice.bind ?_)
    by_cases hfound : (OfficeMath.command? (String.ofList (letters ++ ['*']))).isSome
    · rw [if_pos hfound, if_pos ⟨hstar, hfound⟩]
      refine gives_goBy 1 ?_
      rw [hrest]
      rfl
    · rw [if_neg hfound, if_neg (fun h => hfound h.2), Scan.advance_zero]
      exact .pure _
  · rw [if_neg hstar, if_neg (fun h => hstar h.1), Scan.advance_zero]
    exact .pure _

/-- A name that begins with letters has all letters ahead, and the star if it belongs to it. -/
theorem length_commandName {ahead letters : List Char}
    (hletters : ahead.takeWhile Char.isAlpha = letters) (hne : letters ≠ []) :
    (OfficeMath.commandName ahead).length
      = letters.length + if (ahead.drop letters.length).head? = some '*' ∧
        (OfficeMath.command? (String.ofList (letters ++ ['*']))).isSome then 1 else 0 := by
  obtain ⟨c, more, rfl⟩ := List.exists_cons_of_ne_nil hne
  unfold OfficeMath.commandName
  rw [hletters]
  dsimp only
  cases hbehind : ahead.drop (c :: more).length with
  | nil => rfl
  | cons d behind =>
    by_cases hstar : d = '*'
    · subst hstar
      show (if (OfficeMath.command? (String.ofList (c :: more ++ ['*']))).isSome then
        c :: more ++ ['*'] else c :: more).length = _
      by_cases hfound : (OfficeMath.command? (String.ofList (c :: more ++ ['*']))).isSome
      · rw [if_pos hfound, if_pos ⟨rfl, hfound⟩, List.length_append, List.length_singleton]
      · rw [if_neg hfound, if_neg fun h => hfound h.2, Nat.add_zero]
    · split
      · next heq => exact absurd (List.cons.inj heq).1 hstar
      · rw [if_neg fun h => hstar (by simpa using h.1), Nat.add_zero]

/-- A name is taken. -/
theorem gives_commandName : Gives text s commandName (OfficeMath.commandName s.rest)
    (s.advance (OfficeMath.commandName s.rest).length) := by
  refine .given fun hs => gives_place.bind (gives_rest.bind ?_)
  have hcount := runLength_eq decides_letter s.rest
  have hname : OfficeMath.commandName s.rest
      = s.rest.take (OfficeMath.commandName s.rest).length :=
    List.prefix_iff_eq_take.mp (commandName_isPrefix s.rest)
  cases hletters : s.rest.takeWhile Char.isAlpha with
  | nil =>
    have hone : OfficeMath.commandName s.rest = s.rest.take 1 := by
      rw [OfficeMath.commandName, hletters]
    rw [hletters] at hcount
    rw [hcount, List.length_nil, if_pos rfl, hone]
    cases hrest : s.rest with
    | nil =>
      refine (gives_readChar_nil hrest).bind (gives_place.bind ?_)
      have hslice := gives_sliceFrom hs 0
      rwa [Scan.advance_zero, hrest] at hslice
    | cons c after =>
      refine (gives_readChar hrest).bind (gives_place.bind ?_)
      rw [← hrest]
      have hlength : (s.rest.take 1).length = 1 := by
        rw [hrest]
        rfl
      rw [hlength]
      exact gives_sliceFrom hs 1
  | cons c more =>
    have hsome : runLength isLetterByte s.rest ≠ 0 := by
      rw [hcount, hletters]
      exact Nat.succ_ne_zero _
    have hfront := take_length_takeWhile Char.isAlpha s.rest
    have hrun := @gives_run text s _ _ decides_letter
    rw [hletters] at hfront hrun
    rw [if_neg hsome]
    refine hrun.bind ((gives_star (c :: more) ?_ ?_).bind (gives_place.bind ?_))
    · have hwhole : c :: more ++ s.rest.drop (c :: more).length = s.rest := by
        calc c :: more ++ s.rest.drop (c :: more).length
            = s.rest.take (c :: more).length ++ s.rest.drop (c :: more).length := by rw [hfront]
          _ = s.rest := List.take_append_drop _ _
      show AheadAt text.toList s.offset (c :: more ++ s.rest.drop (c :: more).length)
      rwa [hwhole]
    · show s.offset + utf8Length (s.rest.take (c :: more).length) = _
      rw [hfront]
    · have hslice := gives_sliceFrom hs (OfficeMath.commandName s.rest).length
      have hlength := length_commandName hletters (List.cons_ne_nil c more)
      rw [← hname, hlength, ← Scan.advance_add] at hslice
      rw [hlength, ← Scan.advance_add]
      exact hslice

/-- Going back to where the cursor has been. -/
theorem gives_goBack (hs : AheadAt text.toList s.offset s.rest) (count : Nat) :
    Gives text (s.advance count) (goTo s.offset) () s :=
  gives_goTo hs

/-- A name is taken after its backslash. -/
theorem gives_nameAfter {c : Char} {after : List Char} (h : s.rest = c :: after) :
    Gives text (s.advance 1) commandName (OfficeMath.commandName after)
      (s.advance (1 + (OfficeMath.commandName after).length)) := by
  have hname := @gives_commandName text (s.advance 1)
  rwa [Scan.advance_add, Scan.rest_advance_one h] at hname

/-- A backslash is taken together with the name after it. -/
theorem gives_takeCommand {after : List Char} (h : s.rest = '\\' :: after) :
    Gives text s takeCommand? (some (OfficeMath.commandName after))
      (s.advance (1 + (OfficeMath.commandName after).length)) :=
  (gives_eat h).bind ((gives_nameAfter h).bind (.pure _))

/-- The slice from the backslash on is the command as it is spelled. -/
theorem gives_spelling (hs : AheadAt text.toList s.offset s.rest) {after : List Char}
    (h : s.rest = '\\' :: after) :
    Gives text (s.advance (1 + (OfficeMath.commandName after).length))
      (slice s.offset (s.advance (1 + (OfficeMath.commandName after).length)).offset)
      ('\\' :: OfficeMath.commandName after)
      (s.advance (1 + (OfficeMath.commandName after).length)) := by
  have hslice := gives_sliceFrom hs (1 + (OfficeMath.commandName after).length)
  have hspelled : s.rest.take (1 + (OfficeMath.commandName after).length)
      = '\\' :: OfficeMath.commandName after := by
    rw [h, Nat.add_comm, List.take_succ_cons,
      ← List.prefix_iff_eq_take.mp (commandName_isPrefix after)]
  rwa [hspelled] at hslice

/-- Without a backslash no command is taken. -/
theorem gives_takeCommand_none (h : s.rest.head? ≠ some '\\') :
    Gives text s takeCommand? none s :=
  (gives_eat_of_ne h).bind (.pure _)

/-- Looking for a command takes nothing. -/
theorem gives_peekCommand {after : List Char} (h : s.rest = '\\' :: after) :
    Gives text s peekCommand (some (OfficeMath.commandName after)) s :=
  .given fun hs => gives_place.bind <| (gives_takeCommand h).bind <|
    (gives_goBack hs _).bind (.pure _)

/-- Nor is one looked at. -/
theorem gives_peekCommand_none (h : s.rest.head? ≠ some '\\') :
    Gives text s peekCommand none s := by
  refine .given fun hs => gives_place.bind ((gives_takeCommand_none h).bind ?_)
  exact (gives_goTo hs).bind (.pure _)

end Walk

end OfficeMath
