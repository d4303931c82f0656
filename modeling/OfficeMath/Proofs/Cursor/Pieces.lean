import OfficeMath.Proofs.Cursor.Numbers

/-!
# Walking over the pieces of a formula

A walk matches a step of the reader (`Walk.Matches`) if wherever the cursor follows a scan the walk
does to the cursor what the step does to the scan.  The elementary steps match, with two exceptions:
a walk looks ahead by `peek`, where the reader sees all that is ahead, and it takes a character or
a command to see what it is, where the reader takes it only if it can be used.  So the first pieces
are compared step by step.  From them on a piece is composed in the same way on both sides, and
matches because its parts do.
-/

namespace OfficeMath

namespace Walk

variable {text : String} {s : Scan} {α β : Type}

/-- A walk does to a cursor that follows a scan what a reading does to the scan. -/
def Matches (text : String) (s : Scan) (w : Walk α) (m : Reading α) : Prop := Ends text s w (m s)

namespace Matches

variable {w w' : Walk α} {m m' : Reading α} {f : α → Walk β} {g : α → Reading β}

theorem pure (a : α) : Matches text s (Pure.pure a) (Pure.pure a) := Ends.pure a

theorem note (n : Note) : Matches text s (Walk.note n) (Reading.note n) := gives_note n

theorem unclosed (closer : Closer) :
    Matches text s (Walk.unclosed closer : Walk α) (Reading.unclosed closer) :=
  ends_unclosed closer

/-- Two steps in a row. -/
theorem bind (first : Matches text s w m) (second : ∀ a t, Matches text t (f a) (g a)) :
    Matches text s (w >>= f) (m >>= g) := by
  unfold Matches at first ⊢
  cases h : m s with
  | ok a t =>
    rw [h] at first
    rw [Reading.run_bind_ok h]
    exact Ends.bind first (second a t)
  | error e t =>
    rw [h] at first
    rw [Reading.run_bind_error h]
    exact Ends.bindError first

/-- Both choose, on conditions that say the same. -/
theorem iteIff {p q : Prop} [Decidable p] [Decidable q] (hpq : p ↔ q)
    (yes : q → Matches text s w m) (no : ¬ q → Matches text s w' m') :
    Matches text s (if p then w else w') (if q then m else m') := by
  by_cases h : q
  · rw [if_pos h, if_pos (hpq.mpr h)]
    exact yes h
  · rw [if_neg h, if_neg (mt hpq.mp h)]
    exact no h

/-- The same choice is made on both sides. -/
theorem ite {p : Prop} [Decidable p] (yes : p → Matches text s w m)
    (no : ¬ p → Matches text s w' m') :
    Matches text s (if p then w else w') (if p then m else m') :=
  iteIff Iff.rfl yes no

/-- A choice of the walk that is not taken. -/
theorem otherwise {p : Prop} [Decidable p] (hp : ¬ p) (h : Matches text s w' m) :
    Matches text s (if p then w else w') m := by
  rwa [if_neg hp]

/-- Where no cursor follows the scan nothing has to be shown. -/
theorem given (h : AheadAt text.toList s.offset s.rest → Matches text s w m) :
    Matches text s w m := Ends.given h

/-- A step of the walk that leads to where the cursor has been. -/
theorem after {a : α} {m : Reading β} (hw : Gives text s w a s) (h : Matches text s (f a) m) :
    Matches text s (w >>= f) m :=
  Ends.bind hw h

/-- The reader looks ahead. -/
theorem rest {w : Walk α} {m : List Char → Reading α} (h : Matches text s w (m s.rest)) :
    Matches text s w (Reading.rest >>= m) := h

/-- Both look ahead, the walk at the next character only. -/
theorem peek {f : Option Char → Walk β} {g : List Char → Reading β}
    (h : Matches text s (f s.rest.head?) (g s.rest)) :
    Matches text s (Walk.peek >>= f) (Reading.rest >>= g) :=
  Ends.bind gives_peek h

/-- The reader asks for the place. -/
theorem offset {w : Walk α} {m : Nat → Reading α} (h : Matches text s w (m s.offset)) :
    Matches text s w (Reading.offset >>= m) := h

/-- Both ask for the place. -/
theorem place {f : Nat → Walk β} {g : Nat → Reading β}
    (h : Matches text s (f s.offset) (g s.offset)) :
    Matches text s (Walk.place >>= f) (Reading.offset >>= g) :=
  Ends.bind gives_place h

/-- Both take the same characters. -/
theorem take {a : α} {count : Nat} {g : Unit → Reading β}
    (hw : Gives text s w a (s.advance count))
    (h : Matches text (s.advance count) (f a) (g ())) :
    Matches text s (w >>= f) (Reading.advance count >>= g) :=
  Ends.bind hw h

/-- The reader takes in two portions what the walk has taken at once. -/
theorem takeTwice {a : α} {first second : Nat} {g : Unit → Unit → Reading β}
    (hw : Gives text s w a (s.advance (first + second)))
    (h : Matches text (s.advance (first + second)) (f a) (g () ())) :
    Matches text s (w >>= f)
      (Reading.advance first >>= fun u => Reading.advance second >>= g u) := by
  rw [← Scan.advance_add] at hw h
  exact Ends.bind hw h

/-- Both make a note of the place. -/
theorem noteHere {n : Nat → Note} {a : α} :
    Matches text s (do Walk.note (n (← Walk.place)); return a)
      (do Reading.note (n (← Reading.offset)); return a) :=
  .place (.bind (.note _) fun _ _ => .pure _)

end Matches

/-! ## Layout, primes, text up to a mark -/

/-- The cursor skips the layout that the reader skips. -/
theorem matches_skipLayout : Matches text s skipLayout Reading.skipLayout := gives_skipLayout

/-- It counts the same apostrophes. -/
theorem matches_primes : Matches text s primes Reading.primes := gives_primes

/-- The text before a mark is at the front. -/
theorem exists_of_before? {mark : Char} {ahead taken : List Char}
    (h : before? mark ahead = some taken) : ∃ behind, ahead = taken ++ mark :: behind := by
  induction ahead generalizing taken with
  | nil => cases h
  | cons c ahead ih =>
    rw [before?] at h
    split at h
    · next hc =>
      cases h
      exact ⟨ahead, by rw [hc, List.nil_append]⟩
    · obtain ⟨found, hfound, rfl⟩ := Option.map_eq_some_iff.mp h
      obtain ⟨behind, hbehind⟩ := ih hfound
      exact ⟨behind, by rw [hbehind, List.cons_append]⟩

/-- It takes the same text up to a mark. -/
theorem matches_through (mark : Char) :
    Matches text s (through? mark) (Reading.through? mark) := by
  refine .given fun hs => .after gives_rest (.rest ?_)
  cases hbefore : before? mark s.rest with
  | some taken =>
    obtain ⟨behind, hbehind⟩ := exists_of_before? hbefore
    have hslice : Gives text s (slice s.offset (s.offset + utf8Length taken)) taken s :=
      gives_slice (mark :: behind) (hbehind ▸ hs) rfl
    refine .after gives_place (.after hslice (.take (gives_goBy (taken.length + 1) ?_) (.pure _)))
    have htake : (taken ++ mark :: behind).take (taken.length + 1) = taken ++ [mark] := by
      rw [List.take_length_add_append]
      rfl
    rw [hbehind, htake, utf8Length_append]
    rfl
  | none =>
    exact .after gives_size (.rest (.take gives_goToEnd (.pure _)))

/-! ## Delimiters -/

/-- A delimiter that is spelled with a backslash is looked up by its name. -/
theorem delimiterSpelled?_command (name : List Char) :
    delimiterSpelled? ('\\' :: name) = delimiterCommand? (String.ofList name) := rfl

/-- Any other delimiter is looked up as a character. -/
theorem delimiterSpelled?_character {c : Char} (h : c ≠ '\\') :
    delimiterSpelled? [c] = delimiterCharacter? c := by
  unfold delimiterSpelled?
  split
  · next heq => exact absurd (List.cons.inj heq).1 h
  · next heq => rw [(List.cons.inj heq).1]
  · next hother => exact absurd rfl (hother c)

/-- What begins with a character is taken as far as a delimiter would reach. -/
theorem gives_meaning {c : Char} {after : List Char} (hs : AheadAt text.toList s.offset s.rest)
    (h : s.rest = c :: after) :
    ∃ count, (∀ found ∈ delimiterAt? s.rest, found.2 = count) ∧
      Gives text (s.advance 1) (delimiter?.meaning s.offset c)
        ((delimiterAt? s.rest).map Prod.fst) (s.advance count) := by
  rw [h]
  unfold delimiter?.meaning delimiterAt?
  dsimp only
  by_cases hdot : c = '.'
  · refine ⟨1, ?_, ?_⟩
    · simp [hdot]
    · rw [if_pos hdot, if_pos hdot]
      exact .pure _
  rw [if_neg hdot, if_neg hdot]
  by_cases hbackslash : c = '\\'
  · subst hbackslash
    rw [if_pos rfl, if_pos rfl]
    refine ⟨1 + (OfficeMath.commandName after).length, ?_, ?_⟩
    · split <;> simp
    · refine (gives_nameAfter h).bind (gives_place.bind ((gives_spelling hs h).bind ?_))
      rw [delimiterSpelled?_command]
      generalize (delimiterCommand? _ <|> _) = found
      cases found <;> exact .pure _
  · rw [if_neg hbackslash, if_neg hbackslash]
    refine ⟨1, ?_, ?_⟩
    · split <;> simp
    · rw [delimiterSpelled?_character hbackslash]
      generalize (delimiterCharacter? c <|> _) = found
      cases found <;> exact .pure _

/-- A delimiter is taken; what is none is put back. -/
theorem matches_delimiter : Matches text s delimiter? Reading.delimiter? := by
  refine .bind matches_skipLayout fun _ t => .given fun ht => .after gives_place (.rest ?_)
  cases hrest : t.rest with
  | nil => exact .after (gives_readChar_nil hrest) (.pure _)
  | cons c after =>
    obtain ⟨count, hcount, hmeaning⟩ := gives_meaning ht hrest
    rw [← hrest]
    refine Ends.bind (gives_readChar hrest) (Ends.bind hmeaning ?_)
    cases hfound : delimiterAt? t.rest with
    | none => exact Ends.bind (gives_goBack ht count) (.pure _)
    | some found =>
      obtain rfl := hcount found hfound
      exact .pure _

/-- It finds the same delimiter after a command, or misses it at the same place. -/
theorem matches_delimiterAfter (command : String) :
    Matches text s (delimiterAfter command) (Reading.delimiterAfter command) := by
  refine .bind matches_delimiter fun found t => ?_
  cases found with
  | some glyph => exact .pure _
  | none => exact .noteHere

/-! ## Environments -/

/-- It trims the same name of an environment. -/
theorem matches_environmentName :
    Matches text s environmentName? Reading.environmentName? := by
  refine .bind matches_skipLayout fun _ t => .rest ?_
  by_cases hopen : t.rest.head? = some '{'
  · obtain ⟨after, hrest⟩ := List.head?_eq_some_iff.mp hopen
    rw [hrest]
    refine .take (gives_eat hrest) (.bind (matches_through _) fun found u => ?_)
    cases found with
    | some name => exact .pure _
    | none => exact .unclosed _
  · refine .after (gives_eat_of_ne hopen) ?_
    rw [if_neg Bool.false_ne_true]
    split
    · next hrest => exact absurd (congrArg List.head? hrest) hopen
    · exact .pure _

/-- How a column specification ends of which the characters in `kept` have been collected: where it
is closed, or at the end of the formula. -/
def specificationEnd (s : Scan) (kept : List Char) :
    Option (List Char × Nat) → EStateM.Result Unclosed Scan (List Char)
  | some (more, length) => .ok (kept.reverse ++ more) (s.advance length)
  | none => .error ⟨(s.advance s.rest.length).offset, .brace⟩ (s.advance s.rest.length)

/-- A character that is not collected does not change how the specification ends. -/
theorem specificationEnd_cons {c : Char} {after : List Char} (h : s.rest = c :: after)
    (kept : List Char) (found : Option (List Char × Nat)) :
    specificationEnd s kept (found.map fun (more, n) => (more, n + 1))
      = specificationEnd (s.advance 1) kept found := by
  cases found with
  | none =>
    rw [Option.map_none, specificationEnd, specificationEnd, Scan.rest_advance_one h,
      Scan.advance_add, h, List.length_cons, Nat.add_comm]
  | some found =>
    rw [Option.map_some, specificationEnd, specificationEnd, Scan.advance_add, Nat.add_comm]

/-- A column specification is collected character by character. -/
theorem ends_specificationFrom (bound depth : Nat) (kept : List Char) (h : s.rest.length < bound) :
    Ends text s (specificationFrom bound depth kept)
      (specificationEnd s kept (specificationAhead? depth s.rest)) := by
  induction bound generalizing s depth kept with
  | zero => exact absurd h (Nat.not_lt_zero _)
  | succ bound ih =>
    cases hrest : s.rest with
    | nil =>
      rw [specificationAhead?, specificationEnd, hrest, List.length_nil, Scan.advance_zero]
      exact (gives_readChar_nil hrest).bind (ends_unclosed _)
    | cons c after =>
      have later (depth' : Nat) (kept' : List Char) :
          Ends text (s.advance 1) (specificationFrom bound depth' kept')
            (specificationEnd s kept' ((specificationAhead? depth' after).map
              fun (more, n) => (more, n + 1))) := by
        rw [specificationEnd_cons hrest, ← Scan.rest_advance_one hrest]
        refine ih depth' kept' ?_
        rw [Scan.rest_advance_one hrest]
        rw [hrest, List.length_cons] at h
        omega
      refine (gives_readChar hrest).bind ?_
      rw [specificationAhead?.eq_def]
      dsimp only
      by_cases hopening : c = '{'
      · rw [if_pos hopening, if_pos hopening]
        exact later (depth + 1) kept
      rw [if_neg hopening, if_neg hopening]
      by_cases hclosing : c = '}'
      · rw [if_pos hclosing, if_pos hclosing]
        cases depth with
        | zero =>
          rw [specificationEnd, List.append_nil]
          exact .pure _
        | succ depth => exact later depth kept
      rw [if_neg hclosing, if_neg hclosing]
      by_cases hdepth : depth = 0
      · have hsame : specificationEnd s kept ((specificationAhead? depth after).map
            fun (more, n) => (if depth = 0 then c :: more else more, n + 1))
            = specificationEnd s (c :: kept) ((specificationAhead? depth after).map
              fun (more, n) => (more, n + 1)) := by
          cases specificationAhead? depth after with
          | none => rfl
          | some found => simp [specificationEnd, hdepth]
        rw [if_pos hdepth, hsame]
        exact later depth (c :: kept)
      · have hsame : (specificationAhead? depth after).map
            (fun (more, n) => (if depth = 0 then c :: more else more, n + 1))
            = (specificationAhead? depth after).map fun (more, n) => (more, n + 1) := by
          simp only [hdepth, if_false]
        rw [if_neg hdepth, hsame]
        exact later depth kept

/-- It reads a column specification one character after the other, and keeps the same ones. -/
theorem matches_columnSpecification :
    Matches text s columnSpecification Reading.columnSpecification := by
  refine .bind matches_skipLayout fun _ t => .rest ?_
  by_cases hopen : t.rest.head? = some '{'
  · obtain ⟨after, hrest⟩ := List.head?_eq_some_iff.mp hopen
    rw [hrest]
    refine .take (gives_eat hrest) (.after gives_rest ?_)
    have hends := @ends_specificationFrom text (t.advance 1) ((t.advance 1).rest.length + 1) 0 []
      (Nat.lt_succ_self _)
    have hafter := Scan.rest_advance_one hrest
    cases hfound : specificationAhead? 0 after with
    | none =>
      rw [hafter, hfound, specificationEnd, hafter] at hends
      rw [hafter]
      exact Ends.bindError hends
    | some found =>
      rw [hafter, hfound, specificationEnd, List.reverse_nil, List.nil_append] at hends
      rw [hafter]
      exact .take hends (.pure _)
  · refine .after (gives_eat_of_ne hopen) ?_
    rw [if_neg Bool.false_ne_true]
    split
    · next hrest => exact absurd (congrArg List.head? hrest) hopen
    · exact .pure _

/-- The body of an unsupported environment is passed over token by token. -/
theorem matches_skipEnvironmentFrom (name : String) (bound depth : Nat) :
    Matches text s (skipEnvironmentFrom name bound depth)
      (Reading.skipEnvironmentFrom name bound depth) := by
  induction bound generalizing s depth with
  | zero => exact .note _
  | succ bound ih =>
    refine .rest ?_
    cases hrest : s.rest with
    | nil => exact .after (gives_readChar_nil hrest) (.note _)
    | cons c after =>
      refine .take (gives_readChar hrest) (.ite (fun _ => ?_) fun _ => ih depth)
      have hname := @gives_nameAfter text s c after hrest
      rw [← Scan.advance_add] at hname
      refine .take hname ?_
      split
      · refine .bind matches_environmentName fun found t => ?_
        split
        · exact ih (depth + 1)
        · exact ih depth
      split
      · refine .bind matches_environmentName fun found t => ?_
        split
        · cases depth with
          | zero => exact .pure _
          | succ depth => exact ih depth
        · exact ih depth
      · exact ih depth

/-- It passes over the same body. -/
theorem matches_skipEnvironment (name : String) :
    Matches text s (skipEnvironment name) (Reading.skipEnvironment name) :=
  .after gives_rest (.rest (matches_skipEnvironmentFrom name _ _))

/-! ## Plain text -/

/-- A text argument is collected character by character. -/
theorem matches_textFrom (bound depth : Nat) (collected : List Char) :
    Matches text s (textFrom bound depth collected)
      (Reading.textFrom bound depth collected) := by
  induction bound generalizing s depth collected with
  | zero => exact .unclosed _
  | succ bound ih =>
    refine .rest ?_
    cases hrest : s.rest with
    | nil => exact .after (gives_readChar_nil hrest) (.unclosed _)
    | cons c after =>
      refine .offset (.take (gives_readChar hrest) ?_)
      refine .ite (fun _ => ?_) fun _ => ?_
      · cases depth with
        | zero => exact .pure _
        | succ depth => exact ih _ _
      refine .ite (fun _ => ih _ _) fun _ => ?_
      refine .ite (fun _ => ih _ _) fun _ => ?_
      refine .ite (fun hbackslash => ?_) fun _ => ?_
      · have hstart : (s.advance 1).offset - 1 = s.offset := by
          show s.offset + utf8Length (s.rest.take 1) - 1 = s.offset
          rw [hrest, hbackslash]
          rfl
        have hname := @gives_nameAfter text s c after hrest
        rw [← Scan.advance_add] at hname
        refine .after gives_place ?_
        rw [hstart]
        refine .take hname ?_
        cases OfficeMath.commandName after with
        | nil => exact ih _ _
        | cons escaped more =>
          dsimp only
          split
          · exact .bind (.note _) fun _ _ => ih _ _
          · exact ih _ _
      exact .ite (fun _ => ih _ _) fun _ => ih _ _

/-- It captures the same plain text. -/
theorem matches_textArgument : Matches text s textArgument Reading.textArgument := by
  refine .bind matches_skipLayout fun _ t => .rest ?_
  cases hrest : t.rest with
  | nil =>
    have hne : t.rest.head? ≠ some '{' := by simp [hrest]
    refine .after (gives_eat_of_ne hne) ?_
    rw [if_neg Bool.false_ne_true]
    exact .after (gives_readChar_nil hrest) (.pure _)
  | cons c after =>
    by_cases hopen : c = '{'
    · subst hopen
      refine .take (gives_eat hrest) (.after gives_rest ?_)
      rw [Scan.rest_advance_one hrest, if_pos rfl]
      exact matches_textFrom _ _ _
    · have hne : t.rest.head? ≠ some '{' := by simpa [hrest] using hopen
      refine .after (gives_eat_of_ne hne) ?_
      dsimp only
      rw [if_neg Bool.false_ne_true, if_neg hopen]
      exact .take (gives_readChar hrest) (.pure _)

/-! ## Tokens that are skipped -/

/-- It drops the same token. -/
theorem matches_skipToken : Matches text s skipToken Reading.skipToken := by
  refine .place (.rest ?_)
  cases hrest : s.rest with
  | nil =>
    have hne : s.rest.head? ≠ some '\\' := by simp [hrest]
    exact .after (gives_takeCommand_none hne) (.after (gives_readChar_nil hrest) (.pure _))
  | cons c after =>
    by_cases hbackslash : c = '\\'
    · subst hbackslash
      dsimp only
      rw [if_pos rfl]
      refine .takeTwice (gives_takeCommand hrest) (.ite (fun _ => ?_) fun _ => ?_)
      · exact .bind matches_environmentName fun _ _ => .note _
      refine .ite (fun _ => ?_) fun _ => .note _
      exact .bind matches_delimiter fun _ _ => .note _
    · have hne : s.rest.head? ≠ some '\\' := by simpa [hrest] using hbackslash
      dsimp only
      rw [if_neg hbackslash]
      exact .after (gives_takeCommand_none hne) (.take (gives_readChar hrest) (.note _))

end Walk

end OfficeMath
