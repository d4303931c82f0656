import OfficeMath.Proofs.Cursor.Steps
import OfficeMath.Proofs.Latex.Numeral

/-!
# The longest number

A number is read by a cursor in one pass: digits, a dot, digits.  Only when the dot has been taken
does it turn out whether it belongs to the number, and a dot without digits after it is put back.
What is found in this way is the longest numeral at the front of the text ahead:

* `Numeral.length_le_numberLength` — no numeral at the front of a text is longer than the number
  that is taken there, whatever follows it;
* `gives_number` — the pass with its step back takes the number and nothing else;
* `number_is_longest` — so it finds a number exactly if a numeral is ahead, takes the longest one,
  and otherwise leaves the cursor where it was.

Of `1.2.3` the numerals at the front are `1` and `1.2`, of `3.` only `3`, and of `..5` there is
none.
-/

namespace OfficeMath

/-! ## Numerals at the front of a text -/

/-- Digits at the front of a text are among the digits that are counted there. -/
theorem length_le_digitCount {digits : List Char} (h : ∀ c ∈ digits, c.isDigit)
    (more : List Char) : digits.length ≤ digitCount (digits ++ more) := by
  rw [digitCount, List.takeWhile_append_of_pos h, List.length_append]
  exact Nat.le_add_right _ _

/-- The digits before the dot belong to the number. -/
theorem digitCount_le_numberLength (text : List Char) : digitCount text ≤ numberLength text := by
  by_cases hdot : (text.drop (digitCount text)).head? = some '.'
  · obtain ⟨after, hafter⟩ := List.head?_eq_some_iff.mp hdot
    rw [numberLength_of_dot hafter]
    split <;> omega
  · rw [numberLength_of_not_dot hdot]

/-- Decimal places at the front of a text belong to the number, with or without digits before the
dot. -/
theorem length_le_numberLength_of_dot {digits places : List Char} (h : ∀ c ∈ digits, c.isDigit)
    (hplaces : DigitRun places) (more : List Char) :
    digits.length + 1 + places.length ≤ numberLength (digits ++ '.' :: (places ++ more)) := by
  have hcount : digitCount (digits ++ '.' :: (places ++ more)) = digits.length := by
    refine digitCount_append h ?_
    intro c hc
    cases hc
    decide
  have hdot : (digits ++ '.' :: (places ++ more)).drop
      (digitCount (digits ++ '.' :: (places ++ more))) = '.' :: (places ++ more) := by
    rw [hcount, List.drop_left]
  have hpos := List.length_pos_of_ne_nil hplaces.1
  have hle := length_le_digitCount hplaces.2 more
  rw [numberLength_of_dot hdot, hcount, if_neg (by omega)]
  omega

/-- **No numeral at the front of a text is longer than the number that is taken there.** -/
theorem Numeral.length_le_numberLength {piece ahead : List Char} (h : Numeral piece)
    (hfront : piece <+: ahead) : piece.length ≤ numberLength ahead := by
  obtain ⟨more, rfl⟩ := hfront
  cases h with
  | whole h => exact (length_le_digitCount h.2 more).trans (digitCount_le_numberLength _)
  | decimal h h' =>
    have hle := length_le_numberLength_of_dot h.2 h' more
    rw [List.append_assoc, List.cons_append, List.length_append, List.length_cons]
    omega
  | places h =>
    have hnone : ∀ c ∈ ([] : List Char), c.isDigit := nofun
    have hle := length_le_numberLength_of_dot hnone h more
    rw [List.nil_append, List.length_nil] at hle
    rw [List.cons_append, List.length_cons]
    omega

/-- There is a number exactly if there is a numeral at the front. -/
theorem numberLength_ne_zero_iff (ahead : List Char) :
    numberLength ahead ≠ 0 ↔ ∃ piece, Numeral piece ∧ piece <+: ahead := by
  constructor
  · intro h
    exact ⟨_, numeral_take_numberLength h, List.take_prefix _ _⟩
  · rintro ⟨piece, hnumeral, hfront⟩ hzero
    obtain ⟨c, after, rfl, -⟩ := hnumeral.exists_head
    have hle := hnumeral.length_le_numberLength hfront
    rw [hzero, List.length_cons] at hle
    omega

/-- A numeral does not end in a dot. -/
theorem Numeral.getLast?_ne_dot {piece : List Char} (h : Numeral piece) :
    piece.getLast? ≠ some '.' := by
  -- the last character is the last digit of a run
  have hrun (front : List Char) {run : List Char} (hrun : DigitRun run) :
      (front ++ run).getLast? ≠ some '.' := by
    rw [List.getLast?_append_of_ne_nil _ hrun.1]
    intro hdot
    exact absurd (hrun.2 _ (List.mem_of_getLast? hdot)) (by decide)
  cases h with
  | whole h => exact hrun [] h
  | @decimal digits places h h' =>
    have hlast := hrun (digits ++ ['.']) h'
    rwa [List.append_assoc] at hlast
  | places h => exact hrun ['.'] h

/-! ## Taking a number -/

namespace Walk

variable {text : String} {s : Scan}

/-- After the digits the decimal places are taken; a dot without digits is put back. -/
theorem gives_decimals : Gives text (s.advance (digitCount s.rest)) decimals ()
    (s.advance (numberLength s.rest)) := by
  refine .given fun hs => gives_place.bind ?_
  by_cases hdot : (s.rest.drop (digitCount s.rest)).head? = some '.'
  · obtain ⟨after, hafter⟩ := List.head?_eq_some_iff.mp hdot
    have hdigits : Gives text ((s.advance (digitCount s.rest)).advance 1) digits
        (after.take (digitCount after))
        (((s.advance (digitCount s.rest)).advance 1).advance (digitCount after)) := by
      have hat := @gives_digits text ((s.advance (digitCount s.rest)).advance 1)
      rwa [Scan.rest_advance_one hafter] at hat
    refine (gives_eat hafter).bind (hdigits.bind ?_)
    rw [numberLength_of_dot hafter]
    by_cases hnone : digitCount after = 0
    · rw [if_pos hnone, hnone]
      exact gives_goTo hs
    · have hsome : (after.take (digitCount after)).isEmpty = false := by
        rw [List.isEmpty_eq_false_iff]
        exact (digitRun_take_digitCount hnone).1
      rw [if_neg hnone, hsome, Scan.advance_add, Scan.advance_add, ← Nat.add_assoc]
      exact .pure _
  · refine (gives_eat_of_ne hdot).bind ?_
    rw [numberLength_of_not_dot hdot]
    exact .pure _

/-- Taking something changes the place. -/
theorem offset_advance_eq_iff {count : Nat} (h : count ≤ s.rest.length) :
    (s.advance count).offset = s.offset ↔ count = 0 := by
  constructor
  · intro hsame
    have hrest := congrArg List.length ((Scan.Leads.advance s count).rest_eq_of_offset_eq hsame)
    simp only [Scan.advance, List.length_drop] at hrest
    omega
  · rintro rfl
    rw [Scan.advance_zero]

/-- A number is taken if there is one, and nothing otherwise. -/
theorem gives_number : Gives text s number?
    (if numberLength s.rest = 0 then none
      else some (.number (String.ofList (s.rest.take (numberLength s.rest)))))
    (s.advance (numberLength s.rest)) := by
  refine .given fun hs => gives_place.bind (gives_digits.bind (gives_decimals.bind
    (gives_place.bind ?_)))
  have hplace := offset_advance_eq_iff (numberLength_le s.rest)
  by_cases hzero : numberLength s.rest = 0
  · rw [if_pos (hplace.mpr hzero), if_pos hzero]
    exact .pure _
  · rw [if_neg (mt hplace.mp hzero), if_neg hzero]
    exact (gives_sliceFrom hs _).bind (.pure _)

end Walk

/-! ## Bases that are numbers -/

/-- An expression that is a number. -/
def Expr.IsNumber : Expr → Prop
  | .number _ => True
  | _ => False

namespace Reading

variable {nested : Nested}

/-- A rule never gives a number. -/
abbrev NoNumber (m : Reading (Option Base)) : Prop :=
  m.Returns fun found => ∀ b ∈ found, ¬ b.expr.IsNumber

/-- Nothing is no number. -/
theorem noNumber_none : (pure none : Reading (Option Base)).NoNumber := .pure nofun

/-- A base of another form is none. -/
theorem noNumber_some {b : Base} (h : ¬ b.expr.IsNumber) :
    (pure (some b) : Reading (Option Base)).NoNumber := by
  refine .pure fun other hother => ?_
  obtain rfl : b = other := by simpa using hother
  exact h

/-- An environment makes an array or a delimited region, and no number. -/
theorem noNumber_environment (nested : Nested) :
    (environment nested).Returns fun found => ∀ e ∈ found, ¬ e.IsNumber := by
  have hsome {e : Expr} (h : ¬ e.IsNumber) : (pure (some e) : Reading (Option Expr)).Returns
      fun found => ∀ e ∈ found, ¬ e.IsNumber := by
    refine .pure fun other hother => ?_
    obtain rfl : e = other := by simpa using hother
    exact h
  unfold environment
  refine .seq fun name => ?_
  split
  · exact .seq fun _ => .seq fun _ => .pure nofun
  · split
    · exact .seq fun _ => .seq fun _ => .pure nofun
    · refine .iteBind fun specification => .seq fun rows => ?_
      dsimp only
      split <;> exact hsome id

/-- No command stands for a number. -/
theorem noNumber_command (nested : Nested) (start : Nat) (found : Command) :
    (command nested start found).NoNumber := by
  cases found with
  | symbol | identifier | operatorName | space => exact noNumber_some id
  | sized factor =>
    refine .seq fun glyph => ?_
    split
    · exact noNumber_some id
    · exact .seq fun _ => noNumber_none
  | decoration kind mark side =>
    refine .seq fun base => noNumber_some ?_
    cases side <;> exact id
  | fraction | overset | underset => exact .seq fun _ => .seq fun _ => noNumber_some id
  | sqrt =>
    refine .seq fun _ => .seq fun ahead => ?_
    split
    · exact .seq fun _ => .seq fun _ => .seq fun _ => noNumber_some id
    · exact .seq fun _ => noNumber_some id
  | left => exact .bind (.seq fun _ => .seq fun _ => .pure id) fun e he => noNumber_some he
  | beginEnvironment =>
    refine .bind (noNumber_environment nested) fun found hfound => .pure ?_
    intro b hb
    obtain ⟨e, he, rfl⟩ := Option.map_eq_some_iff.mp hb
    exact hfound e he
  | boxed | phantom | cancel | namedOperator => exact .seq fun _ => noNumber_some id
  | limits | ignored | right | middle | endEnvironment => exact noNumber_none

/-- No command makes a number. -/
theorem noNumber_commandBase (nested : Nested) (after : List Char) :
    (commandBase nested after).NoNumber := by
  unfold commandBase
  dsimp only
  split
  · exact noNumber_none
  · next meaning _ =>
    cases meaning with
    | command found =>
      refine .ite (fun _ => noNumber_none) fun _ => .seq fun start => .seq fun _ => ?_
      exact noNumber_command nested start found
    | delimiter => exact .seq fun _ => noNumber_some id
    | style style =>
      refine .seq fun _ => ?_
      have hstyled : (styled nested style).Returns fun e => ¬ e.IsNumber := by
        cases style with
        | text => exact .seq fun _ => .pure id
        | formula =>
          refine .seq fun _ => .seq fun ahead => ?_
          split
          · exact .seq fun _ => .seq fun _ => .pure id
          · exact .seq fun _ => .pure id
      exact .bind hstyled fun e he => noNumber_some he

/-- No character stands for a number on its own. -/
theorem noNumber_ofChar {c : Char} {e : Expr} (h : Expr.ofChar? c = some e) : ¬ e.IsNumber := by
  unfold Expr.ofChar? at h
  split at h
  · cases h
    exact id
  · split at h
    · cases h
      exact id
    · split at h
      · cases h
      · cases h
        exact id

/-- Where a number is ahead after layout, it is the base. -/
theorem base_of_number (nested : Nested) {s u : Scan} (hu : u = s.advance (layoutLength s.rest))
    (h : numberLength u.rest ≠ 0) :
    base nested s = .ok
      (some (.side (.number (String.ofList (u.rest.take (numberLength u.rest))))))
      (u.advance (numberLength u.rest)) := by
  obtain ⟨piece, hnumeral, more, hmore⟩ := (numberLength_ne_zero_iff u.rest).mp h
  obtain ⟨c, after, rfl, hc⟩ := hnumeral.exists_head
  have hbrace : c ≠ '{' := by
    rintro rfl
    rcases hc with hdigit | hdot
    · exact absurd hdigit (by decide)
    · exact absurd hdot (by decide)
  unfold base
  rw [run_bind_ok (run_skipLayout s), ← hu, run_bind_ok (run_rest u)]
  rw [← hmore, List.cons_append] at h ⊢
  dsimp only
  rw [if_neg hbrace, if_pos h]
  rfl

/-- **A base is a number exactly if a numeral is ahead**, after layout. -/
theorem base_isNumber_iff {s t : Scan} {b : Base} (h : base nested s = .ok (some b) t) {u : Scan}
    (hu : u = s.advance (layoutLength s.rest)) :
    b.expr.IsNumber ↔ ∃ piece, Numeral piece ∧ piece <+: u.rest := by
  rw [← numberLength_ne_zero_iff]
  constructor
  · intro hb hzero
    unfold base at h
    rw [run_bind_ok (run_skipLayout s), ← hu, run_bind_ok (run_rest u)] at h
    revert hb
    refine (?_ : NoNumber _) u _ t h b rfl
    split
    · exact noNumber_none
    rename_i c after hrest
    split
    · exact .seq fun _ => .seq fun _ => noNumber_some id
    split
    · next hnumber => exact absurd hzero (hrest ▸ hnumber)
    split
    · exact noNumber_commandBase nested after
    split
    · exact noNumber_some id
    split
    · exact .seq fun _ => noNumber_some id
    split
    · exact .seq fun _ => noNumber_some id
    split
    · exact noNumber_none
    · next e he => exact .seq fun _ => noNumber_some (noNumber_ofChar he)
  · intro hnumber
    rw [base_of_number nested hu hnumber] at h
    cases h
    trivial

end Reading

/-! ## The longest number -/

/-- The longest numeral at the front of a text. -/
structure LongestNumeral (ahead piece : List Char) : Prop where
  numeral : Numeral piece
  front : piece <+: ahead
  longest : ∀ other, Numeral other → other <+: ahead → other.length ≤ piece.length

/-- What is taken for a number is the longest numeral there. -/
theorem longestNumeral_take {ahead : List Char} (h : numberLength ahead ≠ 0) :
    LongestNumeral ahead (ahead.take (numberLength ahead)) where
  numeral := numeral_take_numberLength h
  front := List.take_prefix _ _
  longest other hnumeral hfront := by
    rw [List.length_take_of_le (numberLength_le ahead)]
    exact hnumeral.length_le_numberLength hfront

/-- The characters of a numeral are of ASCII. -/
theorem Numeral.utf8Length_eq {piece : List Char} (h : Numeral piece) :
    utf8Length piece = piece.length := by
  refine utf8Length_of_ascii fun c hc => ?_
  rcases h.isDigit_or_eq_dot hc with hdigit | rfl
  · exact decides_digit.char c hdigit
  · decide

/-- Where a numeral is ahead there is no layout. -/
theorem Numeral.layoutLength_eq_zero {piece ahead : List Char} (h : Numeral piece)
    (hfront : piece <+: ahead) : layoutLength ahead = 0 := by
  obtain ⟨more, rfl⟩ := hfront
  obtain ⟨c, after, rfl, hc⟩ := h.exists_head
  rcases hc with hdigit | rfl
  · refine layoutLength_cons (isBlank_eq_false (.inr hdigit)) ?_ _
    rintro rfl
    exact absurd hdigit (by decide)
  · exact layoutLength_cons (by decide) (by decide) _

/-- **A number is the longest numeral ahead**, wherever in a formula a cursor stands.  One is found
exactly if a numeral is at the front of what is ahead; then the cursor has moved over the longest
such numeral, which never ends in a dot, and otherwise it is where it was.  The rule for bases
takes the same numbers. -/
theorem number_is_longest {c : Cursor} {text : String} {s : Scan} (hc : c.Follows text s) :
    ∃ found d, Walk.number? c = .ok found d ∧
      (found.isSome ↔ ∃ piece, Numeral piece ∧ piece <+: s.rest) ∧
      (∀ e, found = some e → ∃ piece, e = .number (String.ofList piece) ∧
        piece = s.rest.take (numberLength s.rest) ∧ LongestNumeral s.rest piece ∧
        piece.getLast? ≠ some '.' ∧ d.place = c.place + piece.length ∧
        d.Follows text (s.advance piece.length) ∧
        ∀ nested, Reading.base nested s = .ok (some (.side e)) (s.advance piece.length)) ∧
      (found = none → d.place = c.place ∧ d.Follows text s ∧
        ∀ nested b t, layoutLength s.rest = 0 → Reading.base nested s = .ok (some b) t →
          ¬ b.expr.IsNumber) := by
  obtain ⟨d, hrun, hd⟩ := Walk.gives_number c hc
  have hiff := numberLength_ne_zero_iff s.rest
  refine ⟨_, d, hrun, ?_, ?_, ?_⟩
  · rw [← hiff]
    by_cases hzero : numberLength s.rest = 0 <;> simp [hzero]
  · intro e he
    have hsome : numberLength s.rest ≠ 0 := by
      intro hzero
      rw [if_pos hzero] at he
      cases he
    have hlongest := longestNumeral_take hsome
    have hlength : (s.rest.take (numberLength s.rest)).length = numberLength s.rest :=
      List.length_take_of_le (numberLength_le s.rest)
    have hlayout : s = s.advance (layoutLength s.rest) := by
      rw [hlongest.numeral.layoutLength_eq_zero hlongest.front, Scan.advance_zero]
    rw [if_neg hsome] at he
    cases he
    refine ⟨_, rfl, rfl, hlongest, hlongest.numeral.getLast?_ne_dot, ?_, hlength.symm ▸ hd, ?_⟩
    · rw [hd.place_eq, hc.place_eq, ← hlongest.numeral.utf8Length_eq]
      rfl
    · intro nested
      rw [hlength]
      exact Reading.base_of_number nested hlayout hsome
  · intro hnone
    have hzero : numberLength s.rest = 0 := by
      by_contra hsome
      rw [if_neg hsome] at hnone
      cases hnone
    rw [hzero, Scan.advance_zero] at hd
    refine ⟨hd.place_eq.trans hc.place_eq.symm, hd, ?_⟩
    intro nested b t hlayout hbase hnumber
    have hstart : s = s.advance (layoutLength s.rest) := by rw [hlayout, Scan.advance_zero]
    exact hiff.mpr ((Reading.base_isNumber_iff hbase hstart).mp hnumber) hzero

/-- A second dot ends a number, a dot at its end is left behind, also in the middle of a formula,
and a dot before a dot is none. -/
theorem number_is_longest_dots :
    (∃ d, Walk.number? (Cursor.start "1.2.3") = .ok (some (.number "1.2")) d ∧ d.place = 3) ∧
    (∃ d, Walk.number? ⟨"é3.", 2, [], [2], []⟩ = .ok (some (.number "3")) d ∧ d.place = 3) ∧
    (∃ d, Walk.number? (Cursor.start "..5") = .ok none d ∧ d.place = 0) := by
  refine ⟨?_, ?_, ?_⟩
  · obtain ⟨found, d, hrun, hiff, hsome, -⟩ := number_is_longest (Cursor.follows_start "1.2.3")
    obtain ⟨e, rfl⟩ := Option.isSome_iff_exists.mp
      (hiff.mpr ((numberLength_ne_zero_iff "1.2.3".toList).mp (by decide)))
    obtain ⟨piece, rfl, rfl, -, -, hplace, -⟩ := hsome e rfl
    exact ⟨d, hrun, hplace⟩
  · have hat : AheadAt "é3.".toList 2 ['3', '.'] := ⟨['é'], by decide, by decide⟩
    obtain ⟨found, d, hrun, hiff, hsome, -⟩ := number_is_longest (Cursor.follows_at hat)
    obtain ⟨e, rfl⟩ := Option.isSome_iff_exists.mp
      (hiff.mpr ((numberLength_ne_zero_iff ['3', '.']).mp (by decide)))
    obtain ⟨piece, rfl, rfl, -, -, hplace, -⟩ := hsome e rfl
    exact ⟨d, hrun, hplace⟩
  · obtain ⟨found, d, hrun, hiff, -, hnone⟩ := number_is_longest (Cursor.follows_start "..5")
    cases found with
    | none => exact ⟨d, hrun, (hnone rfl).1⟩
    | some e =>
      exact absurd ((numberLength_ne_zero_iff "..5".toList).mpr (hiff.mp rfl)) (by decide)

end OfficeMath
