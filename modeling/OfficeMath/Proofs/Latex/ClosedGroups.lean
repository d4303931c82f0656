import OfficeMath.Proofs.Latex.Approach
import OfficeMath.Proofs.Latex.KeepingPace

/-!
# A closed group does not depend on what follows it

The reader looks far ahead: for the end of a command name or of a number, for the line end that
ends a comment, for the brace that ends the name of an environment, and in plain text and
unsupported environments to the end of the formula.  Nothing that it sees behind the closing
character of a group has any influence on how the group is read, provided that it is closed there.

* `Nested.fenced_approach` — up to the closing character every rule keeps pace, to any depth;
* `Reading.sequence_closing` — so does a sequence that takes the closing character as its end;
* `closed_sequence_append` — a closed sequence is read in the same way in front of any other text.
-/

namespace OfficeMath

/-! ## The rules of the grammar -/

/-- Two scans behind the fence, reached alike. -/
structure Scan.Passed (tail tail' : List Char) (s u : Scan) : Prop where
  offset : u.offset = s.offset
  notes : u.notes = s.notes
  rest : s.rest = tail
  rest' : u.rest = tail'

/-- Nested parts do not depend on what is behind the fence, unless they go there.  A sequence up to
the character of the fence ends behind such a character, and it may end right behind the fence. -/
structure Nested.Fenced (closer : Closer) (tail tail' : List Char) (nested : Nested) : Prop where
  base : Reading.Fenced closer tail tail' nested.base nested.base
  limits : ∀ place,
    Reading.Fenced closer tail tail' (nested.limits place) (nested.limits place)
  sequence : ∀ closer',
    Reading.Fenced closer tail tail' (nested.sequence closer') (nested.sequence closer')
  region : Reading.Fenced closer tail tail' nested.region nested.region
  rows : ∀ row cell,
    Reading.Fenced closer tail tail' (nested.rows row cell) (nested.rows row cell)
  closes : ∀ {s t members}, nested.sequence (some closer) s = .ok members t →
    ∃ front, s.rest = front ++ closer.char :: t.rest
  closing : ∀ {s u t members}, Scan.Fenced closer tail tail' s u →
    nested.sequence (some closer) s = .ok members t → t.rest = tail →
    ∃ v, nested.sequence (some closer) u = .ok members v ∧ Scan.Passed tail tail' t v

namespace Reading

variable {closer : Closer} {tail tail' : List Char} {nested : Nested}

/-- An argument keeps pace with its group, its digit or its base. -/
theorem fenced_argument (hn : nested.Fenced closer tail tail') :
    Fenced closer tail tail' (argument nested) (argument nested) := by
  refine .bind fenced_skipLayout fun _ => .rest fun x y hxy => ?_
  rcases hxy.cases with ⟨rfl, rfl⟩ | ⟨c, after, after', rfl, rfl⟩
  · exact .pure _
  dsimp only
  split
  · exact .bind (fenced_advance _) fun _ => .bind (hn.sequence _) fun _ => .pure _
  split
  · exact .bind (fenced_advance _) fun _ => .pure _
  · refine .bind hn.base fun found => ?_
    cases found with
    | some b => exact .pure _
    | none => exact .pure _

/-- The commands that move scripts are the same before the fence. -/
theorem fenced_limits (hn : nested.Fenced closer tail tail') (place : Limits) :
    Fenced closer tail tail' (Reading.limits nested place) (Reading.limits nested place) := by
  refine .bind fenced_skipLayout fun _ => .rest fun x y hxy => ?_
  rw [hxy.command]
  split
  · exact .bind (fenced_advance _) fun _ => hn.limits _
  · exact .bind (fenced_advance _) fun _ => hn.limits _
  · exact .pure _

/-- So do apostrophes and the argument after none. -/
theorem fenced_superscript (hn : nested.Fenced closer tail tail') :
    Fenced closer tail tail' (superscript nested) (superscript nested) := by
  refine .bind fenced_skipLayout fun _ => .bind fenced_primes fun count => ?_
  cases count with
  | zero => exact fenced_argument hn
  | succ count => exact .pure _

/-- The loop for scripts sees the same marks in both texts, by induction on the bound. -/
theorem fenced_scriptsFrom (hn : nested.Fenced closer tail tail') (bound : Nat)
    (scripts : Scripts) : Fenced closer tail tail' (scriptsFrom nested bound scripts)
      (scriptsFrom nested bound scripts) := by
  induction bound generalizing scripts with
  | zero => exact .pure _
  | succ bound ih =>
    refine .bind fenced_skipLayout fun _ => .rest fun x y hxy => ?_
    rw [hxy.head]
    split
    · split
      · exact .pure _
      · exact .bind (fenced_advance _) fun _ => .bind (fenced_argument hn) fun _ => ih _
    · split
      · exact .bind (fenced_advance _) fun _ => .bind (fenced_superscript hn) fun _ => ih _
      split
      · exact .bind (fenced_advance _) fun _ => .bind (fenced_superscript hn) fun _ => ih _
      · exact .pure _
    · exact .pure _

/-- Scripts keep pace with their loop. -/
theorem fenced_scripts (hn : nested.Fenced closer tail tail') (b : Base) :
    Fenced closer tail tail' (scripts nested b) (scripts nested b) := by
  refine .bind (fenced_limits hn _) fun place => .bind fenced_primes fun count => ?_
  exact .bind (fenced_scriptsFrom hn _ _) fun _ => .pure _

/-- An item that ends before the fence is the same in both texts. -/
theorem fenced_item (hn : nested.Fenced closer tail tail') :
    Fenced closer tail tail' (item nested) (item nested) := by
  refine .bind fenced_skipLayout fun _ => .offset fun start => .bind hn.base fun found => ?_
  cases found with
  | some b => exact .bind (fenced_scripts hn b) fun _ => .pure _
  | none =>
    refine .offset fun now => ?_
    split
    · exact .bind fenced_skipToken fun _ => .pure _
    · exact .pure _

/-- A sequence that ends before the fence does so in both texts. -/
theorem fenced_sequence (hn : nested.Fenced closer tail tail') (closer' : Option Closer) :
    Fenced closer tail tail' (sequence nested closer') (sequence nested closer') := by
  have hnext : Fenced closer tail tail' (sequence.next nested closer')
      (sequence.next nested closer') :=
    .bind (fenced_item hn) fun _ => .bind (hn.sequence _) fun _ => .pure _
  refine .bind fenced_skipLayout fun _ => .rest fun x y hxy => ?_
  rcases hxy.cases with ⟨rfl, rfl⟩ | ⟨c, after, after', rfl, rfl⟩
  · cases closer' with
    | none => exact .pure _
    | some closer' => exact .unclosed _
  · cases closer' with
    | none => exact hnext
    | some closer' =>
      dsimp only
      split
      · exact .bind (fenced_advance _) fun _ => .pure _
      · exact hnext

/-- A region is closed before the fence, or by it, in both texts. -/
theorem fenced_region (hn : nested.Fenced closer tail tail') :
    Fenced closer tail tail' (region nested) (region nested) := by
  have hmissing : Fenced closer tail tail' region.missing region.missing :=
    .offset fun _ => .bind (.note _) fun _ => .pure _
  have hnext : Fenced closer tail tail' (region.next nested) (region.next nested) :=
    .bind (fenced_item hn) fun _ => .bind hn.region fun _ => .pure _
  refine .bind fenced_skipLayout fun _ => .rest fun x y hxy => ?_
  rcases hxy.cases with ⟨rfl, rfl⟩ | ⟨c, after, after', rfl, rfl⟩
  · exact hmissing
  refine .ite (fun _ => hmissing) fun _ => .ite (fun hc => ?_) fun _ => hnext
  subst hc
  dsimp only
  rw [hxy.commandName_eq]
  split
  · exact hmissing
  split
  · exact .bind (fenced_advance _) fun _ => .bind (fenced_delimiterAfter _) fun _ => .pure _
  split
  · refine .bind (fenced_advance _) fun _ => .bind (fenced_delimiterAfter _) fun _ => ?_
    exact .bind hn.region fun _ => .pure _
  · exact hnext

/-- So are the rows of an array. -/
theorem fenced_rows (hn : nested.Fenced closer tail tail') (row : Row) (cell : Cell) :
    Fenced closer tail tail' (rows nested row cell) (rows nested row cell) := by
  have hmissing : Fenced closer tail tail' (rows.missing row cell) (rows.missing row cell) :=
    .offset fun _ => .bind (.note _) fun _ => .pure _
  have hnext : Fenced closer tail tail' (rows.next nested row cell) (rows.next nested row cell) :=
    .bind (fenced_item hn) fun _ => hn.rows _ _
  have hothers : Fenced closer tail tail'
      (nested.rows [] [] >>= fun others => pure ((row ++ [cell]) :: others))
      (nested.rows [] [] >>= fun others => pure ((row ++ [cell]) :: others)) :=
    .bind (hn.rows _ _) fun _ => .pure _
  refine .bind fenced_skipLayout fun _ => .rest fun x y hxy => ?_
  rcases hxy.cases with ⟨rfl, rfl⟩ | ⟨c, after, after', rfl, rfl⟩
  · exact hmissing
  refine .ite (fun _ => hmissing) fun _ => .ite (fun _ => ?_) fun _ => ?_
  · exact .bind (fenced_advance _) fun _ => hn.rows _ _
  refine .ite (fun hc => ?_) fun _ => hnext
  subst hc
  dsimp only
  rw [hxy.commandName_eq]
  split
  · refine .bind (fenced_advance _) fun _ => .rest fun x y hxy => ?_
    rw [hxy.head]
    split
    · exact .bind (fenced_through _) fun _ => hothers
    · exact hothers
  split
  · exact .bind (fenced_advance _) fun _ => .bind fenced_environmentName fun _ => .pure _
  · exact hnext

/-- An environment before the fence has the same name and the same rows, or the same body. -/
theorem fenced_environment (hn : nested.Fenced closer tail tail') :
    Fenced closer tail tail' (environment nested) (environment nested) := by
  refine .bind fenced_environmentName fun found => ?_
  cases found with
  | none => exact .offset fun _ => .bind (.note _) fun _ => .pure _
  | some name =>
    dsimp only
    split
    · exact .bind (.note _) fun _ => .bind (fenced_skipEnvironment _) fun _ => .pure _
    · refine .ite (fun _ => .bind fenced_columnSpecification fun _ => ?_) fun _ =>
        .bind (.pure _) fun _ => ?_
      all_goals
        refine .bind (hn.rows _ _) fun _ => ?_
        split
        · exact .pure _
        · exact .pure _

/-- A delimited region begins with the same delimiter. -/
theorem fenced_delimited (hn : nested.Fenced closer tail tail') :
    Fenced closer tail tail' (delimited nested) (delimited nested) :=
  .bind (fenced_delimiterAfter _) fun _ => .bind hn.region fun _ => .pure _

/-- What follows the name of a command keeps pace. -/
theorem fenced_command (hn : nested.Fenced closer tail tail') (start : Nat) (found : Command) :
    Fenced closer tail tail' (command nested start found) (command nested start found) := by
  cases found with
  | symbol | identifier | operatorName | space | limits | ignored | right | middle
  | endEnvironment => exact .pure _
  | sized factor =>
    refine .bind fenced_delimiter fun found => ?_
    cases found with
    | some glyph => exact .pure _
    | none => exact .bind (.note _) fun _ => .pure _
  | decoration | boxed | phantom | cancel => exact .bind (fenced_argument hn) fun _ => .pure _
  | fraction | overset | underset =>
    exact .bind (fenced_argument hn) fun _ => .bind (fenced_argument hn) fun _ => .pure _
  | sqrt =>
    refine .bind fenced_skipLayout fun _ => .rest fun x y hxy => ?_
    have hroot : Fenced closer tail tail'
        (argument nested >>= fun base => pure (some (Base.side (.sqrt base))))
        (argument nested >>= fun base => pure (some (Base.side (.sqrt base)))) :=
      .bind (fenced_argument hn) fun _ => .pure _
    rcases hxy.cases with ⟨rfl, rfl⟩ | ⟨c, after, after', rfl, rfl⟩
    · exact hroot
    by_cases hbracket : c = '['
    · subst hbracket
      refine .bind (fenced_advance _) fun _ => .bind (hn.sequence _) fun _ => ?_
      exact .bind (fenced_argument hn) fun _ => .pure _
    · split
      · next heq => exact absurd (List.cons.inj heq).1 hbracket
      split
      · next heq => exact absurd (List.cons.inj heq).1 hbracket
      · exact hroot
  | left => exact .bind (fenced_delimited hn) fun _ => .pure _
  | beginEnvironment => exact .bind (fenced_environment hn) fun _ => .pure _
  | namedOperator => exact .bind fenced_textArgument fun _ => .pure _

/-- So does the argument of a style command. -/
theorem fenced_styled (hn : nested.Fenced closer tail tail') (style : StyleCommand) :
    Fenced closer tail tail' (styled nested style) (styled nested style) := by
  cases style with
  | text => exact .bind fenced_textArgument fun _ => .pure _
  | formula style =>
    refine .bind fenced_skipLayout fun _ => .rest fun x y hxy => ?_
    have hbase : Fenced closer tail tail'
        (nested.base >>= fun found => pure (Expr.styled style (found.map Base.expr).toList))
        (nested.base >>= fun found => pure (Expr.styled style (found.map Base.expr).toList)) :=
      .bind hn.base fun _ => .pure _
    rcases hxy.cases with ⟨rfl, rfl⟩ | ⟨c, after, after', rfl, rfl⟩
    · exact hbase
    by_cases hopening : c = '{'
    · subst hopening
      exact .bind (fenced_advance _) fun _ => .bind (hn.sequence _) fun _ => .pure _
    · split
      · next heq => exact absurd (List.cons.inj heq).1 hopening
      split
      · next heq => exact absurd (List.cons.inj heq).1 hopening
      · exact hbase

/-- A command has the same name in both texts. -/
theorem fenced_commandBase (hn : nested.Fenced closer tail tail') {x y : List Char}
    (hname : commandName y = commandName x) :
    Fenced closer tail tail' (commandBase nested x) (commandBase nested y) := by
  unfold commandBase
  dsimp only
  rw [hname]
  split
  · exact .pure _
  split
  · split
    · exact .pure _
    · refine .offset fun start => ?_
      exact .bind (fenced_advance _) fun _ => fenced_command hn _ _
  · exact .bind (fenced_advance _) fun _ => .pure _
  · exact .bind (fenced_advance _) fun _ => .bind (fenced_styled hn _) fun _ => .pure _

/-- A base is chosen by what stands before the fence. -/
theorem fenced_base (hn : nested.Fenced closer tail tail') :
    Fenced closer tail tail' (Reading.base nested) (Reading.base nested) := by
  refine .bind fenced_skipLayout fun _ => .rest fun x y hxy => ?_
  rcases hxy.cases with ⟨rfl, rfl⟩ | ⟨c, after, after', rfl, rfl⟩
  · exact .pure _
  dsimp only
  rw [hxy.number, hxy.digits]
  split
  · exact .bind (fenced_advance _) fun _ => .bind (hn.sequence _) fun _ => .pure _
  split
  · exact .bind (fenced_advance _) fun _ => .pure _
  split
  · next hbackslash =>
    subst hbackslash
    exact fenced_commandBase hn hxy.commandName_eq
  split
  · exact .pure _
  split
  · exact .bind fenced_primes fun _ => .pure _
  split
  · exact .bind (fenced_advance _) fun _ => .pure _
  split
  · exact .pure _
  · exact .bind (fenced_advance _) fun _ => .pure _

/-- A sequence that is closed: after layout its closing character is ahead, or one more item. -/
theorem sequence_eq_ok {s t : Scan} {members : List Expr} :
    sequence nested (some closer) s = .ok members t ↔
      ∃ u, u = s.advance (layoutLength s.rest) ∧
        ((∃ after, u.rest = closer.char :: after ∧ members = [] ∧ t = u.advance 1) ∨
          ∃ c after, u.rest = c :: after ∧ c ≠ closer.char ∧
            sequence.next nested (some closer) u = .ok members t) := by
  rw [exists_eq_left]
  unfold sequence
  rw [run_bind_ok (run_skipLayout s), run_bind_ok (run_rest _)]
  generalize s.advance (layoutLength s.rest) = u
  constructor
  · intro h
    cases hrest : u.rest with
    | nil =>
      rw [hrest] at h
      cases h
    | cons c after =>
      rw [hrest] at h
      dsimp only at h
      by_cases hclosing : c = closer.char
      · rw [if_pos hclosing] at h
        cases h
        exact .inl ⟨after, by rw [hclosing], rfl, rfl⟩
      · rw [if_neg hclosing] at h
        exact .inr ⟨c, after, rfl, hclosing, h⟩
  · rintro (⟨after, hrest, rfl, rfl⟩ | ⟨c, after, hrest, hclosing, h⟩)
    · rw [hrest]
      dsimp only
      rw [if_pos rfl]
      rfl
    · rw [hrest]
      dsimp only
      rw [if_neg hclosing]
      exact h

/-- A sequence that is closed ends behind its closing character. -/
theorem sequence_closes (hn : nested.Fenced closer tail tail') {s t : Scan} {members : List Expr}
    (h : sequence nested (some closer) s = .ok members t) :
    ∃ front, s.rest = front ++ closer.char :: t.rest := by
  obtain ⟨u, hu, hclosed⟩ := sequence_eq_ok.mp h
  have hsu : s.Leads u := hu ▸ .advance s _
  obtain ⟨layout, hlayout⟩ := hsu.rest_suffix
  rcases hclosed with ⟨after, hrest, -, rfl⟩ | ⟨c, after, -, -, hnext⟩
  · refine ⟨layout, ?_⟩
    rw [← hlayout, Scan.rest_advance_one hrest, hrest]
  · obtain ⟨first, v, hitem, hothers⟩ := bind_eq_ok.mp hnext
    obtain ⟨others, w, hrun, hdone⟩ := bind_eq_ok.mp hothers
    cases hdone
    obtain ⟨taken, htaken⟩ := ((fenced_item hn).forward.leads hitem).rest_suffix
    obtain ⟨front, hfront⟩ := hn.closes hrun
    refine ⟨layout ++ (taken ++ front), ?_⟩
    rw [← hlayout, ← htaken, hfront, List.append_assoc, List.append_assoc]

/-- A sequence that ends right behind the fence was closed by it. -/
theorem sequence_closing (hn : nested.Fenced closer tail tail') {s u t : Scan}
    {members : List Expr} (hsu : Scan.Fenced closer tail tail' s u)
    (h : sequence nested (some closer) s = .ok members t) (ht : t.rest = tail) :
    ∃ v, sequence nested (some closer) u = .ok members v ∧ Scan.Passed tail tail' t v := by
  obtain ⟨w, hw, hclosed⟩ := sequence_eq_ok.mp h
  -- The layout before the sequence ends before the fence, as something is taken after it.
  have hlayout (hlength : tail.length < w.rest.length) :
      Scan.Fenced closer tail tail' w (u.advance (layoutLength u.rest)) := by
    obtain ⟨w', hw', hww'⟩ := fenced_skipLayout.keepsPace s u hsu () w (hw ▸ rfl) hlength
    cases hw'
    exact hww'
  rcases hclosed with ⟨after, hrest, rfl, rfl⟩ | ⟨c, after, hrest, hc, hnext⟩
  · have hafter : after = tail := by rw [← ht, Scan.rest_advance_one hrest]
    subst hafter
    have hww' := hlayout (by simp [hrest])
    obtain ⟨front, hfront, hfront'⟩ := hww'.rest
    have hnil : front = [] := by
      have hlength := congrArg List.length (hrest.symm.trans hfront)
      simp only [List.length_append, List.length_cons] at hlength
      exact List.length_eq_zero_iff.mp (by omega)
    subst hnil
    refine ⟨_, sequence_eq_ok.mpr ⟨_, rfl, .inl ⟨tail', hfront', rfl, rfl⟩⟩, ?_, hww'.notes, ht, ?_⟩
    · have htaken {x : Scan} {behind : List Char} (hx : x.rest = closer.char :: behind) :
          (x.advance 1).offset = x.offset + closer.char.utf8Size := by
        simp [Scan.advance, hx, utf8Length]
      rw [htaken hfront', htaken hrest, hww'.offset]
    · rw [Scan.rest_advance_one hfront']
  · obtain ⟨first, x, hitem, hothers⟩ := bind_eq_ok.mp hnext
    obtain ⟨others, y, hrun, hdone⟩ := bind_eq_ok.mp hothers
    cases hdone
    obtain ⟨front, hfront⟩ := hn.closes hrun
    have hbefore : tail.length < x.rest.length := by
      rw [hfront, ht]
      simp only [List.length_append, List.length_cons]
      omega
    have hlater := ((fenced_item hn).forward.leads hitem).length_le
    have hww' := hlayout (by omega)
    obtain ⟨x', hitem', hxx'⟩ := (fenced_item hn).keepsPace _ _ hww' first x hitem hbefore
    obtain ⟨v, hrun', hpassed⟩ := hn.closing hxx' hrun ht
    have hnext' : sequence.next nested (some closer) (u.advance (layoutLength u.rest))
        = .ok (first.toList ++ others) v :=
      (run_bind_ok hitem').trans (run_bind_ok hrun')
    rcases hww'.rest.looksAlike.cases with ⟨hnil, -⟩ | ⟨d, later, later', hd, hd'⟩
    · rw [hrest] at hnil
      cases hnil
    · rw [hrest] at hd
      cases hd
      exact ⟨v, sequence_eq_ok.mpr ⟨_, rfl, .inr ⟨c, later', hd', hc, hnext'⟩⟩, hpassed⟩

end Reading

namespace Nested

variable {closer : Closer} {tail tail' : List Char} {nested : Nested}

/-- If the nested parts keep pace, so do the parts one level up. -/
theorem Fenced.rules (hn : nested.Fenced closer tail tail') :
    nested.rules.Fenced closer tail tail' where
  base := Reading.fenced_base hn
  limits := Reading.fenced_limits hn
  sequence := Reading.fenced_sequence hn
  region := Reading.fenced_region hn
  rows := Reading.fenced_rows hn
  closes := Reading.sequence_closes hn
  closing := Reading.sequence_closing hn

/-- The nested parts keep pace at every depth. -/
theorem fenced_approach (depth : Nat) : (approach depth).Fenced closer tail tail' := by
  induction depth with
  | zero =>
    refine ⟨.unclosed _, fun _ => .unclosed _, fun _ => .unclosed _, .unclosed _,
      fun _ _ => .unclosed _, ?_, ?_⟩
    · intro s t members h
      cases h
    · intro s u t members _ h
      cases h
  | succ depth ih => exact ih.rules

end Nested

/-! ## Closed sequences -/

/-- A sequence that is closed ends behind its closing character, and it is the same sequence if
anything else comes after that. -/
theorem sequence_fenced {closer : Closer} {s t : Scan} {members : List Expr}
    (h : Reading.alone (·.sequence (some closer)) s = .ok members t) :
    ∃ front, s.rest = front ++ closer.char :: t.rest ∧
      t.offset = s.offset + utf8Length (front ++ [closer.char]) ∧
      ∀ tail', Reading.alone (·.sequence (some closer))
          { s with rest := front ++ closer.char :: tail' }
        = .ok members { t with rest := tail' } := by
  have hrun {depth : Nat} (hdepth : 2 * s.rest.length + 2 ≤ depth) :
      (Nested.approach depth).sequence (some closer) s = .ok members t := by
    rw [Nested.approach_eq_tower, ← sequence_eq_tower Nested.failing (some closer) hdepth]
    exact h
  have happroach (tail' : List Char) (depth : Nat) :
      (Nested.approach depth).Fenced closer t.rest tail' := Nested.fenced_approach depth
  obtain ⟨front, hfront⟩ := (happroach [] _).closes (hrun (Nat.le_refl _))
  have hsize := ((Nested.forward_approach _).sequence _).leads (hrun (Nat.le_refl _)) |>.size_eq
  refine ⟨front, hfront, ?_, fun tail' => ?_⟩
  · simp only [Scan.size, hfront, utf8Length_append, utf8Length] at hsize ⊢
    omega
  · let u : Scan := { s with rest := front ++ closer.char :: tail' }
    have hsu : Scan.Fenced closer t.rest tail' s u := ⟨rfl, rfl, front, hfront, rfl⟩
    let depth := 2 * s.rest.length + (2 * u.rest.length + 2)
    have hs : 2 * s.rest.length + 2 ≤ depth := by omega
    have hu : 2 * u.rest.length + 2 ≤ depth := by omega
    obtain ⟨v, hv, hpassed⟩ := (happroach tail' depth).closing hsu (hrun hs) rfl
    have hend : v = { t with rest := tail' } := by
      obtain ⟨hoffset, hnotes, -, hrest⟩ := hpassed
      cases v
      cases hoffset
      cases hnotes
      cases hrest
      rfl
    rw [sequence_eq_tower Nested.failing (some closer) hu, ← Nested.approach_eq_tower, hv, hend]

/-- The scan of a formula of which the first `count` characters have been taken. -/
def Scan.after (formula : String) (count : Nat) (notes : List Note) : Scan :=
  ⟨utf8Length (formula.toList.take count), formula.toList.drop count, notes⟩

/-- The scan behind the first characters of a formula. -/
theorem Scan.after_eq {formula : String} {taken behind : List Char}
    (h : formula.toList = taken ++ behind) (notes : List Note) :
    Scan.after formula taken.length notes = ⟨utf8Length taken, behind, notes⟩ := by
  rw [Scan.after, h, List.take_left, List.drop_left]

/-- **A closed group means the same whatever follows it.**  A sequence up to a closing character
that is read somewhere in a formula ends behind such a character.  If anything else follows there,
it consists of the same expressions, makes the same notes and ends in the same place. -/
theorem closed_sequence_append {closer : Closer} {formula : String} {count : Nat}
    {notes : List Note} {members : List Expr} {t : Scan}
    (h : Reading.alone (·.sequence (some closer)) (Scan.after formula count notes)
      = .ok members t) :
    ∃ last, count < last ∧ formula.toList[last - 1]? = some closer.char ∧
      t = Scan.after formula last t.notes ∧
      ∀ more : String, Reading.alone (·.sequence (some closer))
          (Scan.after (String.ofList (formula.toList.take last) ++ more) count notes)
        = .ok members ⟨t.offset, more.toList, t.notes⟩ := by
  obtain ⟨front, hrest, hoffset, hsame⟩ := sequence_fenced h
  let begun := formula.toList.take count
  let taken := begun ++ front ++ [closer.char]
  have hdrop : formula.toList.drop count = front ++ closer.char :: t.rest := hrest
  have hbegun : begun.length = count := by
    have hlength := congrArg List.length hdrop
    simp only [List.length_drop, List.length_append, List.length_cons] at hlength
    simp only [begun, List.length_take]
    omega
  have hformula : formula.toList = taken ++ t.rest := by
    rw [← List.take_append_drop count formula.toList, hdrop]
    simp [taken, begun]
  have htaken : formula.toList.take taken.length = taken := by rw [hformula, List.take_left]
  refine ⟨taken.length, ?_, ?_, ?_, fun more => ?_⟩
  · simp only [taken, List.length_append, List.length_singleton, hbegun]
    omega
  · rw [hformula, List.getElem?_append_left (by simp [taken])]
    simp [taken]
  · have hend : t.offset = utf8Length taken := by
      rw [hoffset, Scan.after]
      simp [taken, begun]
    rw [Scan.after_eq hformula, ← hend]
  · have hmore : (String.ofList taken ++ more).toList
        = begun ++ (front ++ closer.char :: more.toList) := by
      rw [String.toList_append, String.toList_ofList]
      simp [taken]
    have hscan : Scan.after (String.ofList taken ++ more) count notes
        = { Scan.after formula count notes with rest := front ++ closer.char :: more.toList } := by
      have hafter := Scan.after_eq hmore notes
      rw [hbegun] at hafter
      exact hafter
    rw [htaken, hscan, hsame more.toList]

/-- The index of a root, with a bracket in a comment and a decimal point right before its end. -/
theorem closed_sequence_append_index :
    let formula := "\\sqrt[\\sum%]\n\\limits_1 2.]\x7bx\x7d"
    ∃ members t, Reading.alone (·.sequence (some .bracket)) (Scan.after formula 6 []) =
        .ok members t ∧
      ∃ last, 6 < last ∧ formula.toList[last - 1]? = some ']' ∧
        t = Scan.after formula last t.notes ∧
        ∀ more : String, Reading.alone (·.sequence (some .bracket))
            (Scan.after (String.ofList (formula.toList.take last) ++ more) 6 [])
          = .ok members ⟨t.offset, more.toList, t.notes⟩ := by
  intro formula
  have hsome : ((Reading.alone (·.sequence (some .bracket))).run'
      (Scan.after formula 6 [])).isSome := by decide +kernel
  obtain ⟨members, t, hrun⟩ := Reading.exists_ok_of_isSome hsome
  exact ⟨members, t, hrun, closed_sequence_append hrun⟩

end OfficeMath
