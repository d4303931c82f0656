import OfficeMath.Proofs.Latex.Approach
import OfficeMath.Proofs.Latex.CommandNames
import OfficeMath.Proofs.Latex.SameTokens
import OfficeMath.Proofs.Latex.SideBySide

/-!
# Layout makes no difference

Blanks and comments separate the tokens of a formula and mean nothing themselves.  This is a claim
about every place where the reader looks ahead: those where it skips layout first, and those where
it must not, as within a number, a run of apostrophes or the name of a command.

* `Nested.layoutFree_approach` — every rule reads formulas with the same tokens alike, where it may
  begin by layout;
* `parse_of_sameTokens` — so do whole formulas;
* `parse_normalizeLayout` — a formula may be written with a single space wherever it has layout.

The two readings make different notes, as these have offsets in them, and they fail in different
places, namely each at the end of its own formula.  Only one rule decides anything by an offset:
an item asks whether it has taken a character where it has found no base.  It has done so if and
only if a command without output was ahead (`Nested.LayoutFree.unmoved`), and the tokens tell this.

In a formula with one of the `verbatimCommands` layout does make a difference, since these take
text as it stands.
-/

namespace OfficeMath

/-! ## The lexical steps -/

namespace Reading

variable {s u : Scan} {α : Type}

/-- Layout, and what is read after it. -/
theorem alike_layout {f f' : Unit → Reading α}
    (h : SameTokens (s.rest.drop (layoutLength s.rest)) (u.rest.drop (layoutLength u.rest)))
    (next : ∀ t v : Scan, SameTokens t.rest v.rest → layoutLength t.rest = 0 →
      layoutLength v.rest = 0 → Alike SameTokens t v (f ()) (f' ())) :
    Alike SameTokens s u (skipLayout >>= f) (skipLayout >>= f') :=
  next (s.advance (layoutLength s.rest)) (u.advance (layoutLength u.rest)) h
    (layoutLength_drop s.rest) (layoutLength_drop u.rest)

/-- Taking the command that both formulas go on with … -/
theorem sameTokens_advance {c : Char} {x y : List Char} {count : Nat} (hs : s.rest = c :: x)
    (hu : u.rest = c :: y) (h : SameTokens (x.drop count) (y.drop count)) :
    SameTokens (s.advance (1 + count)).rest (u.advance (1 + count)).rest := by
  rw [Scan.rest_advance_cons hs, Scan.rest_advance_cons hu]
  exact h

/-- … or the character. -/
theorem sameTokens_advance_one {c : Char} {x y : List Char} (hs : s.rest = c :: x)
    (hu : u.rest = c :: y) (h : SameTokens x y) :
    SameTokens (s.advance 1).rest (u.advance 1).rest := by
  rw [Scan.rest_advance_one hs, Scan.rest_advance_one hu]
  exact h

/-- Apostrophes stand side by side in both texts. -/
theorem alike_primes (h : SameTokens s.rest u.rest) : Alike SameTokens s u primes primes := by
  obtain ⟨hcount, hshares⟩ := h.primes
  refine .rest ?_
  rw [hcount]
  exact .take (.pure _ hshares.rest)

/-- A delimiter is a token, found behind the layout. -/
theorem alike_delimiter (h : SameTokens s.rest u.rest) :
    Alike SameTokens s u delimiter? delimiter? := by
  refine alike_layout h.layout fun t v hrest ht hv => .rest ?_
  obtain ⟨hfound, hafter⟩ := hrest.delimiterAt ht hv
  rw [hfound]
  split
  · next glyph length heq => exact .take (.pure _ (hafter glyph length heq))
  · exact .pure _ hrest

/-- A missing delimiter is missing in both texts. -/
theorem alike_delimiterAfter (command : String) (h : SameTokens s.rest u.rest) :
    Alike SameTokens s u (delimiterAfter command) (delimiterAfter command) := by
  refine .bind (alike_delimiter h) fun found t v _ _ hrest => ?_
  cases found with
  | some glyph => exact .pure _ hrest
  | none => exact .offset (.noted _ _ (.pure _ hrest))

/-- The same token is skipped. -/
theorem alike_skipToken (h : SameTokens s.rest u.rest) (hs : layoutLength s.rest = 0)
    (hu : layoutLength u.rest = 0) : Alike SameTokens s u skipToken skipToken := by
  refine .offset (.rest ?_)
  rcases h.cases hs hu with ⟨hsnil, hunil⟩ | ⟨x, y, hx, hy, hname, hafter⟩ |
    ⟨c, x, y, hx, hy, hsolid, hc, hafter⟩
  · rw [hsnil, hunil]
    exact .pure _ h
  · have hverbatim := (hx ▸ h).not_verbatim.1
    have hnamed := sameTokens_advance hx hy hafter
    rw [← Scan.advance_add, ← Scan.advance_add] at hnamed
    rw [hx, hy]
    refine .take ?_
    rw [if_pos rfl, if_pos rfl]
    dsimp only
    rw [hname]
    refine .take ?_
    split
    · next hend =>
      rw [hend] at hverbatim
      exact absurd (by decide) hverbatim
    split
    · exact .bind (alike_delimiter hnamed) fun _ _ _ _ _ hend => .note _ _ hend
    · exact .note _ _ hnamed
  · have hone : SameTokens (s.advance 1).rest (u.advance 1).rest :=
      sameTokens_advance_one hx hy hafter
    rw [hx, hy]
    refine .take ?_
    rw [if_neg hc, if_neg hc]
    exact .note _ _ hone

end Reading

/-! ## The rules of the grammar -/

/-- Whether a text begins with a command that the reader takes as a base. -/
def BeginsCommand (text : List Char) : Prop :=
  ∃ after found, text = '\\' :: after ∧
    Meaning.ofName? (String.ofList (commandName after)) = some (.command found) ∧
      Reading.isPartOfSurroundings found = false

/-- Nested parts are read alike in formulas with the same tokens.  Where there is no base, a
command without output has been taken or nothing at all. -/
structure Nested.LayoutFree (nested : Nested) : Prop where
  base : ∀ s u : Scan, SameTokens s.rest u.rest →
    Reading.Alike SameTokens s u nested.base nested.base
  limits : ∀ place (s u : Scan), SameTokens s.rest u.rest →
    Reading.Alike SameTokens s u (nested.limits place) (nested.limits place)
  sequence : ∀ closer (s u : Scan), SameTokens s.rest u.rest →
    Reading.Alike SameTokens s u (nested.sequence closer) (nested.sequence closer)
  region : ∀ s u : Scan, SameTokens s.rest u.rest →
    Reading.Alike SameTokens s u nested.region nested.region
  unmoved : ∀ {s t : Scan}, layoutLength s.rest = 0 → nested.base s = .ok .none t →
    (t.offset = s.offset ↔ ¬ BeginsCommand s.rest)
  forward : nested.Forward

/-- The same command begins both texts. -/
theorem SameTokens.beginsCommand {a b : List Char} (h : SameTokens a b) (ha : BeginsCommand a) :
    BeginsCommand b := by
  obtain ⟨x, found, rfl, hfound, hpart⟩ := ha
  obtain ⟨y, rfl, hname, -⟩ := h.command
  exact ⟨y, found, rfl, by rw [hname, hfound], hpart⟩

namespace Reading

variable {nested : Nested} {s u : Scan}

/-- An argument begins with the same token in both texts. -/
theorem alike_argument (hn : nested.LayoutFree) (h : SameTokens s.rest u.rest) :
    Alike SameTokens s u (argument nested) (argument nested) := by
  refine alike_layout h.layout fun t v hrest ht hv => .rest ?_
  rcases hrest.heads ht hv with ⟨hend, hend'⟩ | ⟨c, x, y, hx, hy, hafter⟩
  · rw [hend, hend']
    exact .pure _ hrest
  rw [hx, hy]
  have hone (hc : c ≠ '\\') : SameTokens (t.advance 1).rest (v.advance 1).rest :=
    sameTokens_advance_one hx hy (hafter hc)
  dsimp only
  split
  · next hopening =>
    have hc : c ≠ '\\' := by simp [hopening]
    exact .take (.map (hn.sequence _ _ _ (hone hc)))
  split
  · next hdigit =>
    have hc : c ≠ '\\' := by
      rintro rfl
      cases hdigit
    exact .take (.pure _ (hone hc))
  · refine .bind (hn.base _ _ hrest) fun found _ _ _ _ hend => ?_
    cases found with
    | some b => exact .pure _ hend
    | none => exact .pure _ hend

/-- Commands that move scripts are tokens. -/
theorem alike_limits (hn : nested.LayoutFree) (place : Limits)
    (h : SameTokens s.rest u.rest) :
    Alike SameTokens s u (Reading.limits nested place) (Reading.limits nested place) := by
  refine alike_layout h.layout fun t v hrest ht hv => .rest ?_
  rw [hrest.commandAt ht hv]
  have hmoved {name : String} (hcommand : commandAt? t.rest = some name) :
      SameTokens (t.advance (1 + name.toList.length)).rest
        (v.advance (1 + name.toList.length)).rest := by
    obtain ⟨x, hx, hname⟩ := commandAt?_eq_some hcommand
    obtain ⟨y, hy, -, hafter⟩ := (hx ▸ hrest).command
    rw [hname] at hafter
    exact sameTokens_advance hx hy hafter
  split
  · next hcommand => exact .take (hn.limits _ _ _ (hmoved hcommand))
  · next hcommand => exact .take (hn.limits _ _ _ (hmoved hcommand))
  · exact .pure _ hrest

/-- A superscript begins with the same token in both texts. -/
theorem alike_superscript (hn : nested.LayoutFree) (h : SameTokens s.rest u.rest) :
    Alike SameTokens s u (superscript nested) (superscript nested) := by
  refine alike_layout h.layout fun t v hrest _ _ => ?_
  refine .bind (alike_primes hrest) fun count _ _ _ _ hend => ?_
  cases count with
  | zero => exact alike_argument hn hend
  | succ count => exact .pure _ hend

/-- The marks of scripts are tokens, by induction on the bound. -/
theorem alike_scriptsFrom (hn : nested.LayoutFree) (bound : Nat) (scripts : Scripts)
    (h : SameTokens s.rest u.rest) :
    Alike SameTokens s u (scriptsFrom nested bound scripts) (scriptsFrom nested bound scripts) := by
  induction bound generalizing scripts s u with
  | zero => exact .pure _ h
  | succ bound ih =>
    refine alike_layout h.layout fun t v hrest ht hv => .rest ?_
    rcases hrest.heads ht hv with ⟨hend, hend'⟩ | ⟨c, x, y, hx, hy, hafter⟩
    · rw [hend, hend']
      exact .pure _ hrest
    rw [hx, hy, List.head?_cons, List.head?_cons]
    have hone (hc : c ≠ '\\') : SameTokens (t.advance 1).rest (v.advance 1).rest :=
      sameTokens_advance_one hx hy (hafter hc)
    have hupper (hc : c ≠ '\\') (next : Expr → Scripts) : Alike SameTokens t v
        (advance 1 >>= fun _ => superscript nested >>= fun e => scriptsFrom nested bound (next e))
        (advance 1 >>= fun _ => superscript nested >>= fun e => scriptsFrom nested bound (next e)) :=
      .take (.bind (alike_superscript hn (hone hc)) fun _ _ _ _ _ hend => ih _ hend)
    split
    · next heq =>
      have hc : c ≠ '\\' := by simp [Option.some.inj heq]
      split
      · exact .pure _ hrest
      · exact .take (.bind (alike_argument hn (hone hc)) fun _ _ _ _ _ hend => ih _ hend)
    · next heq =>
      have hc : c ≠ '\\' := by simp [Option.some.inj heq]
      split
      · exact hupper hc _
      split
      · exact hupper hc _
      · exact .pure _ hrest
    · exact .pure _ hrest

/-- Scripts are their commands, apostrophes and the loop. -/
theorem alike_scripts (hn : nested.LayoutFree) (b : Base) (h : SameTokens s.rest u.rest) :
    Alike SameTokens s u (scripts nested b) (scripts nested b) := by
  refine .bind (alike_limits hn _ h) fun place _ _ _ _ hplace => ?_
  refine .bind (alike_primes hplace) fun count _ _ _ _ hcount => ?_
  exact .map (alike_scriptsFrom hn _ _ hcount)

/-- Whether a token is skipped depends on whether a command without output has been taken. -/
theorem alike_item (hn : nested.LayoutFree) (h : SameTokens s.rest u.rest) :
    Alike SameTokens s u (item nested) (item nested) := by
  refine alike_layout h.layout fun t v hrest ht hv => .offset ?_
  refine .bind (hn.base _ _ hrest) fun found t' v' hbase hbase' hend => ?_
  cases found with
  | some b => exact .map (alike_scripts hn b hend)
  | none =>
    have hmoved : t'.offset = t.offset ↔ v'.offset = v.offset := by
      rw [hn.unmoved ht hbase, hn.unmoved hv hbase']
      exact not_congr ⟨hrest.beginsCommand, hrest.symm.beginsCommand⟩
    refine .offset (.ite hmoved (fun hsame hsame' => ?_) fun _ _ => .pure _ hend)
    have ht' := (hn.forward.base.leads hbase).rest_eq_of_offset_eq hsame
    have hv' := (hn.forward.base.leads hbase').rest_eq_of_offset_eq hsame'
    exact .map (alike_skipToken hend (ht' ▸ ht) (hv' ▸ hv))

/-- A sequence may begin with more layout in one of the texts. -/
theorem alike_sequence (hn : nested.LayoutFree) (closer : Option Closer)
    (h : SameTokens (s.rest.drop (layoutLength s.rest)) (u.rest.drop (layoutLength u.rest))) :
    Alike SameTokens s u (sequence nested closer) (sequence nested closer) := by
  refine alike_layout h fun t v hrest ht hv => .rest ?_
  have hnext : Alike SameTokens t v (sequence.next nested closer) (sequence.next nested closer) :=
    .bind (alike_item hn hrest) fun _ _ _ _ _ hend => .map (hn.sequence _ _ _ hend)
  rcases hrest.heads ht hv with ⟨hend, hend'⟩ | ⟨c, x, y, hx, hy, hafter⟩
  · rw [hend, hend']
    cases closer with
    | none => exact .pure _ hrest
    | some closer => exact .unclosed _
  · rw [hx, hy]
    cases closer with
    | none => exact hnext
    | some closer =>
      refine .ite .rfl (fun hclosing _ => ?_) fun _ _ => hnext
      have hc : c ≠ '\\' := by
        rw [hclosing]
        cases closer <;> decide
      exact .take (.pure _ (sameTokens_advance_one hx hy (hafter hc)))

/-- The commands of a region are tokens. -/
theorem alike_region (hn : nested.LayoutFree) (h : SameTokens s.rest u.rest) :
    Alike SameTokens s u (region nested) (region nested) := by
  refine alike_layout h.layout fun t v hrest ht hv => .rest ?_
  have hmissing : Alike SameTokens t v region.missing region.missing :=
    .offset (.noted _ _ (.pure _ hrest))
  have hnext : Alike SameTokens t v (region.next nested) (region.next nested) :=
    .bind (alike_item hn hrest) fun _ _ _ _ _ hend => .map (hn.region _ _ hend)
  rcases hrest.cases ht hv with ⟨hend, hend'⟩ | ⟨x, y, hx, hy, hname, hafter⟩ |
    ⟨c, x, y, hx, hy, hsolid, hc, hafter⟩
  · rw [hend, hend']
    exact hmissing
  · have hnamed := sameTokens_advance hx hy hafter
    rw [hx, hy]
    dsimp only
    rw [hname]
    split
    · exact hmissing
    rw [if_pos rfl]
    split
    · exact hmissing
    split
    · next hright =>
      rw [hright] at hnamed
      exact .take (.map (alike_delimiterAfter _ hnamed))
    split
    · next hmiddle =>
      rw [hmiddle] at hnamed
      refine .take (.bind (alike_delimiterAfter _ hnamed) fun _ _ _ _ _ hend => ?_)
      exact .map (hn.region _ _ hend)
    · exact hnext
  · rw [hx, hy]
    dsimp only
    split
    · exact hmissing
    · exact hnext

/-- A delimited region is a delimiter and its content. -/
theorem alike_delimited (hn : nested.LayoutFree) (h : SameTokens s.rest u.rest) :
    Alike SameTokens s u (delimited nested) (delimited nested) :=
  .bind (alike_delimiterAfter _ h) fun _ _ _ _ _ hend => .map (hn.region _ _ hend)

/-- A command that takes no text as it stands, after its name. -/
theorem alike_command (hn : nested.LayoutFree) {name : String} {found : Command}
    (hfound : Meaning.ofName? name = some (.command found)) (hplain : takesText name = false)
    (hverbatim : name ∉ verbatimCommands) (start start' : Nat) (h : SameTokens s.rest u.rest) :
    Alike SameTokens s u (command nested start found) (command nested start' found) := by
  cases found with
  | symbol | identifier | operatorName | space | limits | ignored | right | middle
  | endEnvironment => exact .pure _ h
  | sized factor =>
    refine .bind (alike_delimiter h) fun found _ _ _ _ hend => ?_
    cases found with
    | some glyph => exact .pure _ hend
    | none => exact .noted _ _ (.pure _ hend)
  | decoration | boxed | phantom | cancel => exact .map (alike_argument hn h)
  | fraction | overset | underset =>
    exact .bind (alike_argument hn h) fun _ _ _ _ _ hend => .map (alike_argument hn hend)
  | sqrt =>
    refine alike_layout h.layout fun t v hrest ht hv => .rest ?_
    have hroot : Alike SameTokens t v
        (argument nested >>= fun base => pure (some (Base.side (.sqrt base))))
        (argument nested >>= fun base => pure (some (Base.side (.sqrt base)))) :=
      .map (alike_argument hn hrest)
    rcases hrest.heads ht hv with ⟨hend, hend'⟩ | ⟨c, x, y, hx, hy, hafter⟩
    · rw [hend, hend']
      exact hroot
    · rw [hx, hy]
      by_cases hbracket : c = '['
      · subst hbracket
        have hone := sameTokens_advance_one hx hy (hafter (by decide))
        refine .take (.bind (hn.sequence _ _ _ hone) fun _ _ _ _ _ hend => ?_)
        exact .map (alike_argument hn hend)
      · split
        · next heq => exact absurd (List.cons.inj heq).1 hbracket
        split
        · next heq => exact absurd (List.cons.inj heq).1 hbracket
        · exact hroot
  | left => exact .map (alike_delimited hn h)
  | beginEnvironment =>
    rw [name_of_beginEnvironment hfound] at hverbatim
    exact absurd (by decide) hverbatim
  | namedOperator =>
    rw [takesText, hfound] at hplain
    cases hplain

/-- The argument of a style command begins with the same token, unless it is plain text. -/
theorem alike_styled (hn : nested.LayoutFree) {name : String} {style : StyleCommand}
    (hstyle : Meaning.ofName? name = some (.style style)) (hplain : takesText name = false)
    (h : SameTokens s.rest u.rest) :
    Alike SameTokens s u (styled nested style) (styled nested style) := by
  cases style with
  | text =>
    rw [takesText, hstyle] at hplain
    cases hplain
  | formula style =>
    refine alike_layout h.layout fun t v hrest ht hv => .rest ?_
    have hbase : Alike SameTokens t v
        (nested.base >>= fun found => pure (Expr.styled style (found.map Base.expr).toList))
        (nested.base >>= fun found => pure (Expr.styled style (found.map Base.expr).toList)) :=
      .map (hn.base _ _ hrest)
    rcases hrest.heads ht hv with ⟨hend, hend'⟩ | ⟨c, x, y, hx, hy, hafter⟩
    · rw [hend, hend']
      exact hbase
    · rw [hx, hy]
      by_cases hopening : c = '{'
      · subst hopening
        have hone := sameTokens_advance_one hx hy (hafter (by decide))
        exact .take (.map (hn.sequence _ _ _ hone))
      · split
        · next heq => exact absurd (List.cons.inj heq).1 hopening
        split
        · next heq => exact absurd (List.cons.inj heq).1 hopening
        · exact hbase

/-- A command has the same name in both texts. -/
theorem alike_commandBase (hn : nested.LayoutFree) {x y : List Char} (hx : s.rest = '\\' :: x)
    (hy : u.rest = '\\' :: y) (h : SameTokens s.rest u.rest) :
    Alike SameTokens s u (commandBase nested x) (commandBase nested y) := by
  have htokens := h
  rw [hx, hy] at htokens
  obtain ⟨hverbatim, hplain⟩ := htokens.not_verbatim
  obtain ⟨y', heq, hname, hafter⟩ := htokens.command
  cases heq
  have hnamed := sameTokens_advance hx hy hafter
  unfold commandBase
  dsimp only
  rw [hname]
  split
  · exact .pure _ h
  rename_i meaning hmeaning
  split
  · split
    · exact .pure _ h
    · exact .offset (.take (alike_command hn hmeaning hplain hverbatim _ _ hnamed))
  · exact .take (.pure _ hnamed)
  · exact .take (.map (alike_styled hn hmeaning hplain hnamed))

/-- A base begins with the same token in both texts. -/
theorem alike_base (hn : nested.LayoutFree) (h : SameTokens s.rest u.rest) :
    Alike SameTokens s u (Reading.base nested) (Reading.base nested) := by
  refine alike_layout h.layout fun t v hrest ht hv => .rest ?_
  rcases hrest.heads ht hv with ⟨hend, hend'⟩ | ⟨c, x, y, hx, hy, hafter⟩
  · rw [hend, hend']
    exact .pure _ hrest
  obtain ⟨hnumber, hshares⟩ := hrest.number
  have htaken : SameTokens (t.advance (numberLength t.rest)).rest
      (v.advance (numberLength t.rest)).rest := hshares.rest
  have htext := hshares.take_eq
  have hone (hc : c ≠ '\\') : SameTokens (t.advance 1).rest (v.advance 1).rest :=
    sameTokens_advance_one hx hy (hafter hc)
  rw [hx, hy] at hnumber
  rw [hx] at htaken htext
  rw [hy] at htext
  rw [hx, hy]
  dsimp only
  rw [hnumber, ← htext]
  split
  · next hopening =>
    have hc : c ≠ '\\' := by simp [hopening]
    exact .take (.map (hn.sequence _ _ _ (hone hc)))
  split
  · exact .take (.pure _ htaken)
  split
  · next hbackslash =>
    subst hbackslash
    exact alike_commandBase hn hx hy hrest
  rename_i hc
  split
  · exact .pure _ hrest
  split
  · exact .map (alike_primes hrest)
  split
  · exact .take (.pure _ (hone hc))
  split
  · exact .pure _ hrest
  · exact .take (.pure _ (hone hc))

/-- Where there is no base, a command without output has been taken or nothing at all. -/
theorem base_unmoved (hn : nested.Forward) {t : Scan} (hlayout : layoutLength s.rest = 0)
    (h : Reading.base nested s = .ok none t) : t.offset = s.offset ↔ ¬ BeginsCommand s.rest := by
  have hs : s = s.advance (layoutLength s.rest) := by rw [hlayout, Scan.advance_zero]
  rcases base_eq_none h hs with ⟨hend, rfl⟩ | ⟨c, after, hrest, rfl, -, -, hmarks⟩ |
    ⟨after, hrest, hcommand⟩
  · refine iff_of_true rfl fun ⟨after, found, hbegins, _⟩ => ?_
    rw [hend] at hbegins
    cases hbegins
  · refine iff_of_true rfl fun ⟨after', found, hbegins, _⟩ => ?_
    rw [hrest] at hbegins
    cases hbegins
    exact hmarks (by decide)
  · have htaken {count : Nat} {f : Unit → Reading (Option Base)} (hf : (f ()).Forward)
        (hrun : (advance (1 + count) >>= f) s = .ok none t) : t.offset ≠ s.offset := by
      intro hsame
      have hne : s.rest ≠ [] := by simp [hrest]
      have hforward : (advance (1 + count) >>= f).Forward := .bind (.advance _) fun _ => hf
      have hlt := length_finish_advance_lt hne (Nat.lt_add_right count Nat.one_pos) hf
      rw [finish_ok hrun, (hforward.leads hrun).rest_eq_of_offset_eq hsame] at hlt
      exact absurd hlt (Nat.lt_irrefl _)
    have hbegins : BeginsCommand s.rest ↔ ∃ found,
        Meaning.ofName? (String.ofList (commandName after)) = some (.command found) ∧
          isPartOfSurroundings found = false := by
      constructor
      · rintro ⟨after', found, heq, hfound⟩
        rw [hrest] at heq
        cases heq
        exact ⟨found, hfound⟩
      · rintro ⟨found, hfound⟩
        exact ⟨after, found, hrest, hfound⟩
    rw [hbegins]
    unfold commandBase at hcommand
    cases hmeaning : Meaning.ofName? (String.ofList (commandName after)) with
    | none =>
      rw [hmeaning] at hcommand
      cases hcommand
      simp
    | some meaning =>
      rw [hmeaning] at hcommand
      cases meaning with
      | command found =>
        dsimp only at hcommand
        by_cases hpart : isPartOfSurroundings found
        · rw [if_pos hpart] at hcommand
          cases hcommand
          simp [hpart]
        · rw [if_neg hpart, run_bind_ok (run_offset s)] at hcommand
          have hmoved := htaken (forward_command hn _ _) hcommand
          simp [hmoved, hpart]
      | delimiter glyph => cases hcommand
      | style style =>
        obtain ⟨_, v, -, hstyled⟩ := bind_eq_ok.mp hcommand
        obtain ⟨e, w, -, hdone⟩ := bind_eq_ok.mp hstyled
        cases hdone

end Reading

namespace Nested

/-- **Layout makes no difference** to any rule, at every height. -/
theorem layoutFree_approach (depth : Nat) : (approach depth).LayoutFree := by
  induction depth with
  | zero =>
    exact {
      base := fun s u _ => .unclosed _
      limits := fun place s u _ => .unclosed _
      sequence := fun closer s u _ => .unclosed _
      region := fun s u _ => .unclosed _
      unmoved := nofun
      forward := forward_approach 0 }
  | succ depth ih =>
    exact {
      base := fun s u h => Reading.alike_base ih h
      limits := fun place s u h => Reading.alike_limits ih place h
      sequence := fun closer s u h => Reading.alike_sequence ih closer h.layout
      region := fun s u h => Reading.alike_region ih h
      unmoved := Reading.base_unmoved ih.forward
      forward := forward_approach (depth + 1) }

end Nested

/-- **Formulas with the same tokens read alike**, whatever layout they begin with: both can be read,
with the same result, or both miss the same closing character. -/
theorem parse_of_sameTokens {a b : String}
    (h : SameTokens (a.toList.drop (layoutLength a.toList))
      (b.toList.drop (layoutLength b.toList))) :
    (parse a).mapError Unclosed.closer = (parse b).mapError Unclosed.closer := by
  let depth := 2 * (a.toList.length + b.toList.length) + 1
  have hread (text : String) (htext : text.toList.length ≤ a.toList.length + b.toList.length) :
      Reading.alone (·.sequence none) (Scan.start text)
        = Reading.sequence (Nested.approach depth) none (Scan.start text) := by
    have henough : 2 * (Scan.start text).rest.length + 2 ≤ depth + 1 := by
      show 2 * text.toList.length + 2 ≤ depth + 1
      omega
    rw [sequence_eq_tower Nested.failing none henough, ← Nested.approach_eq_tower]
    rfl
  have halike : Reading.Alike SameTokens (Scan.start a) (Scan.start b)
      (Reading.sequence (Nested.approach depth) none)
      (Reading.sequence (Nested.approach depth) none) :=
    Reading.alike_sequence (Nested.layoutFree_approach depth) none h
  rw [parse, parse, read, read, hread a (Nat.le_add_right _ _), hread b (Nat.le_add_left _ _)]
  unfold Reading.Alike at halike
  cases hrun : Reading.sequence (Nested.approach depth) none (Scan.start a) with
  | ok members t =>
    cases hrun' : Reading.sequence (Nested.approach depth) none (Scan.start b) with
    | ok members' t' =>
      rw [hrun, hrun'] at halike
      rw [halike.1]
    | error e t' =>
      rw [hrun, hrun'] at halike
      cases halike
  | error e t =>
    cases hrun' : Reading.sequence (Nested.approach depth) none (Scan.start b) with
    | ok members' t' =>
      rw [hrun, hrun'] at halike
      cases halike
    | error e' t' =>
      rw [hrun, hrun'] at halike
      exact congrArg Except.error halike

/-- The formula with a single space for each piece of layout, and none at its ends. -/
def normalizeLayout (text : String) : String :=
  String.ofList (render (tokens (text.toList.drop (layoutLength text.toList))))

/-- **Layout makes no difference** in a formula without the commands that take text as it stands:
the formula with single spaces for its layout has the same result, or misses the same closing
character. -/
theorem parse_normalizeLayout {text : String} (h : Avoids verbatimCommands text.toList) :
    (parse (normalizeLayout text)).mapError Unclosed.closer
      = (parse text).mapError Unclosed.closer := by
  let body := text.toList.drop (layoutLength text.toList)
  have hbody : layoutLength (render (tokens body)) = 0 :=
    layoutLength_render (layoutLength_drop text.toList)
  have hsame : SameTokens body (render (tokens body)) :=
    ⟨(tokens_render body).symm, h.layout⟩
  apply parse_of_sameTokens
  rw [normalizeLayout, String.toList_ofList, hbody, List.drop_zero]
  exact hsame.symm

/-- Blanks and comments everywhere, beside a blank and a percent sign that are commands; `2 . 5` is
no number and does not become one. -/
theorem parse_normalizeLayout_root :
    let text := " \t\\sqrt % index\n[3 ]\n\x7b1.5 \\ \\%'\x7d_%\n %\n\\phi* 2 . 5 % end"
    Avoids verbatimCommands text.toList ∧
      normalizeLayout text = "\\sqrt [3 ] \x7b1.5 \\ \\%'\x7d_ \\phi* 2 . 5" ∧
        (parse "\\sqrt [3 ] \x7b1.5 \\ \\%'\x7d_ \\phi* 2 . 5").mapError Unclosed.closer
          = (parse text).mapError Unclosed.closer := by
  intro text
  have havoids : Avoids verbatimCommands text.toList := by decide +kernel
  have hnormal : normalizeLayout text = "\\sqrt [3 ] \x7b1.5 \\ \\%'\x7d_ \\phi* 2 . 5" := by
    decide +kernel
  refine ⟨havoids, hnormal, ?_⟩
  rw [← hnormal]
  exact parse_normalizeLayout havoids

end OfficeMath
