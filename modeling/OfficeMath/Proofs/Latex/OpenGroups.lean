import OfficeMath.Latex.Parse
import OfficeMath.Proofs.Latex.Lexemes
import OfficeMath.Proofs.Latex.Progress
import OfficeMath.Proofs.Latex.SoundNodes

/-!
# Which groups are left open

Reading a formula fails in one way only: the formula ends inside a group.  Four rules notice this,
and they come to the end of the formula in different ways: a sequence finds nothing ahead, plain
text runs out of characters, a column specification that is not closed is taken whole, and so is
the rest of the formula where an environment name is not closed.  The error names the end of the
formula in each of them, and the group that it reports has indeed been opened.

* `Closer.OpenedIn` — how a group that needs this closing character is opened in a text: a group
  in braces by its brace, the index of a root by `\sqrt` and a bracket, with nothing but layout
  between the two (`HasRootIndex`);
* `Reading.LeavesOpen` — a step fails only at the end of the formula and only over such a group;
* `Nested.leavesOpen_ofDepth` — so does every rule of the grammar, to any depth;
* `parse_error_at_end` — the statement about formulas.

The groups that are opened *ahead* of a rule are not all that it may fail over: a sequence fails
over the group that it is to close, whose opening has been taken before.  So the set of groups is
fixed for the whole formula, and the scan only has to stay within it (`Scan.Within`).
-/

namespace OfficeMath

/-- The error of a result that is one. -/
def error? {ε α : Type} : Except ε α → Option ε
  | .ok _ => none
  | .error e => some e

/-- A result is a failure with the error that it has as an option. -/
theorem eq_error_of_error? {ε α : Type} {r : Except ε α} {e : ε} (h : error? r = some e) :
    r = .error e := by
  cases r with
  | ok a => cases h
  | error e' => exact congrArg Except.error (Option.some.inj h)

/-! ## How groups are opened -/

/-- Blanks, and comments that end at a line end. -/
inductive IsLayout : List Char → Prop where
  | nil : IsLayout []
  | blank {c : Char} {layout : List Char} (hblank : isBlank c) (more : IsLayout layout) :
    IsLayout (c :: layout)
  | comment {words layout : List Char} (hwords : '\n' ∉ words) (more : IsLayout layout) :
    IsLayout ('%' :: words ++ '\n' :: layout)

/-- The command `\sqrt` stands in a text and, after layout, an opening bracket. -/
def HasRootIndex (text : List Char) : Prop :=
  ∃ layout, IsLayout layout ∧ "\\sqrt".toList ++ layout ++ ['['] <:+: text

/-- A group that is closed by this character is opened in a text. -/
def Closer.OpenedIn (text : List Char) : Closer → Prop
  | .brace => '{' ∈ text
  | .bracket => HasRootIndex text

/-- What is opened in a part of a text is opened in the text. -/
theorem Closer.OpenedIn.mono {part text : List Char} (h : part <:+: text) {closer : Closer}
    (hopened : closer.OpenedIn part) : closer.OpenedIn text := by
  cases closer with
  | brace => exact h.mem hopened
  | bracket =>
    obtain ⟨layout, hlayout, hpart⟩ := hopened
    exact ⟨layout, hlayout, hpart.trans h⟩

/-- What is taken as layout is layout, if something stands after it. -/
theorem isLayout_take (text : List Char) (h : text.drop (layoutLength text) ≠ []) :
    IsLayout (text.take (layoutLength text)) := by
  match text with
  | [] => exact .nil
  | c :: rest =>
    by_cases hblank : isBlank c
    · rw [layoutLength_blank hblank, Nat.add_comm, List.take_succ_cons]
      rw [layoutLength_blank hblank, Nat.add_comm, List.drop_succ_cons] at h
      exact .blank hblank (isLayout_take rest h)
    by_cases hpercent : c = '%'
    · subst hpercent
      have hlength : layoutLength ('%' :: rest) = 1 + layoutLengthFrom true rest := rfl
      by_cases hend : '\n' ∈ rest
      · obtain ⟨words, after, rfl, hwords⟩ := List.eq_append_cons_of_mem hend
        have hsplit : '%' :: (words ++ '\n' :: after) = '%' :: words ++ ['\n'] ++ after := by simp
        have hcomment : layoutLength ('%' :: (words ++ '\n' :: after))
            = ('%' :: words ++ ['\n']).length + layoutLength after := by
          rw [hlength, layoutLengthFrom_comment hwords]
          simp only [List.length_append, List.length_cons, List.length_nil]
          omega
        rw [hcomment, hsplit, List.drop_length_add_append] at h
        rw [hcomment, hsplit, List.take_length_add_append]
        simpa using IsLayout.comment hwords (isLayout_take after h)
      · refine absurd ?_ h
        rw [hlength, layoutLengthFrom_open hend, Nat.add_comm, List.drop_succ_cons,
          List.drop_length]
    · rw [layoutLength_cons (by simpa using hblank) hpercent]
      exact .nil
termination_by text.length

/-- A scan whose rest opens no other groups than these. -/
def Scan.Within (opened : Closer → Prop) (s : Scan) : Prop :=
  ∀ closer : Closer, closer.OpenedIn s.rest → opened closer

/-- What is open stays known further on. -/
theorem Scan.Within.later {opened : Closer → Prop} {s t : Scan} (h : s.Within opened)
    (hst : s.Leads t) : t.Within opened :=
  fun closer hopened => h closer (hopened.mono hst.rest_suffix.isInfix)

/-- At the end of the formula all of its bytes have been taken. -/
theorem Scan.offset_of_rest_nil {s : Scan} (h : s.rest = []) : s.offset = s.size := by
  simp [Scan.size, h, utf8Length]

namespace Reading

/-! ## Steps that fail at the end only -/

/-- If a step fails, it fails at the end of the formula and over one of these groups. -/
def LeavesOpen {α : Type} (opened : Closer → Prop) (s : Scan) (m : Reading α) : Prop :=
  s.Within opened → ∀ e t, m s = .error e t → e.offset = s.size ∧ opened e.closer

namespace LeavesOpen

variable {α β : Type} {opened : Closer → Prop} {s : Scan} {m : Reading α} {f : α → Reading β}

theorem pure (a : α) : LeavesOpen opened s (Pure.pure a : Reading α) := fun _ _ _ => nofun

theorem advance (count : Nat) : LeavesOpen opened s (Reading.advance count) := fun _ _ _ => nofun

theorem note (n : Note) : LeavesOpen opened s (Reading.note n) := fun _ _ _ => nofun

/-- The one step that fails, which the reader takes at the end of the formula. -/
theorem unclosed {closer : Closer} (hclosed : opened closer) (hend : s.rest = []) :
    LeavesOpen opened s (Reading.unclosed closer : Reading α) := by
  intro _ e t hrun
  cases hrun
  exact ⟨Scan.offset_of_rest_nil hend, hclosed⟩

/-- Two steps in a row, the second of which may use how the first one ended. -/
theorem bindRun (hm : m.Forward) (first : LeavesOpen opened s m)
    (second : ∀ a t, m s = .ok a t → s.Leads t → LeavesOpen opened t (f a)) :
    LeavesOpen opened s (m >>= f) := by
  intro hs e u hrun
  cases hfirst : m s with
  | ok a t =>
    have hst := hm.leads hfirst
    rw [run_bind_ok hfirst] at hrun
    obtain ⟨hoffset, hclosed⟩ := second a t hfirst hst (hs.later hst) e u hrun
    exact ⟨hoffset.trans hst.size_eq, hclosed⟩
  | error e' t =>
    rw [run_bind_error hfirst] at hrun
    cases hrun
    exact first hs e u hfirst

/-- Two steps in a row. -/
theorem bind (hm : m.Forward) (first : LeavesOpen opened s m)
    (second : ∀ a t, LeavesOpen opened t (f a)) : LeavesOpen opened s (m >>= f) :=
  bindRun hm first fun a t _ _ => second a t

/-- Taking characters and going on. -/
theorem take {f : Unit → Reading β} {count : Nat}
    (h : LeavesOpen opened (s.advance count) (f ())) :
    LeavesOpen opened s (Reading.advance count >>= f) :=
  bindRun (.advance count) (advance count) fun _ _ hrun _ => by
    cases hrun
    exact h

/-- Looking ahead. -/
theorem rest {f : List Char → Reading β} (h : LeavesOpen opened s (f s.rest)) :
    LeavesOpen opened s (Reading.rest >>= f) := h

/-- Looking at the offset. -/
theorem seeOffset {f : Nat → Reading β} (h : LeavesOpen opened s (f s.offset)) :
    LeavesOpen opened s (Reading.offset >>= f) := h

/-- Making a note and going on. -/
theorem noted {f : Unit → Reading β} (n : Note) (h : ∀ t, LeavesOpen opened t (f ())) :
    LeavesOpen opened s (Reading.note n >>= f) :=
  bind (.note n) (note n) fun _ => h

/-- A choice between two steps. -/
theorem ite {c : Prop} [Decidable c] {m m' : Reading α} (yes : c → LeavesOpen opened s m)
    (no : ¬ c → LeavesOpen opened s m') : LeavesOpen opened s (if c then m else m') := by
  by_cases h : c
  · rw [if_pos h]
    exact yes h
  · rw [if_neg h]
    exact no h

/-- Where a group is opened ahead, it may be left open. -/
theorem opening (closer : Closer) (hahead : closer.OpenedIn s.rest)
    (h : opened closer → LeavesOpen opened s m) : LeavesOpen opened s m :=
  fun hs => h (hs closer hahead) hs

/-- An opening brace, and what is read after it. -/
theorem brace {f : Unit → Reading β} {after : List Char} (hrest : s.rest = '{' :: after)
    (h : opened .brace → LeavesOpen opened (s.advance 1) (f ())) :
    LeavesOpen opened s (Reading.advance 1 >>= f) :=
  opening .brace (by simp [Closer.OpenedIn, hrest]) fun hbrace => take (h hbrace)

end LeavesOpen

variable {α : Type} {opened : Closer → Prop} {s : Scan}

/-! ## The lexical steps -/

/-- Layout does not fail. -/
theorem leavesOpen_skipLayout : LeavesOpen opened s skipLayout := .rest (.advance _)

/-- Neither do apostrophes. -/
theorem leavesOpen_primes : LeavesOpen opened s primes := .rest (.take (.pure _))

/-- Layout, and what is read after it. -/
theorem leavesOpen_layout {f : Unit → Reading α} (h : ∀ t, LeavesOpen opened t (f ())) :
    LeavesOpen opened s (skipLayout >>= f) :=
  .bind forward_skipLayout leavesOpen_skipLayout fun _ => h

/-- Without the mark everything is taken, and that is no failure yet. -/
theorem leavesOpen_through (mark : Char) : LeavesOpen opened s (through? mark) := by
  refine .rest ?_
  split
  · exact .take (.pure _)
  · exact .rest (.take (.pure _))

/-- Where the mark is missing everything has been taken. -/
theorem rest_of_through_none {mark : Char} {t : Scan} (h : through? mark s = .ok none t) :
    t.rest = [] := by
  unfold through? at h
  rw [run_bind_ok (run_rest s)] at h
  cases hbefore : before? mark s.rest with
  | some taken =>
    rw [hbefore] at h
    cases h
  | none =>
    rw [hbefore] at h
    cases h
    simp [Scan.advance]

/-- A missing delimiter is no failure. -/
theorem leavesOpen_delimiter : LeavesOpen opened s delimiter? := by
  refine leavesOpen_layout fun t => .rest ?_
  split
  · exact .take (.pure _)
  · exact .pure _

/-- It costs a note only. -/
theorem leavesOpen_delimiterAfter (command : String) :
    LeavesOpen opened s (delimiterAfter command) := by
  refine .bind forward_delimiter leavesOpen_delimiter fun found t => ?_
  split
  · exact .pure _
  · exact .seeOffset (.noted _ fun _ => .pure _)

/-- The name of an environment fails at the end of the text, for want of its brace. -/
theorem leavesOpen_environmentName : LeavesOpen opened s environmentName? := by
  refine leavesOpen_layout fun t => .rest ?_
  split
  · next hrest =>
    refine .brace hrest fun hbrace => ?_
    refine .bindRun (forward_through _) (leavesOpen_through _) fun found u hrun _ => ?_
    cases found with
    | some name => exact .pure _
    | none => exact .unclosed hbrace (rest_of_through_none hrun)
  · exact .pure _

/-- So does a column specification. -/
theorem leavesOpen_columnSpecification : LeavesOpen opened s columnSpecification := by
  refine leavesOpen_layout fun t => .rest ?_
  split
  · next after hrest =>
    refine .brace hrest fun hbrace => ?_
    split
    · exact .take (.pure _)
    · exact .take (.unclosed hbrace (by simp [Scan.advance, hrest]))
  · exact .pure _

/-- A body that is passed over fails only in the name of an environment, by induction on the
bound. -/
theorem leavesOpen_skipEnvironmentFrom (name : String) (bound depth : Nat) :
    LeavesOpen opened s (skipEnvironmentFrom name bound depth) := by
  induction bound generalizing depth s with
  | zero => exact .note _
  | succ bound ih =>
    refine .rest ?_
    split
    · exact .note _
    refine .take ?_
    split
    · refine .take ?_
      split
      · refine .bind forward_environmentName leavesOpen_environmentName fun found t => ?_
        split
        · exact ih _
        · exact ih _
      split
      · refine .bind forward_environmentName leavesOpen_environmentName fun found t => ?_
        split
        · cases depth with
          | zero => exact .pure _
          | succ depth => exact ih depth
        · exact ih _
      · exact ih depth
    · exact ih depth

/-- That holds of the loop through it. -/
theorem leavesOpen_skipEnvironment (name : String) :
    LeavesOpen opened s (skipEnvironment name) :=
  .rest (leavesOpen_skipEnvironmentFrom name _ 0)

/-- The bound on the rounds is never used up before the end of the formula. -/
theorem leavesOpen_textFrom (hbrace : opened .brace) {bound : Nat}
    (hbound : s.rest.length ≤ bound) (depth : Nat) (text : List Char) :
    LeavesOpen opened s (textFrom bound depth text) := by
  induction bound generalizing depth text s with
  | zero => exact .unclosed hbrace (List.length_eq_zero_iff.mp (by omega))
  | succ bound ih =>
    unfold textFrom
    refine .rest ?_
    cases hrest : s.rest with
    | nil => exact .unclosed hbrace hrest
    | cons c after =>
      have hlength : (s.advance 1).rest.length ≤ bound := by
        simp only [Scan.advance, hrest, List.length_drop, List.length_cons] at hbound ⊢
        omega
      refine .seeOffset (.take ?_)
      have next (depth : Nat) (text : List Char) := ih hlength depth text
      split
      · cases depth with
        | zero => exact .pure _
        | succ depth => exact next _ _
      split
      · exact next _ _
      split
      · exact next _ _
      split
      · refine .bindRun (.advance _) (.advance _) fun _ t _ ht => ?_
        have hshorter : t.rest.length ≤ bound := Nat.le_trans ht.length_le hlength
        split
        · exact ih hshorter _ _
        split
        · refine .bindRun (.note _) (.note _) fun _ u _ hu => ?_
          exact ih (Nat.le_trans hu.length_le hshorter) _ _
        · exact ih hshorter _ _
      split
      · exact next _ _
      · exact next _ _

/-- Plain text fails for want of the brace that closes it. -/
theorem leavesOpen_textArgument : LeavesOpen opened s textArgument := by
  refine leavesOpen_layout fun t => .rest ?_
  cases hrest : t.rest with
  | nil => exact .pure _
  | cons c after =>
    by_cases hc : c = '{'
    · subst hc
      refine .brace hrest fun hbrace => ?_
      rw [if_pos rfl]
      exact leavesOpen_textFrom hbrace (by simp [Scan.advance, hrest]) _ _
    · refine .take ?_
      rw [if_neg hc]
      exact .pure _

/-- A token that is dropped may hold the name of an environment. -/
theorem leavesOpen_skipToken : LeavesOpen opened s skipToken := by
  refine .seeOffset (.rest ?_)
  split
  · exact .pure _
  refine .take ?_
  split
  · refine .take ?_
    split
    · exact .bind forward_environmentName leavesOpen_environmentName fun _ _ => .note _
    split
    · exact .bind forward_delimiter leavesOpen_delimiter fun _ _ => .note _
    · exact .note _
  · exact .note _

end Reading

/-! ## The rules of the grammar -/

/-- Nested parts fail at the end of the formula only.  A sequence may be the rest of a group whose
opening has been taken. -/
structure Nested.LeavesOpen (opened : Closer → Prop) (nested : Nested) : Prop where
  base : ∀ s, Reading.LeavesOpen opened s nested.base
  limits : ∀ place s, Reading.LeavesOpen opened s (nested.limits place)
  sequence : ∀ closer s, (∀ c ∈ closer, opened c) →
    Reading.LeavesOpen opened s (nested.sequence closer)
  region : ∀ s, Reading.LeavesOpen opened s nested.region
  rows : ∀ row cell s, Reading.LeavesOpen opened s (nested.rows row cell)
  forward : nested.Forward

namespace Reading

variable {opened : Closer → Prop} {nested : Nested} {s : Scan}

/-- An argument fails inside its group or its base. -/
theorem leavesOpen_argument (hn : nested.LeavesOpen opened) :
    LeavesOpen opened s (argument nested) := by
  refine leavesOpen_layout fun t => .rest ?_
  cases hrest : t.rest with
  | nil => exact .pure _
  | cons c after =>
    dsimp only
    split
    · next hc =>
      subst hc
      refine .brace hrest fun hbrace => ?_
      exact .bind (hn.forward.sequence _) (hn.sequence _ _ (by simpa using hbrace))
        fun _ _ => .pure _
    split
    · exact .take (.pure _)
    · refine .bind hn.forward.base (hn.base t) fun found u => ?_
      split
      · exact .pure _
      · exact .pure _

/-- Commands that move scripts do not fail by themselves. -/
theorem leavesOpen_limits (hn : nested.LeavesOpen opened) (place : Limits) :
    LeavesOpen opened s (Reading.limits nested place) := by
  refine leavesOpen_layout fun t => .rest ?_
  split
  · exact .take (hn.limits _ _)
  · exact .take (hn.limits _ _)
  · exact .pure _

/-- A superscript fails inside its argument. -/
theorem leavesOpen_superscript (hn : nested.LeavesOpen opened) :
    LeavesOpen opened s (superscript nested) := by
  refine leavesOpen_layout fun t => .bind forward_primes leavesOpen_primes fun count u => ?_
  split
  · exact leavesOpen_argument hn
  · exact .pure _

/-- The loop for scripts fails inside a script, by induction on the bound. -/
theorem leavesOpen_scriptsFrom (hn : nested.LeavesOpen opened) (bound : Nat)
    (scripts : Scripts) : LeavesOpen opened s (scriptsFrom nested bound scripts) := by
  induction bound generalizing scripts s with
  | zero => exact .pure _
  | succ bound ih =>
    refine leavesOpen_layout fun t => .rest ?_
    have hupper (next : Expr → Scripts) : LeavesOpen opened t (advance 1 >>= fun _ =>
        superscript nested >>= fun e => scriptsFrom nested bound (next e)) :=
      .take (.bind (forward_superscript hn.forward) (leavesOpen_superscript hn) fun _ _ => ih _)
    split
    · split
      · exact .pure _
      · refine .take (.bind (forward_argument hn.forward) (leavesOpen_argument hn) ?_)
        exact fun _ _ => ih _
    · split
      · exact hupper _
      split
      · exact hupper _
      · exact .pure _
    · exact .pure _

/-- Scripts fail inside the loop. -/
theorem leavesOpen_scripts (hn : nested.LeavesOpen opened) (b : Base) :
    LeavesOpen opened s (scripts nested b) := by
  refine .bind (forward_limits hn.forward _) (leavesOpen_limits hn _) fun _ t => ?_
  refine .bind forward_primes leavesOpen_primes fun _ u => ?_
  refine .bind (forward_scriptsFrom hn.forward _ _) (leavesOpen_scriptsFrom hn _ _) ?_
  exact fun _ _ => .pure _

/-- An item fails inside its base, its scripts or the token that is dropped. -/
theorem leavesOpen_item (hn : nested.LeavesOpen opened) : LeavesOpen opened s (item nested) := by
  refine leavesOpen_layout fun t => .seeOffset ?_
  refine .bind hn.forward.base (hn.base t) fun found u => ?_
  split
  · exact .bind (forward_scripts hn.forward _) (leavesOpen_scripts hn _) fun _ _ => .pure _
  · refine .seeOffset ?_
    split
    · exact .bind forward_skipToken leavesOpen_skipToken fun _ _ => .pure _
    · exact .pure _

/-- A sequence with a closer fails at the end of the text, for want of it. -/
theorem leavesOpen_sequence (hn : nested.LeavesOpen opened) {closer : Option Closer}
    (hcloser : ∀ c ∈ closer, opened c) : LeavesOpen opened s (sequence nested closer) := by
  have hnext (t : Scan) : LeavesOpen opened t (sequence.next nested closer) := by
    refine .bind (forward_item hn.forward) (leavesOpen_item hn) fun _ u => ?_
    exact .bind (hn.forward.sequence _) (hn.sequence _ u hcloser) fun _ _ => .pure _
  refine leavesOpen_layout fun t => .rest ?_
  split
  · exact .pure _
  · next hrest => exact .unclosed (hcloser _ rfl) hrest
  · split
    · exact .take (.pure _)
    · exact hnext t
  · exact hnext t

/-- A region is closed by the end of the text and fails inside its items only. -/
theorem leavesOpen_region (hn : nested.LeavesOpen opened) :
    LeavesOpen opened s (region nested) := by
  have hmissing (t : Scan) : LeavesOpen opened t region.missing :=
    .seeOffset (.noted _ fun _ => .pure _)
  have hnext (t : Scan) : LeavesOpen opened t (region.next nested) := by
    refine .bind (forward_item hn.forward) (leavesOpen_item hn) fun _ u => ?_
    exact .bind hn.forward.region (hn.region u) fun _ _ => .pure _
  refine leavesOpen_layout fun t => .rest ?_
  split
  · exact hmissing t
  split
  · exact hmissing t
  split
  · dsimp only
    split
    · exact hmissing t
    split
    · refine .take ?_
      exact .bind (forward_delimiterAfter _) (leavesOpen_delimiterAfter _) fun _ _ => .pure _
    split
    · refine .take ?_
      refine .bind (forward_delimiterAfter _) (leavesOpen_delimiterAfter _) fun _ u => ?_
      exact .bind hn.forward.region (hn.region u) fun _ _ => .pure _
    · exact hnext t
  · exact hnext t

/-- So are the rows of an array. -/
theorem leavesOpen_rows (hn : nested.LeavesOpen opened) (row : Row) (cell : Cell) :
    LeavesOpen opened s (rows nested row cell) := by
  have hmissing (t : Scan) : LeavesOpen opened t (rows.missing row cell) :=
    .seeOffset (.noted _ fun _ => .pure _)
  have hnext (t : Scan) : LeavesOpen opened t (rows.next nested row cell) :=
    .bind (forward_item hn.forward) (leavesOpen_item hn) fun _ u => hn.rows _ _ u
  have hothers (t : Scan) : LeavesOpen opened t
      (nested.rows [] [] >>= fun others => pure ((row ++ [cell]) :: others)) :=
    .bind (hn.forward.rows _ _) (hn.rows _ _ t) fun _ _ => .pure _
  refine leavesOpen_layout fun t => .rest ?_
  split
  · exact hmissing t
  split
  · exact hmissing t
  split
  · exact .take (hn.rows _ _ _)
  split
  · dsimp only
    split
    · refine .take (.rest ?_)
      split
      · exact .bind (forward_through _) (leavesOpen_through _) fun _ u => hothers u
      · exact hothers _
    split
    · refine .take ?_
      exact .bind forward_environmentName leavesOpen_environmentName fun _ _ => .pure _
    · exact hnext t
  · exact hnext t

/-- An environment fails in its name, its column specification, its rows or its body. -/
theorem leavesOpen_environment (hn : nested.LeavesOpen opened) :
    LeavesOpen opened s (environment nested) := by
  refine .bind forward_environmentName leavesOpen_environmentName fun found t => ?_
  split
  · exact .seeOffset (.noted _ fun _ => .pure _)
  split
  · refine .noted _ fun u => ?_
    exact .bind (forward_skipEnvironment _) (leavesOpen_skipEnvironment _) fun _ _ => .pure _
  have hrows {f : List Row → Reading (Option Expr)} (u : Scan)
      (hf : ∀ rows v, LeavesOpen opened v (f rows)) :
      LeavesOpen opened u (nested.rows [] [] >>= f) :=
    .bind (hn.forward.rows _ _) (hn.rows _ _ u) hf
  refine .ite (fun _ => ?_) fun _ => ?_
  · refine .bind forward_columnSpecification leavesOpen_columnSpecification fun _ u => ?_
    refine hrows u fun _ _ => ?_
    split
    · exact .pure _
    · exact .pure _
  · refine .bind (.pure _) (.pure _) fun _ u => hrows u fun _ _ => ?_
    split
    · exact .pure _
    · exact .pure _

/-- A delimited region fails inside its content. -/
theorem leavesOpen_delimited (hn : nested.LeavesOpen opened) :
    LeavesOpen opened s (delimited nested) := by
  refine .bind (forward_delimiterAfter _) (leavesOpen_delimiterAfter _) fun _ t => ?_
  exact .bind hn.forward.region (hn.region t) fun _ _ => .pure _

/-- A root, from its backslash on.  Its index is the one group that is opened by two pieces. -/
theorem leavesOpen_root (hn : nested.LeavesOpen opened) (start : Nat)
    (hrest : "\\sqrt".toList <+: s.rest) :
    LeavesOpen opened s (advance 5 >>= fun _ => command nested start .sqrt) := by
  obtain ⟨after, hafter⟩ := hrest
  have hargument (u : Scan) : LeavesOpen opened u (argument nested) := leavesOpen_argument hn
  have hforward := forward_argument hn.forward
  by_cases hindex : ∃ inside, after.drop (layoutLength after) = '[' :: inside
  · obtain ⟨inside, hinside⟩ := hindex
    have hroot : HasRootIndex s.rest := by
      have hsplit : after.take (layoutLength after) ++ '[' :: inside = after := by
        rw [← hinside, List.take_append_drop]
      refine ⟨after.take (layoutLength after), isLayout_take after (by simp [hinside]), [], inside,
        ?_⟩
      rw [← hafter]
      simpa using hsplit
    refine .opening .bracket hroot fun hbracket => .take ?_
    refine leavesOpen_layout fun t => .rest ?_
    split
    · refine .take (.bind (hn.forward.sequence _) (hn.sequence _ _ (by simpa using hbracket)) ?_)
      exact fun _ u => .bind hforward (hargument u) fun _ _ => .pure _
    · exact .bind hforward (hargument t) fun _ _ => .pure _
  · have hrest' : (s.advance 5).rest = after := by
      rw [Scan.advance, ← hafter]
      rfl
    refine .take (.bindRun forward_skipLayout leavesOpen_skipLayout fun _ t hrun _ => .rest ?_)
    have ht : t.rest = after.drop (layoutLength after) := by
      rw [run_skipLayout, hrest'] at hrun
      cases hrun
      rw [Scan.advance, hrest']
    split
    · next inside hahead => exact absurd ⟨inside, by rw [← ht, hahead]⟩ hindex
    · exact .bind hforward (hargument t) fun _ _ => .pure _

/-- A command without an index fails inside its arguments. -/
theorem leavesOpen_command (hn : nested.LeavesOpen opened) (start : Nat) {found : Command}
    (hfound : found ≠ .sqrt) : LeavesOpen opened s (command nested start found) := by
  have hargument (t : Scan) : LeavesOpen opened t (argument nested) := leavesOpen_argument hn
  have hforward := forward_argument hn.forward
  cases found with
  | sqrt => exact absurd rfl hfound
  | symbol | identifier | operatorName | space | limits | ignored | right | middle
  | endEnvironment => exact .pure _
  | sized factor =>
    refine .bind forward_delimiter leavesOpen_delimiter fun found t => ?_
    split
    · exact .pure _
    · exact .noted _ fun _ => .pure _
  | decoration | boxed | phantom | cancel =>
    exact .bind hforward (hargument s) fun _ _ => .pure _
  | fraction | overset | underset =>
    exact .bind hforward (hargument s) fun _ t => .bind hforward (hargument t) fun _ _ => .pure _
  | left => exact .bind (forward_delimited hn.forward) (leavesOpen_delimited hn) fun _ _ => .pure _
  | beginEnvironment =>
    exact .bind (forward_environment hn.forward) (leavesOpen_environment hn) fun _ _ => .pure _
  | namedOperator =>
    exact .bind forward_textArgument leavesOpen_textArgument fun _ _ => .pure _

/-- A style command fails inside its argument. -/
theorem leavesOpen_styled (hn : nested.LeavesOpen opened) (style : StyleCommand) :
    LeavesOpen opened s (styled nested style) := by
  cases style with
  | text => exact .bind forward_textArgument leavesOpen_textArgument fun _ _ => .pure _
  | formula =>
    refine leavesOpen_layout fun t => .rest ?_
    split
    · next hrest =>
      refine .brace hrest fun hbrace => ?_
      exact .bind (hn.forward.sequence _) (hn.sequence _ _ (by simpa using hbrace))
        fun _ _ => .pure _
    · exact .bind hn.forward.base (hn.base t) fun _ _ => .pure _

/-- A command that begins here opens a bracket only as a radical. -/
theorem leavesOpen_commandBase (hn : nested.LeavesOpen opened) {after : List Char}
    (hrest : s.rest = '\\' :: after) : LeavesOpen opened s (commandBase nested after) := by
  unfold commandBase
  dsimp only
  split
  · exact .pure _
  rename_i meaning hmeaning
  split
  · next found =>
    split
    · exact .pure _
    refine .seeOffset ?_
    by_cases hroot : found = .sqrt
    · subst hroot
      have hname : commandName after = "sqrt".toList := by
        rw [← name_of_sqrt hmeaning, String.toList_ofList]
      rw [hname]
      refine leavesOpen_root hn _ ?_
      rw [hrest]
      have hprefix := commandName_isPrefix after
      rw [hname] at hprefix
      exact List.cons_prefix_cons.mpr ⟨rfl, hprefix⟩
    · exact .take (leavesOpen_command hn _ hroot)
  · exact .take (.pure _)
  · exact .take (.bind (forward_styled hn.forward _) (leavesOpen_styled hn _) fun _ _ => .pure _)

/-- A base fails inside its group or its command. -/
theorem leavesOpen_base (hn : nested.LeavesOpen opened) :
    LeavesOpen opened s (Reading.base nested) := by
  refine leavesOpen_layout fun t => .rest ?_
  cases hrest : t.rest with
  | nil => exact .pure _
  | cons c after =>
    dsimp only
    split
    · next hc =>
      subst hc
      refine .brace hrest fun hbrace => ?_
      exact .bind (hn.forward.sequence _) (hn.sequence _ _ (by simpa using hbrace))
        fun _ _ => .pure _
    split
    · exact .take (.pure _)
    split
    · next hc =>
      subst hc
      exact leavesOpen_commandBase hn hrest
    split
    · exact .pure _
    split
    · exact .bind forward_primes leavesOpen_primes fun _ _ => .pure _
    split
    · exact .take (.pure _)
    split
    · exact .pure _
    · exact .take (.pure _)

end Reading

namespace Nested

/-- **Only open groups fail**, to any depth. -/
theorem leavesOpen_ofDepth (opened : Closer → Prop) (depth : Nat) :
    (ofDepth depth).LeavesOpen opened := by
  induction depth with
  | zero =>
    exact {
      base := fun s => .pure _
      limits := fun place s => .pure _
      sequence := fun closer s _ => .pure _
      region := fun s => .pure _
      rows := fun row cell s => .pure _
      forward := forward_ofDepth 0 }
  | succ depth ih =>
    exact {
      base := fun s => Reading.leavesOpen_base ih
      limits := fun place s => Reading.leavesOpen_limits ih place
      sequence := fun closer s hcloser => Reading.leavesOpen_sequence ih hcloser
      region := fun s => Reading.leavesOpen_region ih
      rows := fun row cell s => Reading.leavesOpen_rows ih row cell
      forward := forward_ofDepth (depth + 1) }

end Nested

/-- **An error stands at the end of the formula.**  Where reading a formula fails, the offset of
the error is the number of bytes of the formula.  If a brace is missing, the formula has an opening
brace; if a bracket is missing, it has a `\sqrt` and then, after blanks and comments only, an
opening bracket. -/
theorem parse_error_at_end {text : String} {e : Unclosed} (h : parse text = .error e) :
    e.offset = text.utf8ByteSize ∧ (e.closer = .brace → '{' ∈ text.toList) ∧
      (e.closer = .bracket → HasRootIndex text.toList) := by
  let opened (closer : Closer) : Prop := closer.OpenedIn text.toList
  have hwithin : (Scan.start text).Within opened := fun _ hopened => hopened
  cases hrun : Reading.alone (·.sequence none) (Scan.start text) with
  | ok members t =>
    rw [parse, read, hrun] at h
    cases h
  | error e' t =>
    rw [parse, read, hrun] at h
    cases h
    have hsequence : (Nested.forRest text.toList).sequence none (Scan.start text) = .error e t :=
      hrun
    have hopen : (Nested.forRest text.toList).LeavesOpen opened :=
      Nested.leavesOpen_ofDepth opened _
    obtain ⟨hoffset, hclosed⟩ := hopen.sequence none _ (by simp) hwithin e t hsequence
    refine ⟨by rw [hoffset, Scan.size_start], fun hbrace => ?_, fun hbracket => ?_⟩
    · rw [hbrace] at hclosed
      exact hclosed
    · rw [hbracket] at hclosed
      exact hclosed

/-- An index with a comment before its bracket.  The brace in the comment opens nothing. -/
theorem parse_error_at_end_root_index :
    parse "\\sqrt %\x7b\n [3" = .error ⟨12, .bracket⟩ ∧
      12 = "\\sqrt %\x7b\n [3".utf8ByteSize ∧
      HasRootIndex "\\sqrt %\x7b\n [3".toList := by
  have hread : parse "\\sqrt %\x7b\n [3" = .error ⟨12, .bracket⟩ :=
    eq_error_of_error? (by decide +kernel)
  obtain ⟨hoffset, -, hbracket⟩ := parse_error_at_end hread
  exact ⟨hread, hoffset, hbracket rfl⟩

end OfficeMath
