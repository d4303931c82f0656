import OfficeMath.Proofs.Latex.Approach
import OfficeMath.Proofs.Latex.CommandNames
import OfficeMath.Proofs.Latex.Numeral
import OfficeMath.Proofs.Latex.OpenGroups
import OfficeMath.Proofs.Latex.Significant

/-!
# Counting open groups

While a formula is read, some groups in braces are open, and each brace that the reader takes as
one opens a group or closes the innermost one.  A `GroupInvariant` is a statement about the number
of open groups and the text ahead that survives each such step: layout, a brace of either kind, a
closing brace where no group is open, any other character, a command.  It has to say something,
too, about the few places where the reader takes text as it stands (`GroupInvariant.text` and the
conditions after it).

Then it holds of the whole reading (`GroupInvariant.parse_cases`): if the formula can be read, it
holds at the end with no group open, and if it cannot, then a brace is missing at the end of the
formula and the invariant holds there with a group open.  So questions about braces become
questions about a text and a number.

Only a sequence in braces changes the number of open groups.  All other rules begin and end inside
the same group, and none of them takes its closing brace: an item is never begun at a closing
brace, except at the top level, where the brace is skipped.
-/

namespace OfficeMath

/-- Where this text is ahead a step succeeds, and of what it leaves ahead a condition holds. -/
def Reading.Leaves {α : Type} (text : List Char) (m : Reading α) (post : List Char → Prop) : Prop :=
  ∀ s : Scan, s.rest = text → ∃ a t, m s = .ok a t ∧ post t.rest

/-- A statement about the number of open groups and the text ahead that survives reading. -/
structure GroupInvariant where
  Holds : Nat → List Char → Prop
  layout : ∀ {count text}, Holds count text → Holds count (text.drop (layoutLength text))
  opening : ∀ {count after}, Holds count ('{' :: after) → Holds (count + 1) after
  closing : ∀ {count after}, Holds (count + 1) ('}' :: after) → Holds count after
  /-- A closing brace that closes nothing. -/
  stray : ∀ {after}, Holds 0 ('}' :: after) → Holds 0 after
  char : ∀ {count c after}, IsSolid c → c ∉ ['{', '}', '\\'] → Holds count (c :: after) →
    Holds count after
  command : ∀ {count after}, Holds count ('\\' :: after) →
    Holds count (after.drop (commandName after).length)
  /-- The plain text after a command that takes some. -/
  text : ∀ {count after}, Holds count ('\\' :: after) →
    takesText (String.ofList (commandName after)) →
    Reading.textArgument.Leaves (after.drop (commandName after).length) (Holds count)
  /-- The name of an environment. -/
  name : ∀ {count after}, Holds count ('\\' :: after) →
    commandName after = "begin".toList ∨ commandName after = "end".toList →
    Reading.environmentName?.Leaves (after.drop (commandName after).length) (Holds count)
  /-- The plain text after the name of an environment, if it is not supported or has columns. -/
  environment : ∀ {count after}, Holds count ('\\' :: after) →
    commandName after = "begin".toList → ∀ {s t : Scan} {environment : String},
    s.rest = after.drop 5 → Reading.environmentName? s = .ok (some environment) t →
    (Environment.ofName? environment = none →
      (Reading.skipEnvironment environment).Leaves t.rest (Holds count)) ∧
    (∀ known, Environment.ofName? environment = some known → known.hasColumnSpecification →
      Reading.columnSpecification.Leaves t.rest (Holds count))
  /-- There are no brackets that the reader could take for the height of a row … -/
  height : ∀ {count after}, Holds count ('\\' :: after) → commandName after = "begin".toList →
    '[' ∉ after
  /-- … or for the index of a root. -/
  index : ∀ {count after}, Holds count ('\\' :: after) → commandName after = "sqrt".toList →
    ((after.drop 4).drop (layoutLength (after.drop 4))).head? ≠ some '['

/-- It holds at the end of the formula, where a group is still open. -/
def GroupInvariant.LeftOpen (I : GroupInvariant) : Prop := ∃ count, I.Holds (count + 1) []

/-- Characters other than braces and backslashes are passed over. -/
theorem GroupInvariant.chars (I : GroupInvariant) {count : Nat}
    {taken text : List Char} (htaken : ∀ c ∈ taken, IsSolid c ∧ c ∉ ['{', '}', '\\'])
    (h : I.Holds count (taken ++ text)) : I.Holds count text := by
  induction taken with
  | nil => exact h
  | cons c taken ih =>
    obtain ⟨⟨hsolid, hc⟩, htaken⟩ := List.forall_mem_cons.mp htaken
    exact ih htaken (I.char hsolid hc h)

namespace Reading

/-! ## Steps that keep an invariant -/

/-- If the invariant holds where a step begins, with `before` groups open, it holds with `after`
groups open where the step ends; and if the step fails, a brace is missing at the end of the
formula.  What is said of failures is said of those inside of the formula. -/
def Keeps {α : Type} (I : GroupInvariant) (before : Nat) (s : Scan) (m : Reading α)
    (after : Nat) : Prop :=
  I.Holds before s.rest →
    (∀ a t, m s = .ok a t → I.Holds after t.rest) ∧
      ∀ e t, m s = .error e t → e.offset ≤ s.size → e.closer = .brace ∧ I.LeftOpen

namespace Keeps

variable {α β : Type} {I : GroupInvariant} {count before middle after : Nat} {s : Scan}
  {m : Reading α} {f : α → Reading β}

theorem pure (a : α) : Keeps I count s (Pure.pure a : Reading α) count := by
  intro h
  refine ⟨fun b t hrun => ?_, nofun⟩
  cases hrun
  exact h

theorem note (n : Note) : Keeps I count s (Reading.note n) count := by
  intro h
  refine ⟨fun b t hrun => ?_, nofun⟩
  cases hrun
  exact h

/-- Behind the end of the formula anything may fail. -/
theorem beyond : Keeps I before s (Reading.beyond : Reading α) after := by
  intro _
  refine ⟨nofun, fun e t hrun hoffset => ?_⟩
  cases hrun
  dsimp only at hoffset
  omega

/-- Where a group is open at the end of the formula, its brace is missing. -/
theorem unclosed (hend : s.rest = []) :
    Keeps I (before + 1) s (Reading.unclosed .brace : Reading α) after := by
  intro h
  refine ⟨nofun, fun e t hrun _ => ?_⟩
  cases hrun
  exact ⟨rfl, before, hend ▸ h⟩

/-- A step that succeeds. -/
theorem of_leaves (h : m.Leaves s.rest (I.Holds after)) : Keeps I before s m after := by
  intro _
  obtain ⟨a, t, hrun, ht⟩ := h s rfl
  refine ⟨fun b u hb => ?_, fun e u he => ?_⟩
  · rw [hrun] at hb
    cases hb
    exact ht
  · rw [hrun] at he
    cases he

/-- Two steps in a row. -/
theorem bind (hm : m.Forward) (first : Keeps I before s m middle)
    (second : ∀ a t, m s = .ok a t → Keeps I middle t (f a) after) :
    Keeps I before s (m >>= f) after := by
  intro h
  obtain ⟨hok, herror⟩ := first h
  cases hfirst : m s with
  | ok a t =>
    have hsize := (hm.leads hfirst).size_eq
    obtain ⟨hok', herror'⟩ := second a t hfirst (hok a t hfirst)
    rw [run_bind_ok hfirst]
    exact ⟨hok', fun e u hrun hoffset => herror' e u hrun (by omega)⟩
  | error e t =>
    rw [run_bind_error hfirst]
    refine ⟨nofun, fun e' u hrun hoffset => ?_⟩
    cases hrun
    exact herror e t hfirst hoffset

/-- A value that is only changed. -/
theorem map {g : α → β} (h : Keeps I before s m after) :
    Keeps I before s (m >>= fun a => Pure.pure (g a)) after := by
  intro hs
  obtain ⟨hok, herror⟩ := h hs
  cases hrun : m s with
  | ok a t =>
    rw [run_bind_ok hrun]
    refine ⟨fun b u hb => ?_, nofun⟩
    cases hb
    exact hok a t hrun
  | error e t =>
    rw [run_bind_error hrun]
    refine ⟨nofun, fun e' u hb hoffset => ?_⟩
    cases hb
    exact herror e t hrun hoffset

/-- The invariant may be used. -/
theorem given (h : I.Holds before s.rest → Keeps I before s m after) :
    Keeps I before s m after := fun hs => h hs hs

/-- Looking ahead. -/
theorem rest {f : List Char → Reading β} (h : Keeps I before s (f s.rest) after) :
    Keeps I before s (Reading.rest >>= f) after := h

/-- Looking at the offset. -/
theorem offset {f : Nat → Reading β} (h : Keeps I before s (f s.offset) after) :
    Keeps I before s (Reading.offset >>= f) after := h

/-- Making a note and going on. -/
theorem noted {f : Unit → Reading β} (n : Note)
    (h : Keeps I before { s with notes := n :: s.notes } (f ()) after) :
    Keeps I before s (Reading.note n >>= f) after := h

/-- A choice between two steps. -/
theorem ite {c : Prop} [Decidable c] {m' : Reading α} (yes : c → Keeps I before s m after)
    (no : ¬ c → Keeps I before s m' after) :
    Keeps I before s (if c then m else m') after := by
  by_cases h : c
  · rw [if_pos h]
    exact yes h
  · rw [if_neg h]
    exact no h

/-- Taking characters, if the invariant holds after them. -/
theorem take {f : Unit → Reading β} {taken : Nat}
    (hholds : I.Holds before s.rest → I.Holds middle (s.rest.drop taken))
    (h : Keeps I middle (s.advance taken) (f ()) after) :
    Keeps I before s (Reading.advance taken >>= f) after := by
  intro hs
  have hlater := h (hholds hs)
  rw [Scan.size_advance] at hlater
  exact hlater

/-- Taking layout.  What is ahead then is no layout. -/
theorem layout {f : Unit → Reading β}
    (h : ∀ t : Scan, t.rest = s.rest.drop (layoutLength s.rest) → layoutLength t.rest = 0 →
      Keeps I before t (f ()) after) :
    Keeps I before s (skipLayout >>= f) after :=
  .rest (f := fun ahead => Reading.advance (layoutLength ahead) >>= f)
    (.take I.layout (h _ rfl (layoutLength_drop s.rest)))

/-- Taking one character. -/
theorem takeOne {f : Unit → Reading β} {c : Char} {text : List Char} (hrest : s.rest = c :: text)
    (hholds : I.Holds before (c :: text) → I.Holds middle text)
    (h : Keeps I middle (s.advance 1) (f ()) after) :
    Keeps I before s (Reading.advance 1 >>= f) after :=
  take (by rw [hrest]; exact hholds) h

/-- Taking a command at once … -/
theorem takeCommand {f : Unit → Reading β} {taken : Nat} {text : List Char}
    (hrest : s.rest = '\\' :: text) (htaken : taken = 1 + (commandName text).length)
    (h : Keeps I before (s.advance taken) (f ()) after) :
    Keeps I before s (Reading.advance taken >>= f) after := by
  refine take (fun hs => ?_) h
  rw [hrest] at hs
  rw [hrest, htaken, Nat.add_comm, List.drop_succ_cons]
  exact I.command hs

/-- … or its name after its backslash. -/
theorem takeName {f : Unit → Reading β} {text : List Char} (hrest : s.rest = '\\' :: text)
    (h : Keeps I before (s.advance (1 + (commandName text).length)) (f ()) after) :
    Keeps I before s
      (Reading.advance 1 >>= fun _ => Reading.advance (commandName text).length >>= f) after := by
  have hlater := takeCommand hrest rfl h
  intro hs
  have hends := hlater hs
  rw [run_bind_ok (run_advance _ s), ← Scan.advance_add] at hends
  exact hends

end Keeps

variable {I : GroupInvariant} {count : Nat} {s : Scan}

/-! ## The lexical steps -/

/-- Apostrophes are no braces. -/
theorem keeps_primes : Keeps I count s primes count := by
  refine .rest (.take (fun hs => ?_) (.pure _))
  have hsplit := List.take_append_drop (primeCount s.rest) s.rest
  rw [take_primeCount] at hsplit
  rw [← hsplit] at hs
  refine I.chars (fun c hc => ?_) hs
  rw [List.eq_of_mem_replicate hc]
  decide

/-- A delimiter is a command or a character that is no brace. -/
theorem keeps_delimiter : Keeps I count s delimiter? count := by
  refine .layout fun t _ hlayout => .rest ?_
  split
  · next glyph length hfound =>
    rcases delimiterAt?_cases hfound with ⟨after, hrest, hlength⟩ | ⟨c, after, hrest, rfl, hc⟩
    · exact .takeCommand hrest hlength (.pure _)
    · exact .takeOne hrest (I.char (isSolid_of_layoutLength (hrest ▸ hlayout)) hc) (.pure _)
  · exact .pure _

/-- A missing delimiter changes nothing. -/
theorem keeps_delimiterAfter (command : String) :
    Keeps I count s (delimiterAfter command) count := by
  refine .bind forward_delimiter keeps_delimiter fun found t _ => ?_
  split
  · exact .pure _
  · exact .offset (.noted _ (.pure _))

/-- A token that no expression begins with is skipped.  An opening brace always begins one, and a
closing brace is skipped where it closes nothing. -/
theorem keeps_skipToken (hlayout : layoutLength s.rest = 0) (hopening : s.rest.head? ≠ some '{')
    (hclosing : count = 0 ∨ s.rest.head? ≠ some '}') : Keeps I count s skipToken count := by
  refine .offset (.rest ?_)
  cases hrest : s.rest with
  | nil => exact .pure _
  | cons c after =>
    rw [hrest, List.head?_cons] at hopening hclosing
    have hsolid := isSolid_of_layoutLength (hrest ▸ hlayout)
    by_cases hc : c = '\\'
    · subst hc
      refine .given fun hs => ?_
      rw [hrest] at hs
      refine .takeName hrest (.ite (fun hname => ?_) fun _ => .ite (fun _ => ?_) fun _ => .note _)
      · refine .bind forward_environmentName (.of_leaves ?_) fun _ _ _ => .note _
        rw [Scan.rest_advance_cons hrest]
        exact I.name hs (.inr hname)
      · exact .bind forward_delimiter keeps_delimiter fun _ _ _ => .note _
    · refine .takeOne hrest (fun hs => ?_) (.ite (fun h => absurd h hc) fun _ => .note _)
      by_cases hclosing' : c = '}'
      · subst hclosing'
        obtain rfl : count = 0 := hclosing.resolve_right fun h => h rfl
        exact I.stray hs
      · have hopening' : c ≠ '{' := fun h => hopening (by rw [h])
        exact I.char hsolid (by simp [hc, hclosing', hopening']) hs

end Reading

/-! ## The rules of the grammar -/

/-- Nested parts keep an invariant.  A sequence in braces closes the group that it is in. -/
structure Nested.Keeps (I : GroupInvariant) (nested : Nested) : Prop where
  base : ∀ count s, Reading.Keeps I count s nested.base count
  limits : ∀ place count s, Reading.Keeps I count s (nested.limits place) count
  toEnd : ∀ s, Reading.Keeps I 0 s (nested.sequence .none) 0
  group : ∀ count s, Reading.Keeps I (count + 1) s (nested.sequence (some .brace)) count
  region : ∀ count s, Reading.Keeps I count s nested.region count
  /-- A bracket after a double backslash would be the height of a row. -/
  rows : ∀ row cell count s, '[' ∉ s.rest → Reading.Keeps I count s (nested.rows row cell) count
  missing : ∀ {s t}, nested.base s = .ok .none t → s.rest.head? ≠ some '{'
  finished : ∀ {s members t}, nested.sequence .none s = .ok members t → t.rest = []
  forward : nested.Forward

namespace Reading

variable {I : GroupInvariant} {nested : Nested} {count : Nat} {s : Scan}

/-- A group in braces. -/
theorem keeps_group {α : Type} (hn : nested.Keeps I) {after : List Char}
    (hrest : s.rest = '{' :: after) (pack : List Expr → α) :
    Keeps I count s (advance 1 >>= fun _ =>
      nested.sequence (some .brace) >>= fun members => pure (pack members)) count :=
  .takeOne hrest I.opening (.map (hn.group _ _))

/-- The group of an argument is closed again. -/
theorem keeps_argument (hn : nested.Keeps I) : Keeps I count s (argument nested) count := by
  refine .layout fun t _ hlayout => .rest ?_
  cases hrest : t.rest with
  | nil => exact .pure _
  | cons c after =>
    have hsolid := isSolid_of_layoutLength (hrest ▸ hlayout)
    dsimp only
    split
    · next hc =>
      subst hc
      exact keeps_group hn hrest _
    split
    · next hdigit =>
      refine .takeOne hrest (I.char hsolid fun hc => ?_) (.pure _)
      have hdigits : ∀ c ∈ ['{', '}', '\\'], c.isDigit = false := by decide
      exact absurd hdigit (by simp [hdigits c hc])
    · refine .bind hn.forward.base (hn.base _ _) fun found u _ => ?_
      cases found with
      | none => exact .pure _
      | some b => exact .pure _

/-- Commands that move scripts are taken whole. -/
theorem keeps_limits (hn : nested.Keeps I) (place : Limits) :
    Keeps I count s (Reading.limits nested place) count := by
  refine .layout fun t _ _ => .rest ?_
  split
  · next hcommand =>
    obtain ⟨after, hrest, hname⟩ := commandAt?_eq_some hcommand
    exact .takeCommand hrest (by rw [hname]; rfl) (hn.limits _ _ _)
  · next hcommand =>
    obtain ⟨after, hrest, hname⟩ := commandAt?_eq_some hcommand
    exact .takeCommand hrest (by rw [hname]; rfl) (hn.limits _ _ _)
  · exact .pure _

/-- A superscript is a run of apostrophes or an argument. -/
theorem keeps_superscript (hn : nested.Keeps I) : Keeps I count s (superscript nested) count := by
  refine .layout fun t _ _ => .bind forward_primes keeps_primes fun count u _ => ?_
  cases count with
  | zero => exact keeps_argument hn
  | succ count => exact .pure _

/-- The loop for scripts takes marks and arguments, by induction on the bound. -/
theorem keeps_scriptsFrom (hn : nested.Keeps I) (bound : Nat) (scripts : Scripts) :
    Keeps I count s (scriptsFrom nested bound scripts) count := by
  induction bound generalizing scripts s with
  | zero => exact .pure _
  | succ bound ih =>
    refine .layout fun t _ _ => .rest ?_
    cases hrest : t.rest with
    | nil => exact .pure _
    | cons c after =>
      have hupper (hc : c = '^') (next : Expr → Scripts) : Keeps I count t (advance 1 >>= fun _ =>
          superscript nested >>= fun e => scriptsFrom nested bound (next e)) count := by
        subst hc
        refine .takeOne hrest (I.char (by decide) (by decide)) ?_
        exact .bind (forward_superscript hn.forward) (keeps_superscript hn) fun _ _ _ => ih _
      simp only [List.head?_cons]
      split
      · next heq =>
        obtain rfl : c = '_' := Option.some.inj heq
        split
        · exact .pure _
        · refine .takeOne hrest (I.char (by decide) (by decide)) ?_
          exact .bind (forward_argument hn.forward) (keeps_argument hn) fun _ _ _ => ih _
      · next heq =>
        have hc : c = '^' := Option.some.inj heq
        split
        · exact hupper hc _
        split
        · exact hupper hc _
        · exact .pure _
      · exact .pure _

/-- Scripts leave as many braces open as they find. -/
theorem keeps_scripts (hn : nested.Keeps I) (b : Base) :
    Keeps I count s (scripts nested b) count := by
  refine .bind (forward_limits hn.forward _) (keeps_limits hn _) fun _ t _ => ?_
  refine .bind forward_primes keeps_primes fun _ u _ => ?_
  refine .bind (forward_scriptsFrom hn.forward _ _) (keeps_scriptsFrom hn _ _) ?_
  exact fun _ _ _ => .pure _

/-- An item is never begun at the closing brace of a group. -/
theorem keeps_item (hn : nested.Keeps I) (hlayout : layoutLength s.rest = 0)
    (hclosing : count = 0 ∨ s.rest.head? ≠ some '}') : Keeps I count s (item nested) count := by
  refine .layout fun t ht _ => .offset ?_
  rw [hlayout, List.drop_zero] at ht
  refine .bind hn.forward.base (hn.base _ _) fun found u hbase => ?_
  cases found with
  | some b =>
    exact .bind (forward_scripts hn.forward _) (keeps_scripts hn _) fun _ _ _ => .pure _
  | none =>
    refine .offset (.ite (fun hsame => ?_) fun _ => .pure _)
    have hu : u.rest = s.rest := by
      rw [(hn.forward.base.leads hbase).rest_eq_of_offset_eq hsame, ht]
    have hopening : s.rest.head? ≠ some '{' := ht ▸ hn.missing hbase
    rw [← hu] at hlayout hclosing hopening
    exact .bind forward_skipToken (keeps_skipToken hlayout hopening hclosing) fun _ _ _ => .pure _

/-- The sequence outside of all groups goes on to the end of the text. -/
theorem keeps_sequence_toEnd (hn : nested.Keeps I) :
    Keeps I 0 s (sequence nested .none) 0 := by
  refine .layout fun t _ hlayout => .rest ?_
  cases hrest : t.rest with
  | nil => exact .pure _
  | cons c after =>
    refine .bind (forward_item hn.forward) (keeps_item hn hlayout (.inl rfl)) fun _ u _ => ?_
    exact .map (hn.toEnd u)

/-- The sequence in a group ends behind the brace that closes the group. -/
theorem keeps_sequence_group (hn : nested.Keeps I) :
    Keeps I (count + 1) s (sequence nested (some .brace)) count := by
  refine .layout fun t _ hlayout => .rest ?_
  cases hrest : t.rest with
  | nil => exact .unclosed hrest
  | cons c after =>
    refine .ite (fun hc => ?_) fun hc => ?_
    · rw [hc] at hrest
      exact .takeOne hrest I.closing (.pure _)
    · have hclosing : t.rest.head? ≠ some '}' := by
        rw [hrest]
        exact fun h => hc (Option.some.inj h)
      refine .bind (forward_item hn.forward) (keeps_item hn hlayout (.inr hclosing)) fun _ u _ => ?_
      exact .map (hn.group count u)

/-- A region ends inside the group in which it began. -/
theorem keeps_region (hn : nested.Keeps I) : Keeps I count s (region nested) count := by
  refine .layout fun t _ hlayout => .rest ?_
  have hmissing : Keeps I count t region.missing count := .offset (.noted _ (.pure _))
  cases hrest : t.rest with
  | nil => exact hmissing
  | cons c after =>
    refine .ite (fun _ => hmissing) fun hc => ?_
    have hnext : Keeps I count t (region.next nested) count := by
      have hclosing : t.rest.head? ≠ some '}' := by
        rw [hrest]
        exact fun h => hc (Option.some.inj h)
      refine .bind (forward_item hn.forward) (keeps_item hn hlayout (.inr hclosing)) fun _ u _ => ?_
      exact .map (hn.region _ _)
    refine .ite (fun hbackslash => ?_) fun _ => hnext
    subst hbackslash
    dsimp only
    split
    · exact hmissing
    split
    · next hname =>
      refine .takeCommand hrest (by rw [hname]; rfl) ?_
      exact .map (keeps_delimiterAfter _)
    split
    · next hname =>
      refine .takeCommand hrest (by rw [hname]; rfl) ?_
      refine .bind (forward_delimiterAfter _) (keeps_delimiterAfter _) fun _ u _ => ?_
      exact .map (hn.region _ _)
    · exact hnext

/-- So do the rows of an array, if no height follows the end of a row. -/
theorem keeps_rows (hn : nested.Keeps I) (row : Row) (cell : Cell) (hheight : '[' ∉ s.rest) :
    Keeps I count s (rows nested row cell) count := by
  refine .layout fun t ht hlayout => .rest ?_
  have hlater {u : Scan} (h : t.Leads u) : '[' ∉ u.rest := fun hmem =>
    hheight ((List.drop_suffix _ _).mem (ht ▸ h.rest_suffix.mem hmem))
  have hmissing : Keeps I count t (rows.missing row cell) count := .offset (.noted _ (.pure _))
  cases hrest : t.rest with
  | nil => exact hmissing
  | cons c after =>
    refine .ite (fun _ => hmissing) fun hc => ?_
    refine .ite (fun hcell => ?_) fun _ => ?_
    · subst hcell
      refine .takeOne hrest (I.char (by decide) (by decide)) ?_
      exact hn.rows _ _ _ _ (hlater (.advance _ _))
    have hnext : Keeps I count t (rows.next nested row cell) count := by
      have hclosing : t.rest.head? ≠ some '}' := by
        rw [hrest]
        exact fun h => hc (Option.some.inj h)
      refine .bind (forward_item hn.forward) (keeps_item hn hlayout (.inr hclosing)) ?_
      exact fun _ u hitem => hn.rows _ _ _ _ (hlater ((forward_item hn.forward).leads hitem))
    refine .ite (fun hbackslash => ?_) fun _ => hnext
    subst hbackslash
    dsimp only
    split
    · next hname =>
      refine .takeCommand hrest (by rw [hname]; rfl) (.rest ?_)
      split
      · next hbracket => exact absurd (List.mem_of_mem_head? hbracket) (hlater (.advance _ _))
      · exact .map (hn.rows _ _ _ _ (hlater (.advance _ _)))
    split
    · next hname =>
      refine .given fun hs => ?_
      rw [hrest] at hs
      refine .takeCommand hrest (by rw [hname]; rfl) (.map (.of_leaves ?_))
      have hleaves := I.name hs (.inr hname)
      have hdrop := Scan.rest_advance_cons hrest 3
      rw [hname] at hleaves
      exact hdrop ▸ hleaves
    · exact hnext

/-- An environment behind its `\begin` keeps the invariant with its name, its columns and its
body. -/
theorem keeps_environment (hn : nested.Keeps I) {after : List Char}
    (hs : I.Holds count ('\\' :: after)) (hname : commandName after = "begin".toList)
    (hrest : s.rest = after.drop 5) : Keeps I count s (environment nested) count := by
  have hheight := I.height hs hname
  have hlater {u : Scan} (h : s.Leads u) : '[' ∉ u.rest := fun hmem =>
    hheight ((List.drop_suffix 5 after).mem (hrest ▸ h.rest_suffix.mem hmem))
  have hleaves := I.name hs (.inl hname)
  rw [hname] at hleaves
  refine .bind forward_environmentName (.of_leaves (hrest ▸ hleaves)) fun found t hfound => ?_
  have ht : s.Leads t := forward_environmentName.leads hfound
  cases found with
  | none => exact .offset (.noted _ (.pure _))
  | some name =>
    obtain ⟨hunsupported, hcolumns⟩ := I.environment hs hname hrest hfound
    dsimp only
    split
    · next hunknown => exact .noted _ (.map (.of_leaves (hunsupported hunknown)))
    · next known hknown =>
      have hrows {f : List Row → Reading (Option Expr)} {u : Scan} (hu : s.Leads u)
          (hf : ∀ rows v, Keeps I count v (f rows) count) :
          Keeps I count u (nested.rows [] [] >>= f) count :=
        .bind (hn.forward.rows _ _) (hn.rows _ _ _ _ (hlater hu)) fun rows v _ => hf rows v
      refine .ite (fun hspecification => ?_) fun _ => ?_
      · refine .bind forward_columnSpecification
          (.of_leaves (hcolumns known hknown hspecification)) fun _ u hu => ?_
        refine hrows (ht.trans (forward_columnSpecification.leads hu)) fun _ _ => ?_
        split
        · exact .pure _
        · exact .pure _
      · refine .bind (.pure _) (.pure _) fun _ u hu => ?_
        cases hu
        refine hrows ht fun _ _ => ?_
        split
        · exact .pure _
        · exact .pure _

/-- A delimited region is a delimiter and its content. -/
theorem keeps_delimited (hn : nested.Keeps I) : Keeps I count s (delimited nested) count := by
  refine .bind (forward_delimiterAfter _) (keeps_delimiterAfter _) fun _ t _ => ?_
  exact .map (hn.region _ _)

/-- A command, of which the name has been taken. -/
theorem keeps_command (hn : nested.Keeps I) {after : List Char} {found : Command}
    (hs : I.Holds count ('\\' :: after))
    (hfound : Meaning.ofName? (String.ofList (commandName after)) = some (.command found))
    (hrest : s.rest = after.drop (commandName after).length) (start : Nat) :
    Keeps I count s (command nested start found) count := by
  have hargument (t : Scan) : Keeps I count t (argument nested) count := keeps_argument hn
  have hforward := forward_argument hn.forward
  cases found with
  | symbol | identifier | operatorName | space | limits | ignored | right | middle
  | endEnvironment => exact .pure _
  | sized factor =>
    refine .bind forward_delimiter keeps_delimiter fun found t _ => ?_
    split
    · exact .pure _
    · exact .noted _ (.pure _)
  | decoration | boxed | phantom | cancel => exact .map (hargument s)
  | fraction | overset | underset =>
    exact .bind hforward (hargument s) fun _ t _ => .map (hargument t)
  | sqrt =>
    have hname : commandName after = "sqrt".toList := by
      rw [← name_of_sqrt hfound, String.toList_ofList]
    have hdrop : s.rest = after.drop 4 := by
      rw [hrest, hname]
      rfl
    refine .layout fun t ht _ => .rest ?_
    split
    · next hbracket =>
      rw [hdrop] at ht
      rw [ht] at hbracket
      exact absurd (by rw [hbracket, List.head?_cons]) (I.index hs hname)
    · exact .map (hargument t)
  | left => exact .map (keeps_delimited hn)
  | beginEnvironment =>
    have hname : commandName after = "begin".toList := by
      rw [← name_of_beginEnvironment hfound, String.toList_ofList]
    rw [hname] at hrest
    exact .map (keeps_environment hn hs hname hrest)
  | namedOperator =>
    have htext : takesText (String.ofList (commandName after)) := by
      rw [takesText, hfound]
    exact .map (.of_leaves (hrest ▸ I.text hs htext))

/-- The argument of a style command is a group, a base or plain text. -/
theorem keeps_styled (hn : nested.Keeps I) {after : List Char} {style : StyleCommand}
    (hs : I.Holds count ('\\' :: after))
    (hstyle : Meaning.ofName? (String.ofList (commandName after)) = some (.style style))
    (hrest : s.rest = after.drop (commandName after).length) :
    Keeps I count s (styled nested style) count := by
  cases style with
  | text =>
    have htext : takesText (String.ofList (commandName after)) := by
      rw [takesText, hstyle]
    exact .map (.of_leaves (hrest ▸ I.text hs htext))
  | formula =>
    refine .layout fun t _ _ => .rest ?_
    split
    · next hopening => exact keeps_group hn hopening _
    · exact .map (hn.base _ _)

/-- A command is taken whole, and what follows it is taken by its own rule. -/
theorem keeps_commandBase (hn : nested.Keeps I) {after : List Char}
    (hrest : s.rest = '\\' :: after) :
    Keeps I count s (commandBase nested after) count := by
  refine .given fun hs => ?_
  rw [hrest] at hs
  have htaken := Scan.rest_advance_cons hrest (commandName after).length
  unfold commandBase
  dsimp only
  split
  · exact .pure _
  rename_i meaning hmeaning
  split
  · split
    · exact .pure _
    · refine .offset ?_
      exact .takeCommand hrest rfl (keeps_command hn hs hmeaning htaken _)
  · exact .takeCommand hrest rfl (.pure _)
  · exact .takeCommand hrest rfl (.map (keeps_styled hn hs hmeaning htaken))

/-- The group of a base is closed again. -/
theorem keeps_base (hn : nested.Keeps I) : Keeps I count s (Reading.base nested) count := by
  refine .layout fun t _ hlayout => .rest ?_
  cases hrest : t.rest with
  | nil => exact .pure _
  | cons c after =>
    have hsolid := isSolid_of_layoutLength (hrest ▸ hlayout)
    refine .ite (fun hc => ?_) fun hopening => ?_
    · subst hc
      exact keeps_group hn hrest _
    refine .ite (fun hnumber => ?_) fun _ => ?_
    · refine .take (fun hs => ?_) (.pure _)
      have hnumeral := numeral_take_numberLength hnumber
      rw [hrest, ← List.take_append_drop (numberLength (c :: after)) (c :: after)] at hs
      rw [hrest]
      refine I.chars (fun digit hdigit => ?_) hs
      have hbraces : ∀ c ∈ ['{', '}', '\\'], ¬ (c.isDigit ∨ c = '.') := by decide
      have hmember := hnumeral.isDigit_or_eq_dot hdigit
      exact ⟨isSolid_of_isDigit_or_eq_dot hmember, fun hbrace => hbraces digit hbrace hmember⟩
    refine .ite (fun hc => ?_) fun hbackslash => ?_
    · subst hc
      exact keeps_commandBase hn hrest
    refine .ite (fun _ => .pure _) fun _ => ?_
    refine .ite (fun _ => .map keeps_primes) fun _ => ?_
    refine .ite (fun hc => ?_) fun _ => ?_
    · subst hc
      exact .takeOne hrest (I.char (by decide) (by decide)) (.pure _)
    cases hchar : Expr.ofChar? c with
    | none => exact .pure _
    | some e =>
      have hclosing : c ≠ '}' := by
        rintro rfl
        have hnone : (Expr.ofChar? '}').isNone := by decide
        simp [hchar] at hnone
      exact .takeOne hrest (I.char hsolid (by simp [hopening, hbackslash, hclosing])) (.pure _)

/-- Where there is no base, no group is opened. -/
theorem base_none {t : Scan} (h : Reading.base nested s = .ok none t) :
    s.rest.head? ≠ some '{' := by
  intro hopening
  obtain ⟨inside, hrest⟩ := List.head?_eq_some_iff.mp hopening
  have hlayout : layoutLength s.rest = 0 := by
    rw [hrest]
    exact layoutLength_cons (by decide) (by decide) inside
  have hs : s = s.advance (layoutLength s.rest) := by rw [hlayout, Scan.advance_zero]
  rcases base_eq_none h hs with ⟨hend, -⟩ | ⟨c, after, hahead, -, -, -, hmarks⟩ |
    ⟨after, hahead, -⟩
  · rw [hrest] at hend
    cases hend
  · rw [hrest] at hahead
    cases hahead
    exact hmarks (by decide)
  · rw [hrest] at hahead
    cases hahead

end Reading

namespace Nested

/-- **Every rule keeps an invariant**, at every height. -/
theorem keeps_tower (I : GroupInvariant) (depth : Nat) : (beyond.tower depth).Keeps I := by
  induction depth with
  | zero =>
    exact {
      base := fun count s => .beyond
      limits := fun place count s => .beyond
      toEnd := fun s => .beyond
      group := fun count s => .beyond
      region := fun count s => .beyond
      rows := fun row cell count s _ => .beyond
      missing := nofun
      finished := nofun
      forward := forward_beyond 0 }
  | succ depth ih =>
    exact {
      base := fun count s => Reading.keeps_base ih
      limits := fun place count s => Reading.keeps_limits ih _
      toEnd := fun s => Reading.keeps_sequence_toEnd ih
      group := fun count s => Reading.keeps_sequence_group ih
      region := fun count s => Reading.keeps_region ih
      rows := fun row cell count s hheight => Reading.keeps_rows ih _ _ hheight
      missing := Reading.base_none
      finished := Reading.sequence_finished ih.finished
      forward := forward_beyond (depth + 1) }

end Nested

/-- **An invariant of open groups decides a formula.**  If it holds at the start, then a formula
that can be read leaves no group open at its end, and one that cannot be read misses the brace of
a group there. -/
theorem GroupInvariant.parse_cases (I : GroupInvariant) {text : String}
    (h : I.Holds 0 text.toList) :
    (∀ formula, parse text = .ok formula → I.Holds 0 []) ∧
      ∀ e, parse text = .error e → e = ⟨text.utf8ByteSize, .brace⟩ ∧ I.LeftOpen := by
  let depth := 2 * text.toList.length + 2
  have hread : Reading.alone (·.sequence none) (Scan.start text)
      = (Nested.beyond.tower depth).sequence none (Scan.start text) :=
    sequence_eq_tower Nested.beyond none (Nat.le_refl _)
  have hkeeps := Nested.keeps_tower I depth
  obtain ⟨hok, herror⟩ := hkeeps.toEnd (Scan.start text) h
  rw [parse, read, hread]
  cases hrun : (Nested.beyond.tower depth).sequence none (Scan.start text) with
  | ok members t =>
    refine ⟨fun formula _ => ?_, by simp⟩
    have hholds := hok members t hrun
    rwa [hkeeps.finished hrun] at hholds
  | error e t =>
    refine ⟨by simp, fun e' heq => ?_⟩
    cases heq
    have hopen : (Nested.forRest text.toList).LeavesOpen (·.OpenedIn text.toList) :=
      Nested.leavesOpen_ofDepth _ _
    have hoffset : e.offset = text.utf8ByteSize := by
      obtain ⟨hend, -⟩ := hopen.sequence none _ (by simp) (fun _ hopened => hopened) e t
        (hread.trans hrun)
      rw [hend, Scan.size_start]
    obtain ⟨hcloser, hleft⟩ := herror e t hrun
      (Nat.le_of_eq (hoffset.trans (Scan.size_start text).symm))
    refine ⟨?_, hleft⟩
    rw [← hoffset, ← hcloser]

end OfficeMath
