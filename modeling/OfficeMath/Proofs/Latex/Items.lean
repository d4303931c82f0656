import OfficeMath.Proofs.Latex.Canonical
import OfficeMath.Proofs.Latex.Takes

/-!
# Items are read back from their spelling

What it means that an expression is read back has two sides.  It is read as an item, together with
the space after it (`Expr.ReadsBack`).  And unless it carries scripts itself, it is read as a base,
up to this space, so that scripts may be put after it (`Expr.ReadsAsBase`).

All that matters about the text around an expression is that no level of the grammar takes what
belongs to another.  What ends an item (`EndsItem`) is nothing that the scripts of the item would
take; what begins one (`BeginsItem`) is moreover nothing that would close the list around it.

From this follow the lists: sequences up to their closing character (`Reading.takes_sequence`),
arguments in braces (`Reading.takes_argument`), and the expressions with scripts.
-/

namespace OfficeMath

open Nested (unbounded)

/-! ## What ends and what begins an item -/

/-- The characters that mean something to an item before them. -/
def scriptMarks : List Char := ['%', '\x27', '_', '^', '\\']

/-- The characters that mean something to a list around them. -/
def closingMarks : List Char := ['}', ']', '&']

/-- The text after an item that has been taken with all its layout and scripts. -/
structure EndsItem (ahead : List Char) : Prop where
  layout : layoutLength ahead = 0
  primes : primeCount ahead = 0
  script : ahead.head? ≠ some '_' ∧ ahead.head? ≠ some '^'
  limits : commandAt? ahead ≠ some "limits" ∧ commandAt? ahead ≠ some "nolimits"

/-- The text from the first character of an item on. -/
structure BeginsItem (ahead : List Char) : Prop extends EndsItem ahead where
  nonempty : ahead ≠ []
  closer : ahead.head? ≠ some '}' ∧ ahead.head? ≠ some ']' ∧ ahead.head? ≠ some '&'
  surroundings : ∀ name ∈ ["right", "middle", "end", "\\"], commandAt? ahead ≠ some name

/-- A name of a command that consists of letters. -/
def IsWord (name : String) : Prop := name ≠ "" ∧ ∀ c ∈ name.toList, c.isAlpha

instance (name : String) : Decidable (IsWord name) := inferInstanceAs (Decidable (_ ∧ _))

/-- The names of the commands that belong to the item or the list around them. -/
def surroundingNames : List String := ["limits", "nolimits", "right", "middle", "end"]

/-- The name of a command with which an item may begin. -/
def BeginsName (name : String) : Prop := IsWord name ∧ name ∉ surroundingNames

instance (name : String) : Decidable (BeginsName name) := inferInstanceAs (Decidable (_ ∧ _))

/-- What follows the name of a command and does not belong to it. -/
def EndsName (rest : List Char) : Prop := ∀ c ∈ rest.head?, c.isAlpha = false ∧ c ≠ '*'

/-- A character that no name goes on with. -/
theorem endsName_cons {c : Char} (h : c.isAlpha = false ∧ c ≠ '*') (rest : List Char) :
    EndsName (c :: rest) := by
  intro d hd
  obtain rfl : c = d := by simpa using hd
  exact h

/-- An argument in braces ends the name before it. -/
theorem endsName_brace (rest : List Char) : EndsName ('{' :: rest) := endsName_cons (by decide) rest

/-- The name of a command is read back. -/
theorem commandName_word {name : String} (h : IsWord name) {rest : List Char}
    (hrest : EndsName rest) : commandName (name.toList ++ rest) = name.toList := by
  have hne : name.toList ≠ [] := fun hnil => h.1 (String.toList_eq_nil_iff.mp hnil)
  exact commandName_append hne h.2 hrest

/-- The command at the start of a text is found by its name. -/
theorem commandAt_control {name : String} (h : IsWord name) {rest : List Char}
    (hrest : EndsName rest) : commandAt? (control name ++ rest) = some name := by
  show some (String.ofList (commandName (name.toList ++ rest))) = some name
  rw [commandName_word h hrest, String.ofList_toList]

/-- A name that is read in front of one text is read in front of any other that does not go on with
it. -/
theorem commandAt_of_commandAt {name : String} {ahead rest : List Char} (hne : ahead ≠ [])
    (h : commandAt? (control name ++ ahead) = some name) (hrest : EndsName rest) :
    commandAt? (control name ++ rest) = some name := by
  obtain ⟨after, hcontrol, hread⟩ := commandAt?_eq_some h
  obtain rfl : name.toList ++ ahead = after := (List.cons.inj hcontrol).2
  have hname : commandName (name.toList ++ rest) = name.toList := by
    rcases commandName_cases (List.append_ne_nil_of_right_ne_nil name.toList hne) with
      ⟨c, hc, hone⟩ | ⟨hword, hletters⟩ | ⟨letters, hword, hletters, hcommand, hstar⟩
    · rw [← hread, hone]
      exact commandName_cons hc rest
    · rw [hread] at hword hletters
      exact commandName_append hword hletters hrest
    · rw [← hread, hstar, ← List.append_cons, commandName_star hword hletters, if_pos hcommand]
  show some (String.ofList (commandName (name.toList ++ rest))) = some name
  rw [hname, String.ofList_toList]

/-- The end of the text ends an item. -/
theorem endsItem_nil : EndsItem [] := ⟨rfl, rfl, by simp, by simp [commandAt?]⟩

/-- A character ends an item unless it means something to the item. -/
theorem endsItem_cons {c : Char} (hblank : isBlank c = false)
    (hc : c ∉ scriptMarks) (rest : List Char) : EndsItem (c :: rest) := by
  simp only [scriptMarks, List.mem_cons, List.not_mem_nil, or_false, not_or] at hc
  obtain ⟨hpercent, hprime, hlower, hupper, hbackslash⟩ := hc
  have hcommand : commandAt? (c :: rest) = none := by
    unfold commandAt?
    split
    · next heq => exact absurd (List.cons.inj heq).1 hbackslash
    · rfl
  refine ⟨layoutLength_cons hblank hpercent rest, ?_, ?_, ?_⟩
  · simp [primeCount, hprime]
  · simp [hlower, hupper]
  · simp [hcommand]

/-- A command ends an item unless it moves the scripts of the item. -/
theorem endsItem_control {name : String} (h : IsWord name)
    (hname : name ≠ "limits" ∧ name ≠ "nolimits") {rest : List Char} (hrest : EndsName rest) :
    EndsItem (control name ++ rest) := by
  refine ⟨layoutLength_cons (by decide) (by decide) _, by simp [primeCount, control],
    by simp [control], ?_⟩
  rw [commandAt_control h hrest]
  simpa using hname

/-- A double backslash ends an item. -/
theorem endsItem_backslashes (rest : List Char) : EndsItem ('\\' :: '\\' :: rest) := by
  have hcommand : commandAt? ('\\' :: '\\' :: rest) = some "\\" := by
    show some (String.ofList (commandName ('\\' :: rest))) = some "\\"
    rw [commandName_cons (by decide)]
  refine ⟨layoutLength_cons (by decide) (by decide) _, by simp [primeCount], by simp, ?_⟩
  rw [hcommand]
  decide

/-- A character begins an item if it means nothing to an item or a list before it. -/
theorem beginsItem_cons {c : Char} (hblank : isBlank c = false)
    (hc : c ∉ scriptMarks ++ closingMarks) (rest : List Char) :
    BeginsItem (c :: rest) := by
  simp only [scriptMarks, closingMarks, List.cons_append, List.nil_append, List.mem_cons,
    List.not_mem_nil, or_false, not_or] at hc
  obtain ⟨hpercent, hprime, hlower, hupper, hbackslash, hbrace, hbracket, hand⟩ := hc
  have hends : c ∉ scriptMarks := by
    simp [scriptMarks, hpercent, hprime, hlower, hupper, hbackslash]
  have hcommand : commandAt? (c :: rest) = none := by
    unfold commandAt?
    split
    · next heq => exact absurd (List.cons.inj heq).1 hbackslash
    · rfl
  refine ⟨endsItem_cons hblank hends rest, by simp, ?_, ?_⟩
  · simp [hbrace, hbracket, hand]
  · simp [hcommand]

/-- A command begins an item unless it belongs to what is around the item. -/
theorem beginsItem_control {name : String} (h : BeginsName name) {rest : List Char}
    (hrest : EndsName rest) : BeginsItem (control name ++ rest) := by
  obtain ⟨hword, hname⟩ := h
  simp only [surroundingNames, List.mem_cons, List.not_mem_nil, or_false, not_or] at hname
  obtain ⟨hlimits, hnolimits, hright, hmiddle, hend⟩ := hname
  have hbackslash : name ≠ "\\" := by
    intro heq
    subst heq
    exact absurd hword (by decide)
  refine ⟨endsItem_control hword ⟨hlimits, hnolimits⟩ hrest, by simp [control], by simp [control], ?_⟩
  rw [commandAt_control hword hrest]
  simp [hright, hmiddle, hend, hbackslash]

/-- The name after a backslash that begins an item. -/
theorem BeginsItem.name_ne {after : List Char} (h : BeginsItem ('\\' :: after)) {name : String}
    (hname : name ∈ ["right", "middle", "end", "\\"]) : commandName after ≠ name.toList := by
  intro heq
  have hcommand : commandAt? ('\\' :: after) = some name := by
    rw [commandAt?, heq, String.ofList_toList]
  exact h.surroundings name hname hcommand

/-- A command with what follows it, from its backslash on. -/
theorem control_append (name : String) (text rest : List Char) :
    control name ++ text ++ rest = '\\' :: (name.toList ++ (text ++ rest)) := by
  simp [control]

/-! ## Scripts -/

namespace Reading

variable {tail : List Char}

/-- Without a command that moves them, scripts go where the base asks for them. -/
theorem takes_limits (place : Limits) (hlayout : layoutLength tail = 0)
    (hlimits : commandAt? tail ≠ some "limits" ∧ commandAt? tail ≠ some "nolimits") :
    (limits unbounded place).Takes [] place tail ∧
      (limits unbounded place).Takes [' '] place tail := by
  refine Takes.blank hlayout (.rest ?_)
  split
  · next h => exact absurd h hlimits.1
  · next h => exact absurd h hlimits.2
  · exact .pure _ _

/-- The rounds for scripts stop where an item ends. -/
theorem takes_scriptsFrom_end (bound : Nat) (found : Scripts) (h : EndsItem tail) :
    (scriptsFrom unbounded (bound + 1) found).Takes [] found tail ∧
      (scriptsFrom unbounded (bound + 1) found).Takes [' '] found tail := by
  refine Takes.blank h.layout (.rest ?_)
  split
  · next hlower => exact absurd hlower h.script.1
  · next hupper => exact absurd hupper h.script.2
  · exact .pure _ _

/-- A round takes a subscript. -/
theorem takes_scriptsFrom_lower {bound : Nat} {lower : Expr} {upper : Option Expr}
    {onlyPrimes : Bool} {final : Scripts} {front back : List Char}
    (hlower : (argument unbounded).Takes front lower (back ++ tail))
    (hback : (scriptsFrom unbounded bound ⟨some lower, upper, onlyPrimes⟩).Takes back final tail) :
    (scriptsFrom unbounded (bound + 1) ⟨none, upper, onlyPrimes⟩).Takes
      ('_' :: (front ++ back)) final tail :=
  .layout (layoutLength_cons (by decide) (by decide) _) (.rest (.cons (.bind hlower hback)))

/-- A round takes a superscript in braces. -/
theorem takes_scriptsFrom_upper {bound : Nat} {lower : Option Expr} {upper : Expr}
    {onlyPrimes : Bool} {final : Scripts} {front back : List Char}
    (hupper : (argument unbounded).Takes ('{' :: front) upper (back ++ tail))
    (hback : (scriptsFrom unbounded bound ⟨lower, some upper, false⟩).Takes back final tail) :
    (scriptsFrom unbounded (bound + 1) ⟨lower, none, onlyPrimes⟩).Takes
      ('^' :: ('{' :: front ++ back)) final tail := by
  have hscript : (superscript unbounded).Takes ('{' :: front) upper (back ++ tail) :=
    .layout (layoutLength_cons (by decide) (by decide) _)
      (.noPrimes (by simp [primeCount]) hupper)
  exact .layout (layoutLength_cons (by decide) (by decide) _) (.rest (.cons (.bind hscript hback)))

/-- The scripts of a base: where they go, and what they are. -/
theorem takes_scripts {b : Base} {place : Limits} {found : Scripts} {lead : List Char}
    (text : List Char) (hlimits : (limits unbounded b.limits).Takes lead place (text ++ tail))
    (hprimes : primeCount (text ++ tail) = 0)
    (hfound : (scriptsFrom unbounded 3 ⟨none, none, false⟩).Takes text found tail) :
    (scripts unbounded b).Takes (lead ++ text)
      (b.expr.withScripts place found.lower found.upper) tail :=
  .bind hlimits (.noPrimes hprimes (.map hfound))

end Reading

/-! ## Items, sequences and arguments -/

/-- An expression is read back as an item from its spelling and the space after it. -/
structure Expr.ReadsBack (e : Expr) : Prop where
  begins : ∀ rest, BeginsItem (e.source ++ rest)
  item : ∀ tail, EndsItem tail → (Reading.item unbounded).Takes (e.source ++ [' ']) (some e) tail

/-- An expression is read back as a base with scripts to the side from its spelling. -/
structure Expr.ReadsAsBase (e : Expr) : Prop where
  begins : ∀ rest, BeginsItem (e.source ++ rest)
  base : ∀ tail, unbounded.base.Takes e.source (some (.side e)) (' ' :: tail)

namespace Reading

variable {tail : List Char}

/-- An item whose base and scripts are read one after the other. -/
theorem takes_item {e whole : Expr} {scriptText : List Char} (h : e.ReadsAsBase)
    (hscripts : (scripts unbounded (.side e)).Takes (' ' :: scriptText) whole tail) :
    (item unbounded).Takes (e.source ++ ' ' :: scriptText) (some whole) tail := by
  refine .layout ?_ (.offset fun start => ?_)
  · rw [List.append_assoc]
    exact (h.begins _).layout
  · exact .bind (h.base _) (.map hscripts)

/-- What is read as a base is read as an item where no scripts follow. -/
theorem readsBack_of_base {e : Expr} (h : e.ReadsAsBase) : e.ReadsBack := by
  refine ⟨h.begins, fun tail htail => takes_item h ?_⟩
  have hlimits := (takes_limits .side htail.layout htail.limits).2
  have hfound := (takes_scriptsFrom_end 2 ⟨none, none, false⟩ htail).1
  have hscripts : (scripts unbounded (.side e)).Takes ([' '] ++ [])
      ((Base.side e).expr.withScripts .side none none) tail :=
    takes_scripts [] hlimits htail.primes hfound
  exact hscripts

/-- Before the closing character of a list an item ends. -/
theorem endsItem_closer (closer : Option Closer) (hend : closer = none → tail = []) :
    EndsItem ((closer.map Closer.char).toList ++ tail) := by
  cases closer with
  | none =>
    rw [hend rfl]
    exact endsItem_nil
  | some closer => cases closer <;> exact endsItem_cons (by decide) (by decide) _

/-- A list of expressions ends an item before it if what follows the list does. -/
theorem endsItem_sourceOf {members : List Expr} {rest : List Char}
    (h : ∀ e ∈ members, e.ReadsBack) (hrest : EndsItem rest) :
    EndsItem (sourceOf members ++ rest) := by
  cases members with
  | nil => exact hrest
  | cons e members => simpa [sourceOf] using ((h e List.mem_cons_self).begins _).toEndsItem

/-- A list of expressions is read back up to the closing character, or up to the end. -/
theorem takes_sequence (closer : Option Closer) (hend : closer = none → tail = [])
    {members : List Expr} (h : ∀ e ∈ members, e.ReadsBack) :
    (unbounded.sequence closer).Takes (sourceOf members ++ (closer.map Closer.char).toList)
      members tail := by
  induction members with
  | nil =>
    rw [Nested.sequence_unbounded]
    refine .layout (endsItem_closer closer hend).layout (.rest ?_)
    cases closer with
    | none =>
      rw [hend rfl]
      exact .pure _ _
    | some closer => exact .ite_pos rfl (.cons (.pure _ _))
  | cons e rest ih =>
    rw [List.forall_mem_cons] at h
    have hnext : (sequence.next unbounded closer).Takes
        ((e.source ++ [' ']) ++ (sourceOf rest ++ (closer.map Closer.char).toList))
        (e :: rest) tail := by
      refine .bind (h.1.item _ ?_) (.map (ih h.2))
      rw [List.append_assoc]
      exact endsItem_sourceOf h.2 (endsItem_closer closer hend)
    have htext : sourceOf (e :: rest) ++ (closer.map Closer.char).toList
        = (e.source ++ [' ']) ++ (sourceOf rest ++ (closer.map Closer.char).toList) := by
      simp [sourceOf]
    have hbegins : BeginsItem ((e.source ++ [' ']) ++
        (sourceOf rest ++ (closer.map Closer.char).toList) ++ tail) := by
      simpa using h.1.begins _
    obtain ⟨c, after, hahead⟩ := List.exists_cons_of_ne_nil hbegins.nonempty
    have hcloser := hbegins.closer
    rw [Nested.sequence_unbounded, htext]
    refine .layout hbegins.layout (.rest ?_)
    rw [hahead] at hcloser ⊢
    cases closer with
    | none => exact hnext
    | some closer =>
      refine .ite_neg ?_ hnext
      intro hc
      subst hc
      cases closer <;> simp [Closer.char] at hcloser

/-- A list of expressions in braces is read back. -/
theorem takes_sequence_brace {members : List Expr} (h : ∀ e ∈ members, e.ReadsBack) :
    (unbounded.sequence (some .brace)).Takes (sourceOf members ++ ['}']) members tail :=
  takes_sequence (some .brace) nofun h

/-- A single expression in brackets is read back. -/
theorem takes_sequence_bracket {e : Expr} (h : e.ReadsBack) :
    (unbounded.sequence (some .bracket)).Takes (e.source ++ [' ', ']']) [e] tail := by
  have hone : (unbounded.sequence (some .bracket)).Takes (sourceOf [e] ++ [']']) [e] tail :=
    takes_sequence (some .bracket) nofun (List.forall_mem_singleton.mpr h)
  simpa [sourceOf] using hone

/-- An argument is read back. -/
theorem takes_argument {e : Expr} (h : e.ReadsBack) :
    (argument unbounded).Takes (braced e.source) e tail := by
  have hsequence : (unbounded.sequence (some .brace)).Takes (e.source ++ [' ', '}']) [e] tail := by
    simpa [sourceOf] using takes_sequence_brace (List.forall_mem_singleton.mpr h)
  refine .layout (layoutLength_cons (by decide) (by decide) _) (.rest ?_)
  refine .ite_pos rfl (.cons ?_)
  exact Takes.map hsequence

end Reading

/-! ## Expressions with scripts -/

/-- The text from a script on. -/
private theorem limits_script {c : Char} (hc : c = '_' ∨ c = '^') (rest : List Char) :
    layoutLength (c :: rest) = 0 ∧ primeCount (c :: rest) = 0 ∧
      (commandAt? (c :: rest) ≠ some "limits" ∧ commandAt? (c :: rest) ≠ some "nolimits") := by
  rcases hc with rfl | rfl <;> exact ⟨rfl, rfl, nofun, nofun⟩

namespace Reading

variable {tail : List Char}

/-- A base with scripts to the side. -/
theorem takes_item_side {e : Expr} {c : Char} {text : List Char} {found : Scripts}
    (h : e.ReadsAsBase) (hc : c = '_' ∨ c = '^')
    (hfound : (scriptsFrom unbounded 3 ⟨none, none, false⟩).Takes (c :: text) found tail) :
    (item unbounded).Takes (e.source ++ ' ' :: c :: text)
      (some (e.withScripts .side found.lower found.upper)) tail := by
  obtain ⟨hlayout, hprimes, hcommand⟩ := limits_script hc (text ++ tail)
  have hlimits := (takes_limits .side hlayout hcommand).2
  have hscripts : (scripts unbounded (.side e)).Takes ([' '] ++ c :: text)
      ((Base.side e).expr.withScripts .side found.lower found.upper) tail :=
    takes_scripts (c :: text) hlimits hprimes hfound
  exact takes_item h hscripts

/-- The command that sets scripts below and above in any display. -/
theorem takes_limits_fixed (place : Limits) (rest : List Char) :
    (limits unbounded place).Takes (' ' :: control "limits") .fixed ('_' :: rest) := by
  have hname : EndsName ('_' :: rest) := endsName_cons (by decide) rest
  refine .space (layoutLength_cons (by decide) (by decide) _) (.rest ?_)
  rw [commandAt_control (by decide) hname]
  obtain ⟨hlayout, -, hcommand⟩ := limits_script (.inl rfl) rest
  have hstay : (unbounded.limits .fixed).Takes [] .fixed ('_' :: rest) := by
    rw [Nested.limits_unbounded]
    exact (takes_limits .fixed hlayout hcommand).1
  exact .advanceLast rfl hstay

end Reading

section Scripted

variable {base lower upper : Expr}

open Reading in
/-- A base with a subscript is read back from the two. -/
theorem readsBack_sub (hbase : base.ReadsAsBase) (hlower : lower.ReadsBack) :
    (Expr.sub base lower).ReadsBack := by
  refine ⟨fun rest => ?_, fun tail htail => ?_⟩
  · simpa [Expr.source] using hbase.begins _
  · have hend := (takes_scriptsFrom_end 1 ⟨some lower, none, false⟩ htail).2
    have hitem := takes_item_side hbase (.inl rfl)
      (takes_scriptsFrom_lower (takes_argument hlower) hend)
    simpa [Expr.source, Expr.withScripts] using hitem

open Reading in
/-- So is one with a superscript. -/
theorem readsBack_super (hbase : base.ReadsAsBase) (hupper : upper.ReadsBack) :
    (Expr.super base upper).ReadsBack := by
  refine ⟨fun rest => ?_, fun tail htail => ?_⟩
  · simpa [Expr.source] using hbase.begins _
  · have hend := (takes_scriptsFrom_end 1 ⟨none, some upper, false⟩ htail).2
    have hitem := takes_item_side hbase (.inr rfl)
      (takes_scriptsFrom_upper (takes_argument hupper) hend)
    simpa [Expr.source, braced, Expr.withScripts] using hitem

open Reading in
/-- Both scripts after each other, wherever they go. -/
theorem takes_bothScripts {tail : List Char} (hlower : lower.ReadsBack) (hupper : upper.ReadsBack)
    (htail : EndsItem tail) :
    (scriptsFrom unbounded 3 ⟨none, none, false⟩).Takes
      ('_' :: (braced lower.source ++ '^' :: (braced upper.source ++ [' '])))
      ⟨some lower, some upper, false⟩ tail := by
  have hend := (takes_scriptsFrom_end 0 ⟨some lower, some upper, false⟩ htail).2
  exact takes_scriptsFrom_lower (takes_argument hlower)
    (takes_scriptsFrom_upper (takes_argument hupper) hend)

open Reading in
/-- With both, the subscript is written first and read first. -/
theorem readsBack_subSup (hbase : base.ReadsAsBase) (hlower : lower.ReadsBack)
    (hupper : upper.ReadsBack) : (Expr.subSup base lower upper).ReadsBack := by
  refine ⟨fun rest => ?_, fun tail htail => ?_⟩
  · simpa [Expr.source] using hbase.begins _
  · have hitem := takes_item_side hbase (.inl rfl) (takes_bothScripts hlower hupper htail)
    simpa [Expr.source, Expr.withScripts] using hitem

open Reading in
/-- With `\limits` before them, the scripts go below and above the base. -/
theorem readsBack_underOver (hbase : base.ReadsAsBase) (hlower : lower.ReadsBack)
    (hupper : upper.ReadsBack) : (Expr.underOver false base lower upper).ReadsBack := by
  refine ⟨fun rest => ?_, fun tail htail => ?_⟩
  · simpa [Expr.source] using hbase.begins _
  · have hfound := takes_bothScripts hlower hupper htail
    have hlimits := takes_limits_fixed .side
      (braced lower.source ++ '^' :: (braced upper.source ++ [' ']) ++ tail)
    have hscripts : (scripts unbounded (.side base)).Takes
        (' ' :: control "limits" ++ '_' :: (braced lower.source ++ '^' ::
          (braced upper.source ++ [' '])))
        ((Base.side base).expr.withScripts .fixed (some lower) (some upper)) tail :=
      takes_scripts _ hlimits (limits_script (.inl rfl) _).2.1 hfound
    have hitem := takes_item hbase hscripts
    simpa [Expr.source, Expr.withScripts, Base.side] using hitem

end Scripted

end OfficeMath
