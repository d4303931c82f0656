import OfficeMath.Proofs.Latex.CommandNames
import OfficeMath.Proofs.Latex.Constructions
import OfficeMath.Proofs.Latex.ScriptOrder

/-!
# The scripts of a decorated base

A decoration is a mark above or below its argument, an accent, a brace, a line or an arrow.  What
becomes of the scripts after it is decided by the class of the mark, while the command is read, and
acted on only later, where the scripts are attached.  The marks that stretch over their base take
the scripts as labels above and below, and the accents leave them to the side.

The classes do not tell braces from lines and arrows, so lines and arrows take labels like braces
do (`limits_of_decoration`), and the exponent of `\overline{z}^{2}` stands above the line.

* `parse_decoration` — a formula that consists of a decoration, its argument and its scripts, for
  every argument and all scripts;
* `decoration_scripts` — the same by the names of the commands.
-/

namespace OfficeMath

open Nested (unbounded)

/-! ## The commands and their marks -/

/-- The braces, parentheses and brackets that stretch over their base. -/
def braceNames : List String :=
  ["overbrace", "underbrace", "overparen", "underparen", "overbracket", "underbracket"]

/-- The lines and the arrows. -/
def lineNames : List String :=
  ["overline", "underline", "overrightarrow", "overleftarrow", "overleftrightarrow",
    "underrightarrow", "underleftarrow"]

/-- A base with a mark above or below it. -/
def Expr.decorated (kind : SymbolClass) (mark : String) (side : Side) (base : Expr) : Expr :=
  match side with
  | .above => .over false base (.symbol kind mark)
  | .below => .under false base (.symbol kind mark)

/-- Where the scripts of a base with a mark of this class go. -/
def SymbolClass.markLimits (kind : SymbolClass) : Limits :=
  if kind = .overMark || kind = .underMark then .fixed else .side

/-- The class of the mark that a command sets. -/
def Command.markClass? : Command → Option SymbolClass
  | .decoration kind _ _ => some kind
  | _ => none

/-- Braces, lines and arrows take their scripts as labels, and no other decorations do. -/
theorem limits_of_decoration {name mark : String} {kind : SymbolClass} {side : Side}
    (h : command? name = some (.decoration kind mark side)) :
    IsWord name ∧
      kind.markLimits = if name ∈ braceNames ++ lineNames then .fixed else .side := by
  have table : ∀ entry ∈ commands, ∀ kind ∈ entry.2.markClass?, IsWord entry.1 ∧
      kind.markLimits = if entry.1 ∈ braceNames ++ lineNames then .fixed else .side := by
    decide +kernel
  exact table _ (mem_commands h) kind rfl

namespace Reading

variable {name : String} {ahead after middle left : List Char} {e : Expr}

/-! ## Commands, scripts and items -/

/-- A command and what it reads after its name. -/
theorem yields_command {found : Command} {b : Option Base}
    (hname : commandAt? (control name ++ after) = some name)
    (hfound : command? name = some found) (hpart : isPartOfSurroundings found = false)
    (h : ∀ start, (command unbounded start found).Yields after b left) :
    unbounded.base.Yields (control name ++ after) b left := by
  intro s hs
  obtain ⟨hrun, hrest⟩ := run_base_command hs hname hfound hpart
  rw [hrun]
  exact h s.offset _ hrest

/-- An item whose base and scripts are read one after the other. -/
theorem yields_item {b : Base} (hlayout : afterLayout ahead = ahead)
    (hbase : unbounded.base.Yields ahead (some b) middle)
    (hscripts : (scripts unbounded b).Yields middle e left) :
    (item unbounded).Yields ahead (some e) left := by
  refine .layout hlayout (.offset fun _ => ?_)
  exact .bind hbase (.bind hscripts (.pure _ _))

/-- The rounds for scripts stop at the end of the text. -/
theorem yields_scriptsFrom_end (bound : Nat) (found : Scripts) :
    (scriptsFrom unbounded (bound + 1) found).Yields [] found [] :=
  .layout rfl (.rest (.pure _ _))

/-- Scripts that begin with a mark: no command moves them, and there are no primes. -/
theorem yields_scripts_of_mark {base : Base} {mark : Char} {found : Scripts}
    (hmark : afterLayout ahead = mark :: after) (hplain : mark ∉ ['\x27', '\\'])
    (h : (scriptsFrom unbounded 3 ⟨none, none, false⟩).Yields (mark :: after) found left) :
    (scripts unbounded base).Yields ahead
      (base.expr.withScripts base.limits found.lower found.upper) left := by
  have hhead : mark ≠ '\x27' ∧ mark ≠ '\\' := by simpa using hplain
  have hlimits : (limits unbounded base.limits).Yields ahead base.limits (mark :: after) := by
    refine .layout hmark (.rest ?_)
    rw [commandAt?_cons_of_ne hhead.2]
    exact .pure _ _
  have hprimes : primeCount (mark :: after) = 0 := by simp [primeCount, hhead.1]
  exact .bind hlimits (.primes hprimes rfl (.bind h (.pure _ _)))

/-- A superscript at the end of the formula. -/
theorem yields_scripts_upper {base : Base} {script text : List Char} (hscript : IsArgument script e)
    (htext : Spaced [['^'], script] text) :
    (scripts unbounded base).Yields text (base.expr.withScripts base.limits none (some e)) [] := by
  obtain ⟨after, finish, hfinish, hmark, hargument⟩ :=
    ahead_of_mark (by decide) (by decide) hscript htext []
  cases hfinish
  rw [List.append_nil] at hmark
  exact yields_scripts_of_mark hmark (by decide)
    (yields_upper (.inl rfl) (afterLayout_cons (by decide) (by decide) _) hscript hargument
      (yields_scriptsFrom_end 1 _))

/-- A subscript at the end of the formula. -/
theorem yields_scripts_lower {base : Base} {script text : List Char} (hscript : IsArgument script e)
    (htext : Spaced [['_'], script] text) :
    (scripts unbounded base).Yields text (base.expr.withScripts base.limits (some e) none) [] := by
  obtain ⟨after, finish, hfinish, hmark, hargument⟩ :=
    ahead_of_mark (by decide) (by decide) hscript htext []
  cases hfinish
  rw [List.append_nil] at hmark
  exact yields_scripts_of_mark hmark (by decide)
    (yields_lower rfl (afterLayout_cons (by decide) (by decide) _) hscript hargument
      (yields_scriptsFrom_end 1 _))

/-- An item that is all of a formula. -/
theorem parse_of_item {text : String} {c : Char} (hahead : afterLayout text.toList = c :: after)
    (hitem : (item unbounded).Yields (c :: after) (some e) [])
    (hsettled : e.symbolClass? ≠ some .binary) : parse text = .ok [e] := by
  have hend : (unbounded.sequence none).Yields [] [] [] := by
    rw [Nested.sequence_unbounded]
    exact .layout rfl (.rest (.pure _ _))
  have hsequence : (unbounded.sequence none).Yields text.toList [e] [] := by
    rw [Nested.sequence_unbounded]
    refine .layout hahead (.rest ?_)
    exact .bind hitem (.bind hend (.pure _ _))
  obtain ⟨t, hrun, -⟩ := hsequence (Scan.start text) rfl
  rw [parse, read_of_sequence hrun]
  simp [settleOperators, settleFrom, Expr.settle, hsettled]

end Reading

/-! ## A decoration and its scripts -/

/-- What a formula is that consists of a command, the text of its argument and scripts. -/
structure AttachesScripts (name : String) (argument : List Char) (super sub : Expr → Expr)
    (subSup : Expr → Expr → Expr) : Prop where
  upper : ∀ {script : List Char} {above : Expr} {text : String}, IsArgument script above →
    Spaced [control name, argument, ['^'], script] text.toList → parse text = .ok [super above]
  lower : ∀ {script : List Char} {below : Expr} {text : String}, IsArgument script below →
    Spaced [control name, argument, ['_'], script] text.toList → parse text = .ok [sub below]
  both : ∀ {lower upper : List Char} {below above : Expr} {pieces : List (List Char)}
    {text : String}, IsArgument lower below → IsArgument upper above →
    Reading.IsPair lower upper pieces → Spaced (control name :: argument :: pieces) text.toList →
    parse text = .ok [subSup below above]

section Decoration

open Reading

variable {name mark : String} {kind : SymbolClass} {side : Side} {argument : List Char}
  {base : Expr}

/-- A decorated base with scripts is no bare symbol. -/
theorem symbolClass?_decorated (place : Limits) (lower upper : Option Expr) :
    ((base.decorated kind mark side).withScripts place lower upper).symbolClass? = none := by
  cases side <;> cases lower <;> cases upper <;> cases place <;> rfl

/-- A decoration, its argument and scripts make a formula. -/
theorem parse_of_scripts (h : command? name = some (.decoration kind mark side))
    (hargument : IsArgument argument base) {pieces : List (List Char)} {text : String}
    {lower upper : Option Expr}
    (htext : Spaced (control name :: argument :: pieces) text.toList)
    (hscripts : ∀ {more}, Spaced pieces more →
      (scripts unbounded ⟨base.decorated kind mark side, kind.markLimits⟩).Yields more
        ((base.decorated kind mark side).withScripts kind.markLimits lower upper) []) :
    parse text = .ok [(base.decorated kind mark side).withScripts kind.markLimits lower upper] := by
  have hword : IsWord name := (limits_of_decoration h).1
  obtain ⟨behind, hbehind, hahead⟩ := htext.ahead []
  cases hbehind with
  | @cons gap _ more _ hgap hmore =>
    let rest := gap ++ (argument ++ more)
    have hrest : afterLayout rest = argument ++ more := by
      rw [afterLayout_append hgap, hargument.afterLayout_eq]
    have hends : EndsName rest := hgap.endsName (hargument.endsName_append more)
    have hbase : unbounded.base.Yields (control name ++ rest)
        (some ⟨base.decorated kind mark side, kind.markLimits⟩) more :=
      yields_command (commandAt_control hword hends) h rfl fun _ =>
        .bind (yields_argument hargument hrest) (.pure _ _)
    have hlayout : afterLayout (control name ++ rest) = control name ++ rest :=
      afterLayout_cons (by decide) (by decide) _
    simp only [List.append_nil] at hahead
    refine parse_of_item (hahead.trans hlayout) (yields_item hlayout hbase (hscripts hmore)) ?_
    simp [symbolClass?_decorated]

/-- **The class of its mark says where the scripts of a decorated base go.** -/
theorem parse_decoration (h : command? name = some (.decoration kind mark side))
    (hargument : IsArgument argument base) :
    AttachesScripts name argument
      (fun above => (base.decorated kind mark side).withScripts kind.markLimits none (some above))
      (fun below => (base.decorated kind mark side).withScripts kind.markLimits (some below) none)
      (fun below above =>
        (base.decorated kind mark side).withScripts kind.markLimits (some below) (some above)) := by
  constructor
  · intro script above text hscript htext
    exact parse_of_scripts h hargument htext fun hmore => yields_scripts_upper hscript hmore
  · intro script below text hscript htext
    exact parse_of_scripts h hargument htext fun hmore => yields_scripts_lower hscript hmore
  · intro lower upper below above pieces text hlower hupper hpair htext
    refine parse_of_scripts h hargument htext fun {more} hmore => ?_
    let moves : List Move := []
    have hspaced : Spaced (moves.map (control ·.name) ++ List.replicate 0 '\x27' :: pieces) more :=
      .cons .nil hmore
    have hboth := yields_scripts ⟨base.decorated kind mark side, kind.markLimits⟩
      hlower hupper hpair hspaced []
    rw [List.append_nil] at hboth
    exact hboth

/-- **Braces take labels, accents take scripts**, as the table of commands has them.  Lines and
arrows take labels, too. -/
theorem decoration_scripts (h : command? name = some (.decoration kind mark side))
    (hargument : IsArgument argument base) :
    let whole := base.decorated kind mark side
    (name ∉ braceNames → name ∉ lineNames →
      AttachesScripts name argument (.super whole) (.sub whole) (.subSup whole)) ∧
    (name ∈ braceNames ∨ name ∈ lineNames →
      AttachesScripts name argument (.over false whole) (.under false whole)
        (.underOver false whole)) := by
  have hplace := (limits_of_decoration h).2
  have hscripts := parse_decoration h hargument
  simp only [List.mem_append] at hplace
  refine ⟨fun hbrace hline => ?_, fun hlabels => ?_⟩
  · rw [if_neg (by simp [hbrace, hline])] at hplace
    rw [hplace] at hscripts
    exact hscripts
  · rw [if_pos hlabels] at hplace
    rw [hplace] at hscripts
    exact hscripts

end Decoration

section Instances

open Reading

/-- A closed group that can be read at the start of a formula. -/
theorem IsArgument.of_run {text : String} (members : List Expr)
    (hrun : (alone (·.sequence (some .brace))).run' (Scan.start text) = some members)
    (hall : ((alone (·.sequence (some .brace))).finish (Scan.start text)).rest = []) :
    IsArgument ('{' :: text.toList) (.ofList members) := by
  obtain ⟨t, hsequence⟩ := exists_ok_of_run hrun
  rw [finish_ok hsequence] at hall
  exact .group hsequence hall

/-- The exponent of an accent, and both labels of a brace, with layout between the pieces. -/
theorem decoration_scripts_hat_and_underbrace :
    parse "\\hat\x7bz\x7d^2"
        = .ok [.super (.over false (.identifier "z") (.symbol .accent "\u0302")) (.number "2")] ∧
      parse "\\underbrace \x7bz\x7d ^2_ \x7bz\x7d"
        = .ok [.underOver false (.under false (.identifier "z") (.symbol .underMark "⏟"))
            (.identifier "z") (.number "2")] := by
  have hgroup : IsArgument ('{' :: "z\x7d".toList) (.identifier "z") :=
    .of_run [.identifier "z"] (by decide +kernel) (by decide +kernel)
  have hdigit : IsArgument ['2'] (.number "2") := .digit (by decide)
  have hspace : IsLayout [' '] := .blank (by decide) .nil
  have hhat : command? "hat" = some (.decoration .accent "\u0302" .above) := by decide +kernel
  have hbrace : command? "underbrace" = some (.decoration .underMark "⏟" .below) := by
    decide +kernel
  constructor
  · refine ((decoration_scripts hhat hgroup).1 (by decide) (by decide)).upper hdigit ?_
    refine .cons .nil (.cons .nil ?_)
    exact .cons .nil (.cons .nil .nil)
  · refine ((decoration_scripts hbrace hgroup).2 (by decide)).both hgroup hdigit .upperFirst ?_
    refine .cons .nil (.cons hspace ?_)
    refine .cons hspace (.cons .nil ?_)
    exact .cons .nil (.cons hspace .nil)

/-- The exponent of a line is a label like that of a brace, although a line is no brace. -/
theorem overline_takes_label :
    let whole := Expr.decorated .overMark "\u00af" .above (.identifier "z")
    command? "overline" = some (.decoration .overMark "\u00af" .above) ∧
      "overline" ∉ braceNames ∧ IsArgument "\x7bz\x7d".toList (.identifier "z") ∧
      parse "\\overline\x7bz\x7d^\x7b2\x7d" = .ok [.over false whole (.number "2")] ∧
      ¬ AttachesScripts "overline" "\x7bz\x7d".toList (.super whole) (.sub whole)
        (.subSup whole) := by
  intro whole
  have hgroup : IsArgument ('{' :: "z\x7d".toList) (.identifier "z") :=
    .of_run [.identifier "z"] (by decide +kernel) (by decide +kernel)
  have hexponent : IsArgument ('{' :: "2\x7d".toList) (.number "2") :=
    .of_run [.number "2"] (by decide +kernel) (by decide +kernel)
  have hread : parse "\\overline\x7bz\x7d^\x7b2\x7d" = .ok [.over false whole (.number "2")] :=
    eq_ok_of_toOption (by decide +kernel)
  refine ⟨by decide +kernel, by decide, hgroup, hread, fun hscripts => ?_⟩
  have hsuper : parse "\\overline\x7bz\x7d^\x7b2\x7d" = .ok [.super whole (.number "2")] := by
    refine hscripts.upper hexponent ?_
    refine .cons .nil (.cons .nil ?_)
    exact .cons .nil (.cons .nil .nil)
  rw [hread] at hsuper
  cases hsuper

end Instances

end OfficeMath
