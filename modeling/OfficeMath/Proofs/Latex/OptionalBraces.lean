import OfficeMath.Proofs.Latex.BareTokens
import OfficeMath.Proofs.Latex.DecorationScripts
import OfficeMath.Proofs.Latex.PlainText

/-!
# Where a token needs no braces

A token is the same argument with braces and without (`takes_token`).  Here it is said for which
rules of the grammar it makes no difference whether they are written (`braces_of_token`).

* Scripts, and the arguments of the commands that build an expression, are read as arguments.  For
  them the braces never matter, but for a bracket directly after a radical, which begins an index.
* A command that sets a typeface looks for a brace itself and takes a whole base without it, all
  digits of a number included.  So `\mathbf12` is not `\mathbf{1}2` (`mathbf_takes_number`), though
  the argument of a command consists of one digit everywhere else.  The braces do not matter just
  where no longer number begins with the token.
* Plain text is not read as a formula.  In braces a tie is a no-break space and a command stands
  for a character or for nothing; without braces the text is the next character, whatever it is.
  So the braces do not matter just for the tokens of a single character but the tie.
* A delimiter is no argument, and neither `\left` nor a command for the size of a delimiter looks
  for one in braces.

* `ReadsSame` — a rule comes to the same thing on two texts.  It is how scripts and commands
  inherit what holds of their arguments;
* `readsSame_iff` — two texts of which it is known what is made of them and what they leave.
-/

namespace OfficeMath

open Nested (unbounded)

namespace Reading

variable {rest : List Char}

/-! ## Rules that read two texts in the same way -/

/-- A rule comes to the same thing on two texts: it makes the same of them and leaves the same
text ahead, or it fails on both for want of the same closing character. -/
def ReadsSame {α : Type} (m : Reading α) (text text' : List Char) : Prop :=
  ∀ s u : Scan, s.rest = text → u.rest = text' → Alike Eq s u m m

/-- An argument and a base on their own are those without a bound. -/
theorem alone_argument : alone argument = argument unbounded := by
  funext s
  have hagree : unbounded.Agree (.forRest s.rest) (s.rest.length + 1) s.rest.length :=
    Nested.agree_unbounded (by omega) (by omega)
  exact (argument_same hagree (by omega) (by omega)).symm

/-- So is the loop for scripts. -/
theorem alone_scriptsFrom (bound : Nat) (found : Scripts) :
    alone (scriptsFrom · bound found) = scriptsFrom unbounded bound found := by
  funext s
  have hagree : unbounded.Agree (.forRest s.rest) s.rest.length s.rest.length :=
    Nested.agree_unbounded (by omega) (by omega)
  exact (scriptsFrom_same Nested.forward_unbounded hagree (Nat.le_refl _) (Nat.le_refl _) bound
    found).symm

theorem alone_base : alone base = unbounded.base := by
  funext s
  have hagree : unbounded.Agree (.forRest s.rest) s.rest.length s.rest.length :=
    Nested.agree_unbounded (by omega) (by omega)
  rw [Nested.base_unbounded]
  exact (base_same Nested.forward_unbounded hagree (by omega) (by omega)).symm

section Places

variable {α β : Type} {token text text' gap gap' : List Char}

/-- What a step takes it yields. -/
theorem Takes.yields {m : Reading α} {a : α} (h : m.Takes text a rest) :
    m.Yields (text ++ rest) a rest :=
  fun s hs => ⟨_, h s hs, Takes.rest_advance hs⟩

/-- If a step yields something on each of two texts, it reads them in the same way just if this is
the same and the same text is left. -/
theorem readsSame_iff {m : Reading α} {a a' : α} {left left' : List Char}
    (h : m.Yields text a left) (h' : m.Yields text' a' left') :
    ReadsSame m text text' ↔ a = a' ∧ left = left' := by
  constructor
  · intro hsame
    obtain ⟨t, ht, hrest⟩ := h ⟨0, text, []⟩ rfl
    obtain ⟨v, hv, hrest'⟩ := h' ⟨0, text', []⟩ rfl
    have hboth := (hsame ⟨0, text, []⟩ ⟨0, text', []⟩ rfl rfl).ok ht hv
    rwa [hrest, hrest'] at hboth
  · rintro ⟨rfl, rfl⟩ s u hs hu
    obtain ⟨t, ht, hrest⟩ := h s hs
    obtain ⟨v, hv, hrest'⟩ := h' u hu
    rw [Alike, ht, hv]
    exact ⟨rfl, hrest.trans hrest'.symm⟩

/-- The name that is read in front of a token is read in front of braces. -/
theorem commandAt_inBraces {name : String} (h : IsToken token) (hgap' : IsLayout gap')
    (hname : commandAt? (control name ++ (gap ++ token ++ rest)) = some name) :
    commandAt? (control name ++ (gap' ++ inBraces token ++ rest)) = some name := by
  have hne : gap ++ token ++ rest ≠ [] := by
    obtain ⟨c, more, rfl, -⟩ := h.begins
    simp
  refine commandAt_of_commandAt hne hname ?_
  rw [List.append_assoc]
  exact hgap'.endsName (endsName_brace _)

/-- Two steps at two places come to the same thing if the first one takes what is different. -/
theorem alike_of_takes {m : Reading α} {f f' : α → Reading β} {a : α} {s u : Scan}
    (hs : s.rest = text ++ rest) (hu : u.rest = text' ++ rest) (h : m.Takes text a rest)
    (h' : m.Takes text' a rest) (hf : TextOnly (f a) (f' a)) :
    Alike Eq s u (m >>= f) (m >>= f') := by
  refine .bind ?_ fun b t v ht hv hrest => ?_
  · rw [Alike, h s hs, h' u hu]
    exact ⟨rfl, (Takes.rest_advance hs).trans (Takes.rest_advance hu).symm⟩
  · rw [h s hs] at ht
    cases ht
    exact hf _ _ hrest

/-- Two steps of which the first one takes the same from two texts and leaves what may differ. -/
theorem alike_of_yields {m : Reading α} {f f' : α → Reading β} {a : α} {s u : Scan}
    {ahead ahead' : List Char} (hs : s.rest = ahead) (hu : u.rest = ahead')
    (h : m.Yields ahead a text) (h' : m.Yields ahead' a text')
    (hf : ∀ t v : Scan, t.rest = text → v.rest = text' → Alike Eq t v (f a) (f' a)) :
    Alike Eq s u (m >>= f) (m >>= f') := by
  obtain ⟨t, ht, hrest⟩ := h s hs
  obtain ⟨v, hv, hrest'⟩ := h' u hu
  rw [Alike, run_bind_ok ht, run_bind_ok hv]
  exact hf t v hrest hrest'

/-! ## Scripts -/

/-- A round of the loop for scripts that finds a subscript. -/
theorem run_scriptsFrom_lower {s : Scan} {found : Scripts} {bound : Nat} {after : List Char}
    (hs : s.rest = '_' :: after) (hroom : found.lower = none) :
    scriptsFrom unbounded (bound + 1) found s
      = (argument unbounded >>= fun e => scriptsFrom unbounded bound (found.withLower e))
          (s.advance 1) := by
  have hahead : s.ScriptAhead := .inr (by simp [hs])
  have hskip := (run_of_scriptAhead unbounded hahead).1
  conv => lhs; unfold scriptsFrom
  rw [run_bind_ok hskip, run_bind_ok (run_rest s), hs]
  dsimp only [List.head?_cons]
  rw [hroom]
  rfl

/-- A round of the loop for scripts that finds a superscript. -/
theorem run_scriptsFrom_upper {s : Scan} {found : Scripts} {bound : Nat} {after : List Char}
    (hs : s.rest = '^' :: after) (hroom : found.AdmitsUpper) :
    scriptsFrom unbounded (bound + 1) found s
      = (superscript unbounded >>= fun e => scriptsFrom unbounded bound (found.withUpper e))
          (s.advance 1) := by
  have hahead : s.ScriptAhead := .inl (by simp [hs])
  have hskip := (run_of_scriptAhead unbounded hahead).1
  conv => lhs; unfold scriptsFrom
  rw [run_bind_ok hskip, run_bind_ok (run_rest s), hs]
  dsimp only [List.head?_cons]
  obtain ⟨lower, upper, onlyPrimes⟩ := found
  cases upper with
  | none => rfl
  | some primes =>
    rcases hroom with hnone | honly
    · cases hnone
    · dsimp only at honly ⊢
      rw [if_pos honly]
      rfl

/-- A token is the same script with braces and without, whatever scripts have been found. -/
theorem readsSame_scriptsFrom (h : IsToken token) (hend : EndsToken token rest)
    (hgap : IsLayout gap) (hgap' : IsLayout gap') {mark : Char} {found : Scripts} (bound : Nat)
    (hmark : (mark = '_' ∧ found.lower = none) ∨ (mark = '^' ∧ found.AdmitsUpper)) :
    ReadsSame (scriptsFrom unbounded (bound + 1) found) (mark :: (gap ++ token ++ rest))
      (mark :: (gap' ++ inBraces token ++ rest)) := by
  obtain ⟨e, he⟩ := takes_token h hend
  intro s u hs hu
  have hs' := Scan.rest_advance_one hs
  have hu' := Scan.rest_advance_one hu
  rcases hmark with ⟨rfl, hroom⟩ | ⟨rfl, hroom⟩
  · rw [Alike, run_scriptsFrom_lower hs hroom, run_scriptsFrom_lower hu hroom]
    exact alike_of_takes hs' hu' (he gap hgap).1.1 (he gap' hgap').1.2
      (textOnly_scriptsFrom Nested.textOnly_unbounded _ _)
  · rw [Alike, run_scriptsFrom_upper hs hroom, run_scriptsFrom_upper hu hroom]
    exact alike_of_takes hs' hu' (he gap hgap).2.1 (he gap' hgap').2.2
      (textOnly_scriptsFrom Nested.textOnly_unbounded _ _)

/-- A token is the same first script of any base with braces and without. -/
theorem readsSame_scripts (h : IsToken token) (hend : EndsToken token rest)
    (hgap : IsLayout gap) (hgap' : IsLayout gap') {mark : Char} (hmark : mark = '_' ∨ mark = '^')
    (base : Base) :
    ReadsSame (scripts unbounded base) (mark :: (gap ++ token ++ rest))
      (mark :: (gap' ++ inBraces token ++ rest)) := by
  intro s u hs hu
  have hahead {t : Scan} {after : List Char} (ht : t.rest = mark :: after) : t.ScriptAhead := by
    rcases hmark with rfl | rfl
    · exact .inr (by simp [ht])
    · exact .inl (by simp [ht])
  have hrun {t : Scan} {after : List Char} (ht : t.rest = mark :: after) :
      scripts unbounded base t = (scriptsFrom unbounded 3 ⟨none, none, false⟩ >>= fun found =>
        pure (base.expr.withScripts base.limits found.lower found.upper)) t := by
    obtain ⟨-, hprimes, hlimits⟩ := run_of_scriptAhead unbounded (hahead ht)
    unfold scripts
    rw [run_bind_ok (hlimits _), run_bind_ok hprimes]
    rfl
  have hloop : Alike Eq s u (scriptsFrom unbounded 3 ⟨none, none, false⟩)
      (scriptsFrom unbounded 3 ⟨none, none, false⟩) := by
    refine readsSame_scriptsFrom h hend hgap hgap' 2 ?_ s u hs hu
    rcases hmark with rfl | rfl
    · exact .inl ⟨rfl, rfl⟩
    · exact .inr ⟨rfl, .inl rfl⟩
  rw [Alike, hrun hs, hrun hu]
  exact hloop.map

/-! ## Arguments of commands -/

/-- Commands come to the same thing if they do so after their names. -/
theorem readsSame_base {name : String} {found : Command} (hfound : command? name = some found)
    (hpart : isPartOfSurroundings found = false)
    (hname : commandAt? (control name ++ text) = some name)
    (hname' : commandAt? (control name ++ text') = some name)
    (h : ∀ start start' (s u : Scan), s.rest = text → u.rest = text' →
      Alike Eq s u (command unbounded start found) (command unbounded start' found)) :
    ReadsSame unbounded.base (control name ++ text) (control name ++ text') := by
  intro s u hs hu
  obtain ⟨hrun, hrest⟩ := run_base_command hs hname hfound hpart
  obtain ⟨hrun', hrest'⟩ := run_base_command hu hname' hfound hpart
  rw [Alike, hrun, hrun']
  exact h _ _ _ _ hrest hrest'

/-- A radical without an index. -/
theorem run_sqrt {s : Scan} {start : Nat} (h : (afterLayout s.rest).head? ≠ some '[') :
    command unbounded start .sqrt s = (argument unbounded >>= fun e =>
      pure (some (.side (.sqrt e)))) (s.advance (layoutLength s.rest)) := by
  have hahead : (s.advance (layoutLength s.rest)).rest.head? ≠ some '[' := h
  unfold command
  dsimp only
  rw [run_bind_ok (run_skipLayout s), run_bind_ok (run_rest _)]
  generalize (s.advance (layoutLength s.rest)).rest = ahead at hahead
  cases ahead with
  | nil => rfl
  | cons c after =>
    have hbracket : c ≠ '[' := by simpa using hahead
    refine congrFun ?_ _
    split
    · next heq => exact absurd (List.cons.inj heq).1 hbracket
    · rfl

end Places

end Reading

/-- The number of arguments of a command that are read as expressions, the index of a radical not
counted. -/
def Command.argumentCount : Command → Nat
  | .decoration .. | .sqrt | .boxed | .phantom | .cancel _ => 1
  | .fraction _ | .overset | .underset => 2
  | _ => 0

namespace Reading

section Arguments

variable {token rest gap gap' : List Char} {found : Command} {s u : Scan}

/-- A token is the same first argument of any command with braces and without, but for a bracket
after a radical. -/
theorem alike_firstArgument (h : IsToken token) (hend : EndsToken token rest)
    (hgap : IsLayout gap) (hgap' : IsLayout gap') (hcount : found.argumentCount ≠ 0)
    (hsqrt : found = .sqrt → token ≠ ['[']) (start start' : Nat)
    (hs : s.rest = gap ++ token ++ rest) (hu : u.rest = gap' ++ inBraces token ++ rest) :
    Alike Eq s u (command unbounded start found) (command unbounded start' found) := by
  obtain ⟨e, he⟩ := takes_token h hend
  have hbare := (he gap hgap).1.1
  have hbraces := (he gap' hgap').1.2
  cases found with
  | decoration | boxed | phantom | cancel => exact alike_of_takes hs hu hbare hbraces (.pure _)
  | fraction | overset | underset =>
    exact alike_of_takes hs hu hbare hbraces
      (.bind (textOnly_argument Nested.textOnly_unbounded) fun _ => .pure _)
  | sqrt =>
    have hahead : afterLayout s.rest = token ++ rest := by
      rw [hs, List.append_assoc, afterLayout_append hgap, afterLayout, h.layoutLength_append,
        List.drop_zero]
    have hahead' : afterLayout u.rest = inBraces token ++ rest := by
      rw [hu, List.append_assoc, afterLayout_append hgap']
      exact afterLayout_cons (by decide) (by decide) _
    have hbracket : (token ++ rest).head? ≠ some '[' := by
      obtain ⟨c, more, htoken, -⟩ := h.begins
      intro hhead
      rw [htoken] at hhead
      exact hsqrt rfl (h.eq_bracket (by rw [htoken]; exact hhead))
    rw [Alike, run_sqrt (hahead ▸ hbracket), run_sqrt (by simp [hahead', inBraces])]
    exact alike_of_takes hahead hahead' (he [] .nil).1.1 (he [] .nil).1.2 (.pure _)
  | _ => exact absurd rfl hcount

/-- So it is the same second argument. -/
theorem alike_secondArgument (h : IsToken token) (hend : EndsToken token rest)
    (hgap : IsLayout gap) (hgap' : IsLayout gap') (hcount : found.argumentCount = 2)
    {first first' : List Char} {e : Expr}
    (hfirst : (argument unbounded).Yields first e (gap ++ token ++ rest))
    (hfirst' : (argument unbounded).Yields first' e (gap' ++ inBraces token ++ rest))
    (start start' : Nat) (hs : s.rest = first) (hu : u.rest = first') :
    Alike Eq s u (command unbounded start found) (command unbounded start' found) := by
  obtain ⟨e', he⟩ := takes_token h hend
  cases found with
  | fraction | overset | underset =>
    exact alike_of_yields hs hu hfirst hfirst' fun t v ht hv =>
      alike_of_takes ht hv (he gap hgap).1.1 (he gap' hgap').1.2 (.pure _)
  | _ => cases hcount

end Arguments

/-! ## Arguments of commands that set a typeface -/

section Typefaces

variable {token rest gap gap' ahead left : List Char} {name : String} {b : Base}

/-- A style command and what it reads after its name. -/
theorem yields_style {style : StyleCommand} {e : Expr}
    (hname : commandAt? (control name ++ ahead) = some name)
    (hmeaning : Meaning.ofName? name = some (.style style))
    (h : (styled unbounded style).Yields ahead e left) :
    unbounded.base.Yields (control name ++ ahead) (some (.side e)) left := by
  obtain ⟨after, hcontrol, hread⟩ := commandAt?_eq_some hname
  obtain rfl : name.toList ++ ahead = after := (List.cons.inj hcontrol).2
  have hcommand : (commandBase unbounded (name.toList ++ ahead)).Yields (control name ++ ahead)
      (some (.side e)) left := by
    unfold commandBase
    simp only [hread, String.ofList_toList, hmeaning]
    refine .advance ?_ (.bind h (.pure _ _))
    rw [Nat.add_comm]
    exact List.drop_left
  intro s hs
  rw [run_base_backslash (hs.trans hcontrol)]
  exact hcommand s hs

/-- Without a brace the argument of a style command is a whole base. -/
theorem yields_styled_base (style : TextStyle) {found : Option Base} (hgap : IsLayout gap)
    (hlayout : layoutLength ahead = 0) (hbrace : ahead.head? ≠ some '{')
    (h : unbounded.base.Yields ahead found left) :
    (styled unbounded (.formula style)).Yields (gap ++ ahead)
      (.styled style (found.map Base.expr).toList) left := by
  have hahead : afterLayout (gap ++ ahead) = ahead := by
    rw [afterLayout_append hgap, afterLayout, hlayout, List.drop_zero]
  refine .layout hahead (.rest ?_)
  split
  · exact absurd rfl hbrace
  · exact .bind h (.pure _ _)

/-- In braces it is the token. -/
theorem yields_styled_inBraces (style : TextStyle) (h : IsToken token) (hb : StandsFor token b)
    (hgap : IsLayout gap) (rest : List Char) :
    (styled unbounded (.formula style)).Yields (gap ++ inBraces token ++ rest)
      (.styled style [b.expr]) rest := by
  have hlayout : layoutLength (inBraces token ++ rest) = 0 :=
    layoutLength_cons (by decide) (by decide) _
  exact (takes_gap hgap hlayout (takes_styled_braces style (hb.takes_sequence h rest))).yields

/-- A number as a base. -/
theorem yields_base_number (hnumber : numberLength ahead ≠ 0) :
    unbounded.base.Yields ahead
      (some (.side (.number (String.ofList (ahead.take (numberLength ahead))))))
      (ahead.drop (numberLength ahead)) := by
  have hsplit := List.take_append_drop (numberLength ahead) ahead
  have hlength : numberLength (ahead.take (numberLength ahead) ++ ahead.drop (numberLength ahead))
      = (ahead.take (numberLength ahead)).length := by
    rw [hsplit, List.length_take, Nat.min_eq_left (numberLength_le ahead)]
  have htaken := (takes_base_number (numeral_take_numberLength hnumber) hlength).yields
  rwa [hsplit] at htaken

/-- **A token is the same argument of a style command with braces and without just where no longer
number begins with it.** -/
theorem readsSame_style {style : TextStyle} (h : IsToken token) (hend : EndsToken token rest)
    (hgap : IsLayout gap) (hgap' : IsLayout gap')
    (hmeaning : Meaning.ofName? name = some (.style (.formula style)))
    (hname : commandAt? (control name ++ (gap ++ token ++ rest)) = some name) :
    ReadsSame unbounded.base (control name ++ (gap ++ token ++ rest))
      (control name ++ (gap' ++ inBraces token ++ rest)) ↔ numberLength (token ++ rest) ≤ 1 := by
  obtain ⟨b, hb⟩ := exists_base_of_token h
  have hbraces := yields_style (commandAt_inBraces h hgap' hname) hmeaning
    (yields_styled_inBraces style h hb hgap' rest)
  have hbrace : (token ++ rest).head? ≠ some '{' := by
    obtain ⟨c, more, rfl, -, hmarks⟩ := h.begins
    simp only [List.mem_cons, not_or] at hmarks
    simpa using hmarks.2.1
  have hbare {found : Option Base} {left : List Char}
      (hbase : unbounded.base.Yields (token ++ rest) found left) :
      unbounded.base.Yields (control name ++ (gap ++ token ++ rest))
        (some (.side (.styled style (found.map Base.expr).toList))) left := by
    rw [List.append_assoc] at hname ⊢
    exact yields_style hname hmeaning
      (yields_styled_base style hgap (h.layoutLength_append rest) hbrace hbase)
  by_cases hnumber : numberLength (token ++ rest) ≤ 1
  · rw [readsSame_iff (hbare (hb.base rest hend hnumber).yields) hbraces]
    exact iff_of_true ⟨rfl, rfl⟩ hnumber
  · rw [readsSame_iff (hbare (yields_base_number (by omega))) hbraces]
    refine iff_of_false ?_ hnumber
    -- what is left of the text is shorter than the rest after the token
    rintro ⟨-, hleft⟩
    rcases h.isDigit_or with ⟨c, -, rfl⟩ | hnone
    · have hlength := congrArg List.length hleft
      rw [List.length_drop, List.length_append, List.length_singleton] at hlength
      have hle := numberLength_le ([c] ++ rest)
      rw [List.length_append, List.length_singleton] at hle
      omega
    · rw [hnone rest hend] at hnumber
      exact hnumber (Nat.zero_le 1)

end Typefaces

/-! ## Plain text as an argument -/

section Text

variable {token rest gap gap' ahead left : List Char} {name text : String}

/-- What a command makes of the plain text after its name. -/
theorem exists_base_of_text (h : takesText name) :
    ∃ build : String → Base, Function.Injective build ∧
      ∀ {ahead text left}, commandAt? (control name ++ ahead) = some name →
        textArgument.Yields ahead text left →
        unbounded.base.Yields (control name ++ ahead) (some (build text)) left := by
  unfold takesText at h
  split at h
  · next limits hfound =>
    refine ⟨fun text => ⟨.operatorName text, limits⟩, fun text text' heq => ?_, ?_⟩
    · cases heq
      rfl
    · intro ahead text left hname htext
      exact yields_command hname (command?_of_ofName? hfound) rfl fun _ => .bind htext (.pure _ _)
  · next style hstyle =>
    refine ⟨fun text => .side (.text style text), fun text text' heq => ?_, ?_⟩
    · cases heq
      rfl
    · intro ahead text left hname htext
      exact yields_style hname hstyle (.bind htext (.pure _ _))
  · cases h

/-- Without a brace plain text is the next character. -/
theorem yields_textArgument_char {c : Char} {more : List Char} (hgap : IsLayout gap)
    (hlayout : layoutLength (c :: more) = 0) (hbrace : c ≠ '{') :
    textArgument.Yields (gap ++ c :: more) (String.ofList [c]) more := by
  have hahead : afterLayout (gap ++ c :: more) = c :: more := by
    rw [afterLayout_append hgap, afterLayout, hlayout, List.drop_zero]
  refine .layout hahead (.rest (.advance rfl ?_))
  rw [if_neg hbrace]
  exact .pure _ _

/-- In braces it is what the loop collects. -/
theorem yields_textArgument_braces (hgap : IsLayout gap)
    (h : (textLoop ⟨0, []⟩).Yields ahead text left) :
    textArgument.Yields (gap ++ '{' :: ahead) text left := by
  have hahead : afterLayout (gap ++ '{' :: ahead) = '{' :: ahead := by
    rw [afterLayout_append hgap]
    exact afterLayout_cons (by decide) (by decide) _
  have hloop : (textFrom ahead.length 0 []).Yields ahead text left := by
    intro s hs
    rw [← hs]
    exact h s hs
  refine .layout hahead (.rest (.advance rfl ?_))
  rw [if_pos rfl]
  exact hloop

/-- A command in plain text is taken with its whole name. -/
theorem exists_yields_textLoop_control (h : IsPlainName name) (rest : List Char) :
    ∃ text, (textLoop ⟨0, []⟩).Yields (control name ++ '}' :: rest) text rest := by
  have hread := commandName_plain h (endsToken_brace _ rest)
  have hround : ∃ text, (textRound ⟨0, []⟩).Yields (control name ++ '}' :: rest)
      (.again ⟨0, text⟩) ('}' :: rest) := by
    rcases h with ⟨⟨hne, hword⟩, -⟩ | ⟨hone, hother⟩
    · obtain ⟨first, letters, hname⟩ :=
        List.exists_cons_of_ne_nil fun h => hne (String.toList_eq_nil_iff.mp h)
      have hletter : first.isAlpha := hword first (by simp [hname])
      rw [control, List.cons_append]
      refine ⟨[], .rest (.offset fun start => .advance rfl ?_)⟩
      rw [if_neg (by decide), if_neg (by decide), if_neg (by decide), if_pos rfl]
      dsimp only
      rw [hread]
      refine .advance List.drop_left ?_
      rw [hname]
      dsimp only
      rw [if_pos hletter]
      exact .bind (a := ()) (fun s hs => ⟨_, rfl, hs⟩) (.pure _ _)
    · obtain ⟨c, hname⟩ := List.length_eq_one_iff.mp hone
      have htaken := (takes_textRound_escaped (hother c (by simp [hname])) 0 []
        ('}' :: rest)).yields
      rw [control, hname]
      exact ⟨[c], htaken⟩
  obtain ⟨text, htext⟩ := hround
  rw [movesOn_text.rounds]
  exact ⟨_, .bind htext (takes_textLoop_end text rest).yields⟩

/-- **A token in braces is taken as plain text**, and if it is a single character this is the text
that is meant. -/
theorem exists_yields_textArgument_inBraces (h : IsToken token) (hgap : IsLayout gap)
    (rest : List Char) :
    ∃ text, textArgument.Yields (gap ++ inBraces token ++ rest) text rest ∧
      ∀ c, token = [c] → text = String.ofList [untie c] := by
  have hsplit : gap ++ inBraces token ++ rest = gap ++ '{' :: (token ++ '}' :: rest) := by
    simp [inBraces]
  rw [hsplit]
  rcases h.plain_or_control with hplain | ⟨name, hname, rfl⟩
  · have hbackslash : '\\' ∉ token := fun hmem => hplain _ hmem (by decide)
    have hbalanced : BracesBalanced 0 token :=
      .of_not_mem (fun hmem => hplain _ hmem (by decide)) fun hmem => hplain _ hmem (by decide)
    have htaken := (takes_textLoop_balanced hbackslash hbalanced [] rest).yields
    rw [List.append_assoc] at htaken
    refine ⟨_, yields_textArgument_braces hgap htaken, ?_⟩
    rintro c rfl
    obtain ⟨d, more, heq, hblank, -⟩ := h.begins
    obtain ⟨rfl, -⟩ := List.cons.inj heq
    have hc := hplain c List.mem_cons_self
    simp only [List.mem_cons, not_or] at hc
    have hkept : [c].filter (fun c => c ≠ '{' && c ≠ '}') = [c] := by simp [hc]
    rw [hkept, List.foldl_cons, List.foldl_nil, collect_of_not_blank hblank]
    rfl
  · obtain ⟨text, htext⟩ := exists_yields_textLoop_control hname rest
    refine ⟨text, yields_textArgument_braces hgap htext, fun c hc => ?_⟩
    exact absurd (List.cons.inj hc).2 hname.toList_ne_nil

/-- **A token is the same plain text with braces and without just if it is a single character and no
tie.** -/
theorem readsSame_text (h : IsToken token) (hgap : IsLayout gap) (hgap' : IsLayout gap')
    (htext : takesText name)
    (hname : commandAt? (control name ++ (gap ++ token ++ rest)) = some name) :
    ReadsSame unbounded.base (control name ++ (gap ++ token ++ rest))
      (control name ++ (gap' ++ inBraces token ++ rest)) ↔ ∃ c, token = [c] ∧ c ≠ '~' := by
  obtain ⟨build, hbuild, hbase⟩ := exists_base_of_text htext
  obtain ⟨text, hbraces, hone⟩ := exists_yields_textArgument_inBraces h hgap' rest
  have hbraced := hbase (commandAt_inBraces h hgap' hname) hbraces
  obtain ⟨c, more, rfl, -, hmarks⟩ := h.begins
  simp only [List.mem_cons, not_or] at hmarks
  have hlayout := h.layoutLength_append rest
  rw [List.append_assoc] at hname ⊢
  have hbare := hbase hname (yields_textArgument_char hgap hlayout hmarks.2.1)
  rw [readsSame_iff hbare hbraced]
  constructor
  · rintro ⟨hvalue, hleft⟩
    obtain rfl : more = [] := by simpa using hleft
    refine ⟨c, rfl, ?_⟩
    rintro rfl
    have heq := hbuild (Option.some.inj hvalue)
    rw [hone '~' rfl] at heq
    exact absurd heq (by decide)
  · rintro ⟨d, heq, htie⟩
    obtain ⟨rfl, rfl⟩ := List.cons.inj heq
    rw [hone c rfl, untie, if_neg htie]
    exact ⟨rfl, rfl⟩

end Text

/-! ## Delimiters -/

section Sizes

variable {token rest gap gap' ahead : List Char} {name : String} {factor : Float32}

/-- A command for the size of a delimiter has no output where no delimiter is ahead, and then it
takes nothing but layout. -/
theorem exists_yields_sized (factor : Float32) (hgap : IsLayout gap)
    (hlayout : layoutLength ahead = 0) :
    ∃ found left, (∀ start, (command unbounded start (.sized factor)).Yields (gap ++ ahead) found
        left) ∧ (delimiterAt? ahead = none → found = none) ∧ (found = none → left = ahead) := by
  have hahead : afterLayout (gap ++ ahead) = ahead := by
    rw [afterLayout_append hgap, afterLayout, hlayout, List.drop_zero]
  cases hdelimiter : delimiterAt? ahead with
  | none =>
    have hfound : delimiter?.Yields (gap ++ ahead) none ahead := by
      refine .layout hahead (.rest ?_)
      rw [hdelimiter]
      exact .pure _ _
    refine ⟨none, ahead, fun start => .bind hfound ?_, fun _ => rfl, fun _ => rfl⟩
    exact .bind (a := ()) (fun s hs => ⟨_, rfl, hs⟩) (.pure _ _)
  | some entry =>
    obtain ⟨glyph, length⟩ := entry
    have hfound : delimiter?.Yields (gap ++ ahead) (some glyph) (ahead.drop length) := by
      refine .layout hahead (.rest ?_)
      rw [hdelimiter]
      exact .advance rfl (.pure _ _)
    exact ⟨_, _, fun start => .bind hfound (.pure _ _), fun h => absurd h (Option.some_ne_none _),
      fun h => absurd h (Option.some_ne_none _)⟩

/-- A delimiter is not looked for in braces. -/
theorem not_readsSame_sized (h : IsToken token) (hgap : IsLayout gap) (hgap' : IsLayout gap')
    (hfound : command? name = some (.sized factor))
    (hname : commandAt? (control name ++ (gap ++ token ++ rest)) = some name) :
    ¬ ReadsSame unbounded.base (control name ++ (gap ++ token ++ rest))
      (control name ++ (gap' ++ inBraces token ++ rest)) := by
  have hbrace : layoutLength (inBraces token ++ rest) = 0 :=
    layoutLength_cons (by decide) (by decide) _
  have hname' := commandAt_inBraces h hgap' hname
  obtain ⟨found, left, hbare, -, hleft⟩ :=
    exists_yields_sized factor hgap (h.layoutLength_append rest)
  obtain ⟨found', left', hbraces, hnone, hleft'⟩ := exists_yields_sized factor hgap' hbrace
  rw [List.append_assoc] at hname hname' ⊢
  rw [List.append_assoc gap']
  rw [readsSame_iff (yields_command hname hfound rfl hbare)
    (yields_command hname' hfound rfl hbraces)]
  rintro ⟨rfl, hrest⟩
  have hmissing : found = none := hnone rfl
  rw [hleft hmissing, hleft' hmissing] at hrest
  have hlength := congrArg List.length hrest
  simp only [inBraces, List.length_append, List.length_cons] at hlength
  omega

end Sizes

end Reading

open Reading

/-- Where a token in front of this rest may stand without braces, of all the places in which it is
read after a mark or after the name of a command. -/
structure BracesOptional (token rest : List Char) : Prop where
  /-- Both ways it is the same argument, and no more is taken. -/
  argument : ∃ e, ∀ gap, IsLayout gap → (alone Reading.argument).Takes (gap ++ token) e rest ∧
    (alone Reading.argument).Takes (gap ++ inBraces token) e rest
  /-- It is the same script of any base … -/
  script : ∀ {gap gap' : List Char} {mark : Char}, IsLayout gap → IsLayout gap' →
    mark = '_' ∨ mark = '^' → ∀ base, ReadsSame (alone (scripts · base))
      (mark :: (gap ++ token ++ rest)) (mark :: (gap' ++ inBraces token ++ rest))
  /-- … also after other scripts, if there is room for it. -/
  laterScript : ∀ {gap gap' : List Char} {mark : Char} {found : Scripts}, IsLayout gap →
    IsLayout gap' → (mark = '_' ∧ found.lower = none) ∨ (mark = '^' ∧ found.AdmitsUpper) →
    ∀ bound, ReadsSame (alone (scriptsFrom · (bound + 1) found))
      (mark :: (gap ++ token ++ rest)) (mark :: (gap' ++ inBraces token ++ rest))
  /-- It is the same first argument of any command that builds an expression from its arguments,
  except for a bracket after a radical. -/
  firstArgument : ∀ {name : String} {found : Command} {gap gap' : List Char},
    command? name = some found → found.argumentCount ≠ 0 → (found = .sqrt → token ≠ ['[']) →
    IsLayout gap → IsLayout gap' →
    commandAt? (control name ++ (gap ++ token ++ rest)) = some name →
    ReadsSame (alone base) (control name ++ (gap ++ token ++ rest))
      (control name ++ (gap' ++ inBraces token ++ rest))
  /-- It is the same second argument after any first one. -/
  secondArgument : ∀ {name : String} {found : Command} {gap gap' first : List Char} {e : Expr},
    command? name = some found → found.argumentCount = 2 → IsLayout gap → IsLayout gap' →
    (∀ tail ∈ [gap ++ token ++ rest, gap' ++ inBraces token ++ rest],
      commandAt? (control name ++ (first ++ tail)) = some name ∧
        (alone Reading.argument).Yields (first ++ tail) e tail) →
    ReadsSame (alone base) (control name ++ (first ++ (gap ++ token ++ rest)))
      (control name ++ (first ++ (gap' ++ inBraces token ++ rest)))
  /-- It is the same argument of a command that sets a typeface just where no longer number begins
  with it. -/
  styleArgument : ∀ {name : String} {style : TextStyle} {gap gap' : List Char},
    Meaning.ofName? name = some (.style (.formula style)) → IsLayout gap → IsLayout gap' →
    commandAt? (control name ++ (gap ++ token ++ rest)) = some name →
    (ReadsSame (alone base) (control name ++ (gap ++ token ++ rest))
      (control name ++ (gap' ++ inBraces token ++ rest)) ↔ numberLength (token ++ rest) ≤ 1)
  /-- It is the same plain text just if it is a single character and no tie. -/
  textArgument : ∀ {name : String} {gap gap' : List Char}, takesText name → IsLayout gap →
    IsLayout gap' → commandAt? (control name ++ (gap ++ token ++ rest)) = some name →
    (ReadsSame (alone base) (control name ++ (gap ++ token ++ rest))
      (control name ++ (gap' ++ inBraces token ++ rest)) ↔ ∃ c, token = [c] ∧ c ≠ '~')
  /-- It is never the same after a command for the size of a delimiter. -/
  size : ∀ {name : String} {factor : Float32} {gap gap' : List Char},
    command? name = some (.sized factor) → IsLayout gap → IsLayout gap' →
    commandAt? (control name ++ (gap ++ token ++ rest)) = some name →
    ¬ ReadsSame (alone base) (control name ++ (gap ++ token ++ rest))
      (control name ++ (gap' ++ inBraces token ++ rest))

/-- A command with arguments begins a base. -/
theorem isPartOfSurroundings_of_argumentCount {found : Command} (h : found.argumentCount ≠ 0) :
    isPartOfSurroundings found = false := by
  cases found with
  | right | middle | endEnvironment => exact absurd rfl h
  | _ => rfl

/-- **A token needs no braces**, except after a command that sets a typeface, takes plain text or
scales a delimiter. -/
theorem braces_of_token {token rest : List Char} (h : IsToken token)
    (hend : EndsToken token rest) : BracesOptional token rest where
  argument := by
    obtain ⟨e, he⟩ := takes_token h hend
    rw [alone_argument]
    exact ⟨e, fun gap hgap => (he gap hgap).1⟩
  script hgap hgap' hmark base := by
    rw [alone_scripts]
    exact readsSame_scripts h hend hgap hgap' hmark base
  laterScript hgap hgap' hmark bound := by
    rw [alone_scriptsFrom]
    exact readsSame_scriptsFrom h hend hgap hgap' bound hmark
  firstArgument hfound hcount hsqrt hgap hgap' hname := by
    rw [alone_base]
    exact readsSame_base hfound (isPartOfSurroundings_of_argumentCount hcount) hname
      (commandAt_inBraces h hgap' hname) fun start start' s u hs hu =>
        alike_firstArgument h hend hgap hgap' hcount hsqrt start start' hs hu
  secondArgument {_ found _ _ _ _} hfound hcount hgap hgap' hfirst := by
    have hpart : isPartOfSurroundings found = false :=
      isPartOfSurroundings_of_argumentCount (by omega)
    obtain ⟨hname, hbare⟩ := hfirst _ List.mem_cons_self
    obtain ⟨hname', hbraces⟩ := hfirst _ (List.mem_cons_of_mem _ List.mem_cons_self)
    rw [alone_argument] at hbare hbraces
    rw [alone_base]
    exact readsSame_base hfound hpart hname hname' fun start start' s u hs hu =>
      alike_secondArgument h hend hgap hgap' hcount hbare hbraces start start' hs hu
  styleArgument hmeaning hgap hgap' hname := by
    rw [alone_base]
    exact readsSame_style h hend hgap hgap' hmeaning hname
  textArgument htext hgap hgap' hname := by
    rw [alone_base]
    exact readsSame_text h hgap hgap' htext hname
  size hfound hgap hgap' hname := by
    rw [alone_base]
    exact not_readsSame_sized h hgap hgap' hfound hname

/-- A letter command before a star, and a dot before a letter. -/
theorem braces_of_token_alpha_and_dot :
    BracesOptional (control "alpha") "*2".toList ∧ BracesOptional ['.'] "x5".toList := by
  have halpha : command? "alpha" = some (.identifier "α") := by decide +kernel
  refine ⟨braces_of_token (.command halpha rfl) ⟨fun _ _ => ?_, nofun, nofun⟩,
    braces_of_token (.sign (.inl (by decide))) ⟨nofun, nofun, fun _ => ?_⟩⟩
  · simp
  · simp

/-- **The argument of a style command may depend on its braces**: `\mathbf12` is not
`\mathbf{1}2`. -/
theorem mathbf_takes_number :
    ¬ ∀ token rest : List Char, IsToken token → EndsToken token rest →
      ∀ (name : String) (style : TextStyle), Meaning.ofName? name = some (.style (.formula style)) →
        commandAt? (control name ++ (token ++ rest)) = some name →
        ReadsSame (alone base) (control name ++ (token ++ rest))
          (control name ++ (inBraces token ++ rest)) := by
  intro hsame
  have hcommand : command? "mathbf" = none := by decide +kernel
  have hmeaning : Meaning.ofName? "mathbf" = some (.style (.formula .bold)) := by
    rw [Meaning.ofName?, hcommand]
    rfl
  have hname : commandAt? (control "mathbf" ++ (['1'] ++ ['2'])) = some "mathbf" :=
    commandAt_control (by decide) (endsName_cons (by decide) _)
  have hone : IsToken ['1'] := .digit (by decide)
  have hend : EndsToken ['1'] ['2'] :=
    ⟨fun h => absurd (List.cons.inj h).1 (by decide), fun h => absurd h (by decide),
      fun h => absurd h (by decide)⟩
  have hstyle := readsSame_style hone hend .nil .nil hmeaning hname
  have hmore := hsame ['1'] ['2'] hone hend "mathbf" .bold hmeaning hname
  rw [alone_base] at hmore
  exact absurd (hstyle.mp hmore) (by decide)

/-- A bracket after a radical begins an index, which is not closed here, and a style command takes
both digits of a number. -/
example : (parse "\\sqrt[").toOption = none ∧
    (parse "\\sqrt\x7b[\x7d").toOption = some [.sqrt (.symbol .opening "[")] ∧
    (parse "\\mathbf12").toOption = some [.styled .bold [.number "12"]] ∧
    (parse "\\mathbf\x7b1\x7d2").toOption = some [.styled .bold [.number "1"], .number "2"] := by
  decide +kernel

end OfficeMath
