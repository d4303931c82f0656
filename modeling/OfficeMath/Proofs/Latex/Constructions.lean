import OfficeMath.Proofs.Latex.Items

/-!
# Leaves and constructions are read back from their spelling

A leaf is read back because its characters are nothing else, a construction because its name is
read as a whole and its arguments are read back.  Constructions that differ in their name and their
command alone share one lemma for each number of arguments (`readsAsBase_one`, `readsAsBase_two`).
-/

namespace OfficeMath

open Nested (unbounded)

/-! ## Commands and their arguments -/

/-- A construction is found by its name. -/
theorem command_of_constructions :
    ∀ entry ∈ constructions, command? entry.1 = some entry.2 := by decide +kernel

namespace Reading

variable {text tail : List Char}

/-- What begins with a backslash is read as a command. -/
theorem run_base_backslash {s : Scan} {after : List Char} (hs : s.rest = '\\' :: after) :
    unbounded.base s = commandBase unbounded after s := by
  have hskip : skipLayout s = .ok () s := by
    rw [run_skipLayout, hs, layoutLength_cons (by decide) (by decide), Scan.advance_zero]
  have hnumber : numberLength ('\\' :: after) = 0 := by simp [numberLength, digitCount]
  rw [Nested.base_unbounded]
  unfold base
  rw [run_bind_ok hskip, run_bind_ok (run_rest s), hs]
  dsimp only
  rw [if_neg (by decide), if_neg (by simp [hnumber]), if_pos rfl]

/-- A base that begins with a backslash. -/
theorem takes_backslash {name : String} {b : Option Base}
    (h : (commandBase unbounded (name.toList ++ (text ++ tail))).Takes (control name ++ text) b
      tail) :
    unbounded.base.Takes (control name ++ text) b tail := by
  intro s hs
  have hcons : s.rest = '\\' :: (name.toList ++ (text ++ tail)) := by
    rw [hs, control, List.cons_append, List.cons_append, List.append_assoc]
  rw [run_base_backslash hcons]
  exact h s hs

/-- A command and what the command reads after its name. -/
theorem takes_command {name : String} {found : Command} {b : Option Base} (hname : IsWord name)
    (hfound : command? name = some found) (hpart : isPartOfSurroundings found = false)
    (hend : EndsName (text ++ tail))
    (h : ∀ start, (command unbounded start found).Takes text b tail) :
    unbounded.base.Takes (control name ++ text) b tail := by
  refine takes_backslash ?_
  have hread := commandName_word hname hend
  have hmeaning : Meaning.ofName? name = some (.command found) := by rw [Meaning.ofName?, hfound]
  unfold commandBase
  simp only [hread, String.ofList_toList, hmeaning]
  rw [if_neg (by simp [hpart])]
  refine .offset fun start => .advance ?_ (h start)
  simp [control, Nat.add_comm]

/-- A command at the start of a text, with what it reads after its name. -/
theorem run_base_command {s : Scan} {name : String} {found : Command}
    (hs : s.rest = control name ++ text) (hname : commandAt? (control name ++ text) = some name)
    (hfound : command? name = some found) (hpart : isPartOfSurroundings found = false) :
    unbounded.base s = command unbounded s.offset found (s.advance (1 + name.toList.length)) ∧
      (s.advance (1 + name.toList.length)).rest = text := by
  have hread : commandName (name.toList ++ text) = name.toList := by
    obtain ⟨after, hcontrol, hread⟩ := commandAt?_eq_some hname
    obtain rfl : name.toList ++ text = after := (List.cons.inj hcontrol).2
    exact hread
  have hmeaning : Meaning.ofName? name = some (.command found) := by rw [Meaning.ofName?, hfound]
  have hcons : s.rest = '\\' :: (name.toList ++ text) := hs
  refine ⟨?_, by rw [Scan.rest_advance_cons hcons, List.drop_left]⟩
  rw [run_base_backslash hcons]
  unfold commandBase
  simp only [hread, String.ofList_toList, hmeaning, hpart, Bool.false_eq_true]
  rfl

/-- The formula in braces that a style command sets. -/
theorem takes_styled_braces {inside : List Char} {members : List Expr} (style : TextStyle)
    (h : (unbounded.sequence (some .brace)).Takes inside members tail) :
    (styled unbounded (.formula style)).Takes ('{' :: inside) (.styled style members) tail := by
  refine .layout (layoutLength_cons (by decide) (by decide) _) (.rest ?_)
  exact .cons (.map h)

/-- A style command and the formula in braces after its name. -/
theorem takes_style {name : String} {style : TextStyle} {members : List Expr}
    (hname : IsWord name) (hmeaning : Meaning.ofName? name = some (.style (.formula style)))
    (h : ∀ e ∈ members, e.ReadsBack) :
    unbounded.base.Takes (control name ++ '{' :: (sourceOf members ++ ['}']))
      (some (.side (.styled style members))) tail := by
  refine takes_backslash ?_
  have hend : EndsName ('{' :: (sourceOf members ++ ['}']) ++ tail) := endsName_brace _
  have hread := commandName_word hname hend
  have hstyled : (styled unbounded (.formula style)).Takes ('{' :: (sourceOf members ++ ['}']))
      (.styled style members) tail := takes_styled_braces style (takes_sequence_brace h)
  unfold commandBase
  simp only [hread, String.ofList_toList, hmeaning]
  refine .advance ?_ (.map hstyled)
  simp [control, Nat.add_comm]

end Reading

section Constructions

variable {first second : Expr} {members : List Expr}

open Reading in
/-- A group is read back from its braces. -/
theorem readsAsBase_group (h : ∀ e ∈ members, e.ReadsBack) : (Expr.group members).ReadsAsBase := by
  refine ⟨fun rest => beginsItem_cons (by decide) (by decide) _, fun tail => ?_⟩
  rw [Nested.base_unbounded]
  refine .layout (layoutLength_cons (by decide) (by decide) _) (.rest ?_)
  refine .ite_pos rfl (.cons ?_)
  exact .map (takes_sequence_brace h)

open Reading in
/-- A construction and what is read after its name. -/
theorem readsAsBase_construction {e : Expr} {name : String} {text : List Char} (found : Command)
    (hsource : e.source = control name ++ text)
    (hname : BeginsName name)
    (hfound : (name, found) ∈ constructions ∧ isPartOfSurroundings found = false)
    (hend : ∀ rest, EndsName (text ++ rest))
    (h : ∀ start tail, (command unbounded start found).Takes text (some (.side e)) (' ' :: tail)) :
    e.ReadsAsBase := by
  have hcommand : command? name = some found := command_of_constructions _ hfound.1
  refine ⟨fun rest => ?_, fun tail => ?_⟩
  · rw [hsource, List.append_assoc]
    exact beginsItem_control hname (hend rest)
  · rw [hsource]
    exact takes_command hname.1 hcommand hfound.2 (hend _) fun start => h start tail

open Reading in
/-- A construction with one argument. -/
theorem readsAsBase_one {name : String} (found : Command) (build : Expr → Expr)
    (h : first.ReadsBack) (hsource : (build first).source = control name ++ braced first.source)
    (hname : BeginsName name)
    (hfound : (name, found) ∈ constructions ∧ isPartOfSurroundings found = false)
    (hcommand : ∀ start, command unbounded start found =
      argument unbounded >>= fun inner => pure (some (.side (build inner)))) :
    (build first).ReadsAsBase := by
  refine readsAsBase_construction found hsource hname hfound (fun rest => endsName_brace _) ?_
  intro start tail
  rw [hcommand start]
  exact .map (takes_argument h)

open Reading in
/-- A construction with two arguments. -/
theorem readsAsBase_two {name : String} (found : Command) (build : Expr → Expr → Expr)
    (hfirst : first.ReadsBack) (hsecond : second.ReadsBack)
    (hsource : (build first second).source
      = control name ++ (braced first.source ++ braced second.source))
    (hname : BeginsName name)
    (hfound : (name, found) ∈ constructions ∧ isPartOfSurroundings found = false)
    (hcommand : ∀ start, command unbounded start found =
      argument unbounded >>= fun first => argument unbounded >>= fun second =>
        pure (some (.side (build first second)))) :
    (build first second).ReadsAsBase := by
  refine readsAsBase_construction found hsource hname hfound (fun rest => endsName_brace _) ?_
  intro start tail
  rw [hcommand start]
  exact .bind (takes_argument hfirst) (.map (takes_argument hsecond))

/-- A phantom has one argument. -/
theorem readsAsBase_phantom (h : first.ReadsBack) : (Expr.phantom first).ReadsAsBase :=
  readsAsBase_one .phantom .phantom h rfl (by decide) (by decide) fun _ => rfl

/-- So has a box. -/
theorem readsAsBase_boxed (h : first.ReadsBack) : (Expr.boxed first).ReadsAsBase :=
  readsAsBase_one .boxed .boxed h rfl (by decide) (by decide) fun _ => rfl

/-- So have the three strokes. -/
theorem readsAsBase_cancel (stroke : Stroke) (h : first.ReadsBack) :
    (Expr.cancel stroke first).ReadsAsBase := by
  refine readsAsBase_one (.cancel stroke) (.cancel stroke) h rfl ?_ ?_ fun _ => rfl
  · cases stroke <;> decide
  · cases stroke <;> decide

/-- A fraction has two arguments and three names, one for each style with a line. -/
theorem readsAsBase_fraction {style : FractionStyle} (hstyle : style ≠ .noLine)
    (hfirst : first.ReadsBack) (hsecond : second.ReadsBack) :
    (Expr.fraction style first second).ReadsAsBase := by
  refine readsAsBase_two (.fraction style) (.fraction style) hfirst hsecond rfl ?_ ?_ fun _ => rfl
  · cases style <;> decide
  · cases style with
    | noLine => exact absurd rfl hstyle
    | normal | display | inline => decide

/-- What stands above a base is the first argument. -/
theorem readsAsBase_over (hbase : first.ReadsBack) (habove : second.ReadsBack) :
    (Expr.over false first second).ReadsAsBase :=
  readsAsBase_two .overset (fun above base => .over false base above) habove hbase rfl (by decide)
    (by decide) fun _ => rfl

/-- So is what stands below a base. -/
theorem readsAsBase_under (hbase : first.ReadsBack) (hbelow : second.ReadsBack) :
    (Expr.under false first second).ReadsAsBase :=
  readsAsBase_two .underset (fun below base => .under false base below) hbelow hbase rfl (by decide)
    (by decide) fun _ => rfl

open Reading in
/-- A radical without an index is read back because a brace follows its name. -/
theorem readsAsBase_sqrt (h : first.ReadsBack) : (Expr.sqrt first).ReadsAsBase := by
  have hread (tail : List Char) (start : Nat) : (command unbounded start .sqrt).Takes
      (braced first.source) (some (.side (.sqrt first))) tail := by
    refine .layout (layoutLength_cons (by decide) (by decide) _) (.rest ?_)
    exact .map (takes_argument h)
  exact readsAsBase_construction .sqrt rfl (by decide) (by decide) (fun rest => endsName_brace _)
    fun start tail => hread _ start

open Reading in
/-- An index is read back as a sequence in brackets. -/
theorem readsAsBase_root (hindex : first.ReadsBack) (hbase : second.ReadsBack) :
    (Expr.root first second).ReadsAsBase := by
  have hread (tail : List Char) (start : Nat) : (command unbounded start .sqrt).Takes
      (bracketed first.source ++ braced second.source) (some (.side (.root first second)))
      tail := by
    refine .layout (layoutLength_cons (by decide) (by decide) _) (.rest (.cons ?_))
    exact .bind (takes_sequence_bracket hindex) (.map (takes_argument hbase))
  have hend (rest : List Char) :
      EndsName (bracketed first.source ++ braced second.source ++ rest) :=
    endsName_cons (by decide) _
  exact readsAsBase_construction .sqrt rfl (by decide) (by decide) hend
    fun start tail => hread _ start

end Constructions

/-! ## Leaves -/

open Reading in
/-- A numeral is taken as a base where no longer number begins with it. -/
theorem Reading.takes_base_number {text rest : List Char} (h : Numeral text)
    (hlength : numberLength (text ++ rest) = text.length) :
    unbounded.base.Takes text (some (.side (.number (String.ofList text)))) rest := by
  obtain ⟨c, after, rfl, hc⟩ := h.exists_head
  have hplain : isBlank c = false ∧ c ≠ '%' ∧ c ≠ '{' := by
    rcases hc with hdigit | rfl
    · exact forall_isDigit (fun c => isBlank c = false ∧ c ≠ '%' ∧ c ≠ '{') (by decide) hdigit
    · decide
  have htake : (c :: after ++ rest).take (numberLength (c :: after ++ rest)) = c :: after := by
    rw [hlength, List.take_left]
  have hne : numberLength (c :: after ++ rest) ≠ 0 := by
    rw [hlength]
    exact Nat.succ_ne_zero _
  rw [Nested.base_unbounded]
  refine .layout (layoutLength_cons hplain.1 hplain.2.1 _) (.rest ?_)
  dsimp only [List.cons_append] at hne htake ⊢
  rw [if_neg hplain.2.2, if_pos hne, htake]
  exact .advanceLast hlength (.pure _ _)

open Reading in
/-- A number is read back where a space follows it. -/
theorem readsAsBase_number {text : String} (h : Numeral text.toList) :
    (Expr.number text).ReadsAsBase := by
  refine ⟨fun rest => ?_, fun tail => ?_⟩
  · obtain ⟨c, after, hlist, hc⟩ := h.exists_head
    have hplain : isBlank c = false ∧ c ∉ scriptMarks ++ closingMarks := by
      rcases hc with hdigit | rfl
      · exact forall_isDigit (fun c => isBlank c = false ∧ c ∉ scriptMarks ++ closingMarks)
          (by decide) hdigit
      · decide
    show BeginsItem (text.toList ++ rest)
    rw [hlist]
    exact beginsItem_cons hplain.1 hplain.2 _
  · have hlength : numberLength (text.toList ++ ' ' :: tail) = text.toList.length :=
      numberLength_append h (by simp) (by simp)
    have htaken := takes_base_number h hlength
    rw [String.ofList_toList] at htaken
    exact htaken

open Reading in
/-- A character that stands for an expression is read back where a space follows it. -/
theorem readsAsBase_char {c : Char} {e : Expr} (hsource : e.source = [c])
    (hblank : isBlank c = false) (hc : c ∉ scriptMarks ++ closingMarks)
    (hplain : c ≠ '{' ∧ c ≠ '~' ∧ c.isDigit = false) (hchar : Expr.ofChar? c = some e) :
    e.ReadsAsBase := by
  refine ⟨fun rest => ?_, fun tail => ?_⟩
  · rw [hsource]
    exact beginsItem_cons hblank hc _
  · have hnumber : numberLength ([c] ++ ' ' :: tail) = 0 := by
      have hdigits : digitCount (c :: ' ' :: tail) = 0 := by simp [digitCount, hplain]
      simp only [List.singleton_append, numberLength, hdigits, List.drop_zero]
      split
      · next heq =>
        obtain ⟨-, rfl⟩ := List.cons.inj heq
        simp [digitCount]
      · rfl
    simp only [scriptMarks, closingMarks, List.cons_append, List.nil_append, List.mem_cons,
      List.not_mem_nil, or_false, not_or] at hc
    rw [hsource, Nested.base_unbounded]
    refine .layout (layoutLength_cons hblank hc.1 _) (.rest ?_)
    have hscript : ¬ (c = '^' || c = '_') = true := by simp [hc]
    dsimp only [List.cons_append, List.nil_append] at hnumber ⊢
    rw [if_neg hplain.1, if_neg (not_not_intro hnumber), if_neg (by simp [hc]), if_neg hscript,
      if_neg (by simp [hc]), if_neg hplain.2.1, hchar]
    exact .cons (.pure _ _)

/-- A letter stands for itself. -/
theorem readsAsBase_identifier {c : Char} (h : isAlphabetic c) :
    (Expr.identifier (String.ofList [c])).ReadsAsBase := by
  have hmarks : ∀ d ∈ '{' :: '~' :: (scriptMarks ++ closingMarks), isAlphabetic d = false := by
    decide
  have hplain : c ∉ '{' :: '~' :: (scriptMarks ++ closingMarks) := by
    intro hmem
    simp [hmarks c hmem] at h
  simp only [List.mem_cons, not_or] at hplain
  refine readsAsBase_char ?_ (isBlank_eq_false (.inl h)) hplain.2.2
    ⟨hplain.1, hplain.2.1, isDigit_eq_false h⟩ ?_
  · simp [Expr.source]
  · simp [Expr.ofChar?, h]

/-- A symbol is read back from the character that stands for it. -/
theorem readsAsBase_symbol {c : Char} {kind : SymbolClass} {glyph : String}
    (h : (c, ⟨kind, glyph⟩) ∈ characterSymbols) : (Expr.symbol kind glyph).ReadsAsBase := by
  have htable : ∀ entry ∈ characterSymbols, symbolSource entry.2 = [entry.1] ∧
      isBlank entry.1 = false ∧ entry.1 ∉ scriptMarks ++ closingMarks ∧
      (entry.1 ≠ '{' ∧ entry.1 ≠ '~' ∧ entry.1.isDigit = false) ∧
      isAlphabetic entry.1 = false ∧ characterSymbol? entry.1 = some entry.2 := by decide
  obtain ⟨hsource, hblank, hc, hplain, halphabetic, hlookup⟩ := htable _ h
  refine readsAsBase_char ?_ hblank hc hplain ?_
  · simpa [Expr.source] using hsource
  · simp [Expr.ofChar?, halphabetic, hlookup, Glyph.expr]

/-- A style command with the formula that it sets. -/
theorem readsAsBase_styled {name : String} {style : TextStyle} {members : List Expr}
    (hstyle : (name, StyleCommand.formula style) ∈ styleCommands) (h : ∀ e ∈ members, e.ReadsBack) :
    (Expr.styled style members).ReadsAsBase := by
  have htable : ∀ style ∈ [TextStyle.normal, .bold, .italic, .monospace, .sansSerif, .doubleStruck,
      .script, .fraktur, .boldItalic], BeginsName (styleName style) ∧
        command? (styleName style) = none ∧ delimiterCommand? (styleName style) = none ∧
        styleCommand? (styleName style) = some (.formula style) := by decide
  have hmem : style ∈ [TextStyle.normal, .bold, .italic, .monospace, .sansSerif, .doubleStruck,
      .script, .fraktur, .boldItalic] := by
    cases style <;> simp [styleCommands] at hstyle ⊢
  obtain ⟨hname, hcommand, hdelimiter, hlookup⟩ := htable style hmem
  have hmeaning : Meaning.ofName? (styleName style) = some (.style (.formula style)) := by
    simp [Meaning.ofName?, hcommand, hdelimiter, hlookup]
  refine ⟨fun rest => ?_, fun tail => Reading.takes_style hname.1 hmeaning h⟩
  show BeginsItem (control (styleName style) ++ '{' :: (sourceOf members ++ ['}']) ++ rest)
  rw [List.append_assoc]
  exact beginsItem_control hname (endsName_brace _)

end OfficeMath
