import OfficeMath.Proofs.Latex.Constructions

/-!
# Delimited regions are read back from their spelling

A region is read in steps, like an array: an item, a separator after `\middle`, or the end after
`\right`.  Each step has its lemma.  The delimiters themselves are characters or commands, and each
ends the name of the command before it, so that `\left`, `\middle` and `\right` are read as such.
-/

namespace OfficeMath

open Nested (unbounded)

/-! ## Delimiters -/

/-- The characters with which a delimiter may begin. -/
def delimiterHeads : List Char := ['.', '\\', '(', ')', '[', ']', '|']

/-- The name of a delimiter command ends where no letter or star follows. -/
theorem commandName_delimiter {name : String} {glyph : Glyph}
    (h : (name, glyph) ∈ delimiterCommands) {rest : List Char} (hrest : EndsName rest) :
    commandName (name.toList ++ rest) = name.toList := by
  have htable : ∀ entry ∈ delimiterCommands, IsWord entry.1 ∨
      (entry.1.toList.length = 1 ∧ ∀ c ∈ entry.1.toList, c.isAlpha = false) := by decide
  rcases htable _ h with hword | ⟨hlength, hsign⟩
  · exact commandName_word hword hrest
  · obtain ⟨c, hc⟩ := List.length_eq_one_iff.mp hlength
    rw [hc] at hsign ⊢
    exact commandName_cons (hsign c List.mem_cons_self) rest

/-- A delimiter is found from its spelling. -/
theorem delimiterAt_source {text : String} (h : text ∈ delimiterTexts) {rest : List Char}
    (hrest : EndsName rest) : ∃ glyph, glyph.text = text ∧
      delimiterAt? (delimiterSource text ++ rest)
        = some (glyph, (delimiterSource text).length) := by
  unfold delimiterSource
  split
  · next c glyph hfind =>
    have htable : ∀ entry ∈ delimiterCharacters, entry.1 ≠ '.' ∧ entry.1 ≠ '\\' ∧
        delimiterCharacter? entry.1 = some entry.2 := by decide
    have htext : glyph.text = text := by simpa using List.find?_some hfind
    obtain ⟨hdot, hbackslash, hlookup⟩ := htable _ (List.mem_of_find?_eq_some hfind)
    refine ⟨glyph, htext, ?_⟩
    simp [delimiterAt?, hdot, hbackslash, hlookup]
  · split
    · next name glyph hfind =>
      have htable : ∀ entry ∈ delimiterCommands, delimiterCommand? entry.1 = some entry.2 := by
        decide
      have htext : glyph.text = text := by simpa using List.find?_some hfind
      have hmem := List.mem_of_find?_eq_some hfind
      have hlookup := htable _ hmem
      have hname := commandName_delimiter hmem hrest
      refine ⟨glyph, htext, ?_⟩
      simp [delimiterAt?, hname, hlookup, Nat.add_comm]
    · next _ hcharacter _ hcommand =>
      refine ⟨⟨.opening, ""⟩, ?_, by simp [delimiterAt?]⟩
      rw [List.find?_eq_none] at hcharacter hcommand
      rcases List.mem_cons.mp h with hnone | hmem
      · exact hnone.symm
      · rcases List.mem_append.mp hmem with hmem | hmem
        · obtain ⟨entry, hentry, htext⟩ := List.mem_map.mp hmem
          exact absurd (by simpa using htext) (hcharacter entry hentry)
        · obtain ⟨entry, hentry, htext⟩ := List.mem_map.mp hmem
          exact absurd (by simpa using htext) (hcommand entry hentry)

/-- A delimiter begins with one of a few characters. -/
theorem delimiterSource_head (text : String) :
    ∃ c rest, delimiterSource text = c :: rest ∧ c ∈ delimiterHeads := by
  unfold delimiterSource
  split
  · next c glyph hfind =>
    have htable : ∀ entry ∈ delimiterCharacters, entry.1 ∈ delimiterHeads := by decide
    exact ⟨c, [], rfl, htable _ (List.mem_of_find?_eq_some hfind)⟩
  · split
    · exact ⟨'\\', _, rfl, by simp [delimiterHeads]⟩
    · exact ⟨'.', [], rfl, by simp [delimiterHeads]⟩

/-- A delimiter ends the name before it. -/
theorem endsName_delimiter (text : String) (rest : List Char) :
    EndsName (delimiterSource text ++ rest) := by
  obtain ⟨c, after, hsource, hc⟩ := delimiterSource_head text
  have hheads : ∀ c ∈ delimiterHeads, c.isAlpha = false ∧ c ≠ '*' := by decide
  rw [hsource]
  exact endsName_cons (hheads c hc) _

namespace Reading

variable {tail : List Char}

/-- A delimiter is read back where a space follows it. -/
theorem takes_delimiterAfter {text : String} (command : String) (h : text ∈ delimiterTexts) :
    (delimiterAfter command).Takes (delimiterSource text) text (' ' :: tail) := by
  have hend : EndsName (' ' :: tail) := endsName_cons (by decide) tail
  obtain ⟨glyph, rfl, hfind⟩ := delimiterAt_source h hend
  have hlayout : layoutLength (delimiterSource glyph.text ++ ' ' :: tail) = 0 := by
    obtain ⟨c, after, hsource, hc⟩ := delimiterSource_head glyph.text
    have hheads : ∀ c ∈ delimiterHeads, isBlank c = false ∧ c ≠ '%' := by decide
    rw [hsource]
    exact layoutLength_cons (hheads c hc).1 (hheads c hc).2 _
  have hdelimiter : delimiter?.Takes (delimiterSource glyph.text) (some glyph) (' ' :: tail) := by
    refine .layout hlayout (.rest ?_)
    rw [hfind]
    exact .advanceLast rfl (.pure _ _)
  exact .last hdelimiter (.pure _ _)

/-! ## Regions -/

/-- The end of a region, or a separator in it. -/
private theorem endsItem_delimiterCommand {name : String} (hname : name = "right" ∨ name = "middle")
    (glyph : String) (rest : List Char) :
    EndsItem (control name ++ (delimiterSource glyph ++ rest)) := by
  rcases hname with rfl | rfl <;>
    exact endsItem_control (by decide) (by decide) (endsName_delimiter glyph rest)

/-- What may follow an item in a region. -/
theorem endsItem_items {content : List Item} (h : ∀ e, Item.expr e ∈ content → e.ReadsBack)
    (closing : String) (rest : List Char) :
    EndsItem (sourceOfItems content ++ (control "right" ++ delimiterSource closing) ++ rest) := by
  cases content with
  | nil => simpa [sourceOfItems] using endsItem_delimiterCommand (.inl rfl) closing rest
  | cons item content =>
    cases item with
    | separator glyph =>
      simpa [sourceOfItems] using endsItem_delimiterCommand (.inr rfl) glyph _
    | expr e => simpa [sourceOfItems] using ((h e List.mem_cons_self).begins _).toEndsItem

/-- The end of a region. -/
theorem takes_region_right {closing : String} (h : closing ∈ delimiterTexts) :
    (region unbounded).Takes (control "right" ++ delimiterSource closing) ([], closing)
      (' ' :: tail) := by
  have hname : commandName ("right".toList ++ (delimiterSource closing ++ ' ' :: tail))
      = "right".toList := commandName_word (by decide) (endsName_delimiter _ _)
  refine .layout (layoutLength_cons (by decide) (by decide) _) (.rest ?_)
  rw [control_append]
  dsimp only
  rw [if_neg (by decide), if_pos rfl, hname, if_neg (by decide), if_pos rfl]
  exact .advance rfl (.last (takes_delimiterAfter "right" h) (.pure _ _))

/-- A separator in a region. -/
theorem takes_region_middle {glyph closing : String} {content : List Item} {text : List Char}
    (h : glyph ∈ delimiterTexts)
    (hothers : unbounded.region.Takes (' ' :: text) (content, closing) tail) :
    (region unbounded).Takes (control "middle" ++ (delimiterSource glyph ++ ' ' :: text))
      (.separator glyph :: content, closing) tail := by
  have hname : commandName ("middle".toList ++ (delimiterSource glyph ++ ' ' :: text ++ tail))
      = "middle".toList := by
    rw [List.append_assoc]
    exact commandName_word (by decide) (endsName_delimiter _ _)
  refine .layout (layoutLength_cons (by decide) (by decide) _) (.rest ?_)
  rw [control_append]
  dsimp only
  rw [if_neg (by decide), if_pos rfl, hname, if_neg (by decide), if_neg (by decide), if_pos rfl]
  refine .advance rfl (.bind (takes_delimiterAfter "middle" h) ?_)
  exact .last hothers (.pure _ _)

/-- An item in a region. -/
theorem takes_region_item {e : Expr} {closing : String} {content : List Item} {text : List Char}
    (h : e.ReadsBack) (hends : EndsItem (text ++ tail))
    (hothers : unbounded.region.Takes text (content, closing) tail) :
    (region unbounded).Takes ((e.source ++ [' ']) ++ text) (.expr e :: content, closing) tail := by
  have hnext : (region.next unbounded).Takes ((e.source ++ [' ']) ++ text)
      (.expr e :: content, closing) tail := .bind (h.item _ hends) (.last hothers (.pure _ _))
  have hbegins : BeginsItem ((e.source ++ [' ']) ++ text ++ tail) := by simpa using h.begins _
  obtain ⟨c, after, hahead⟩ := List.exists_cons_of_ne_nil hbegins.nonempty
  refine .layout hbegins.layout (.rest ?_)
  rw [hahead] at hbegins ⊢
  have hbrace : c ≠ '}' := by simpa using hbegins.closer.1
  dsimp only
  rw [if_neg hbrace]
  by_cases hc : c = '\\'
  · subst hc
    have hend : commandName after ≠ "end".toList := hbegins.name_ne (by decide)
    have hright : commandName after ≠ "right".toList := hbegins.name_ne (by decide)
    have hmiddle : commandName after ≠ "middle".toList := hbegins.name_ne (by decide)
    rw [if_pos rfl, if_neg hend, if_neg hright, if_neg hmiddle]
    exact hnext
  · rw [if_neg hc]
    exact hnext

/-- A space before the content of a region. -/
theorem takes_region_space {found : List Item × String} {text : List Char}
    (hlayout : layoutLength (text ++ tail) = 0) (h : unbounded.region.Takes text found tail) :
    unbounded.region.Takes (' ' :: text) found tail := by
  rw [Nested.region_unbounded] at h ⊢
  exact .spaced hlayout h

/-- The content of a delimited region is read back together with the end of the region. -/
theorem takes_region {closing : String} {content : List Item} (hclosing : closing ∈ delimiterTexts)
    (hseparators : ∀ glyph, Item.separator glyph ∈ content → glyph ∈ delimiterTexts)
    (h : ∀ e, Item.expr e ∈ content → e.ReadsBack) :
    unbounded.region.Takes
      (sourceOfItems content ++ (control "right" ++ delimiterSource closing))
      (content, closing) (' ' :: tail) := by
  induction content with
  | nil =>
    rw [Nested.region_unbounded]
    exact takes_region_right hclosing
  | cons item rest ih =>
    have hitems : ∀ e, Item.expr e ∈ rest → e.ReadsBack := fun e he =>
      h e (List.mem_cons_of_mem _ he)
    have hglyphs : ∀ glyph, Item.separator glyph ∈ rest → glyph ∈ delimiterTexts :=
      fun glyph hglyph => hseparators glyph (List.mem_cons_of_mem _ hglyph)
    have hothers := ih hglyphs hitems
    have hends := endsItem_items hitems closing (' ' :: tail)
    rw [Nested.region_unbounded]
    cases item with
    | separator glyph =>
      have hspaced := takes_region_space hends.layout hothers
      simpa [sourceOfItems] using takes_region_middle (hseparators glyph List.mem_cons_self) hspaced
    | expr e =>
      simpa [sourceOfItems] using takes_region_item (h e List.mem_cons_self) hends hothers

end Reading

open Reading in
/-- A delimited region is read back if its delimiters have a spelling and its items are read
back. -/
theorem readsAsBase_delimited {opening closing : String} {content : List Item}
    (hopening : opening ∈ delimiterTexts) (hclosing : closing ∈ delimiterTexts)
    (hseparators : ∀ glyph, Item.separator glyph ∈ content → glyph ∈ delimiterTexts)
    (h : ∀ e, Item.expr e ∈ content → e.ReadsBack) :
    (Expr.delimited opening closing content).ReadsAsBase := by
  refine readsAsBase_construction .left rfl (by decide) (by decide) (fun rest => ?_) ?_
  · rw [List.append_assoc]
    exact endsName_delimiter _ _
  · intro start tail
    have hends := endsItem_items h closing (' ' :: tail)
    have hregion := takes_region_space hends.layout (takes_region hclosing hseparators h)
    have hread : (delimited unbounded).Takes (delimiterSource opening ++ ' ' ::
          (sourceOfItems content ++ (control "right" ++ delimiterSource closing)))
        (.delimited opening closing content) (' ' :: tail) :=
      .bind (takes_delimiterAfter "left" hopening) (.last hregion (.pure _ _))
    exact .map hread

end OfficeMath
