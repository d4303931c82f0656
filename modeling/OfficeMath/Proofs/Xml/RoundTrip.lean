import OfficeMath.Proofs.Text.Characters
import OfficeMath.Proofs.Xml.Reader
import OfficeMath.Xml.Layout

/-!
# XML loses nothing

What an element is written as determines the element, indented or not, as long as no element
mixes text with other content (`Element.Unmixed`).  The proof follows the text: the lemmas
`run_…` say what the reader makes of a name, of an escaped value, of attributes, of a tag.  They
are put together in `run_render`, by induction over the element: after the XML of an element the
reader stands where it stood before, with one more piece of content.

The only texts on which the reader depends are names and character data.  Of names it is assumed
that no character of theirs ends them; attribute values and texts may be anything.
-/

namespace OfficeMath.Xml

/-- A prefix or local name that nothing in it ends. -/
def PlainWord (word : String) : Prop := word ≠ "" ∧ ∀ c ∈ word.toList, isNameChar c

instance (word : String) : Decidable (PlainWord word) := inferInstanceAs (Decidable (_ ∧ _))

/-- A name whose parts are plain. -/
def Name.Plain (name : Name) : Prop :=
  (∀ space ∈ name.space, PlainWord space) ∧ PlainWord name.localName

/-- An element that has either other elements as its content, or exactly one text, and so at every
depth.  All names are plain. -/
inductive Node.Unmixed : Node → Prop
  | text {name : Name} {attributes : List Attribute} (hname : name.Plain)
      (hattributes : ∀ a ∈ attributes, a.1.Plain) (content : String) :
    Unmixed (.element name attributes [.text content])
  | elements {name : Name} {attributes : List Attribute} {children : List Node}
      (hname : name.Plain) (hattributes : ∀ a ∈ attributes, a.1.Plain)
      (hchildren : ∀ child ∈ children, child.Unmixed) :
    Unmixed (.element name attributes children)

/-- An element without mixed content at any depth. -/
def Element.Unmixed (e : Element) : Prop := e.node.Unmixed

/-! ## Escaped text -/

/-- The characters of an escaped text. -/
theorem toList_escape (text : String) :
    (escape text).toList = text.toList.flatMap fun c => (escapeChar c).toList := by
  have onto (chars : List Char) (output : String) :
      (chars.foldl (fun written c => written ++ escapeChar c) output).toList
        = output.toList ++ chars.flatMap fun c => (escapeChar c).toList := by
    induction chars generalizing output with
    | nil => simp
    | cons c chars ih => simp [ih]
  simpa [escape, escapeOnto] using onto text.toList ""

/-- A character other than the five stands for itself. -/
theorem escapeChar_of_ne {c : Char} (h : c ∉ ['&', '<', '>', '"', '\x27']) :
    escapeChar c = String.ofList [c] := by
  simp only [List.mem_cons, List.not_mem_nil, or_false, not_or] at h
  simp [escapeChar, h]

/-- A character other than an ampersand is no entity. -/
theorem unescape_cons {c : Char} (h : c ≠ '&') (rest : List Char) :
    unescape (c :: rest) = c :: unescape rest := by
  rw [unescape.eq_def]
  split <;> simp_all

/-- **Escaping is undone.** -/
theorem unescape_escape (text : String) : unescape (escape text).toList = text.toList := by
  rw [toList_escape]
  induction text.toList with
  | nil => rfl
  | cons c chars ih =>
    rw [List.flatMap_cons]
    generalize (chars.flatMap fun c => (escapeChar c).toList) = rest at ih
    by_cases special : c ∈ ['&', '<', '>', '"', '\x27']
    · simp only [List.mem_cons, List.not_mem_nil, or_false] at special
      rcases special with rfl | rfl | rfl | rfl | rfl <;>
        simp [escapeChar, unescape, ih]
    · have hc : c ≠ '&' := fun h => special (by simp [h])
      rw [escapeChar_of_ne special]
      simp [unescape_cons hc, ih]

/-- No character of an escaped text is taken for the end of data, of a value or of a tag. -/
theorem not_mem_escape {c : Char} (hc : c ∈ ['<', '>', '"', '\x27']) (text : String) :
    c ∉ (escape text).toList := by
  rw [toList_escape, List.mem_flatMap]
  intro hmem
  obtain ⟨d, -, hd⟩ := hmem
  by_cases special : d ∈ ['&', '<', '>', '"', '\x27']
  · simp only [List.mem_cons, List.not_mem_nil, or_false] at special hc
    rcases special with rfl | rfl | rfl | rfl | rfl <;> rcases hc with rfl | rfl | rfl | rfl <;>
      simp [escapeChar] at hd
  · rw [escapeChar_of_ne special] at hd
    have heq : c = d := by simpa using hd
    subst heq
    exact special (List.mem_cons_of_mem _ hc)

/-! ## Names -/

/-- A character of a qualified name ends neither the name nor the tag. -/
theorem ne_of_nameChar {c : Char} (h : c = ':' ∨ isNameChar c) :
    c ≠ '>' ∧ c ≠ '/' ∧ c ≠ '=' ∧ isBlank c = false := by
  rcases h with rfl | h
  · decide
  · simp [isNameChar] at h
    simp [h]

/-- A plain word has no colon. -/
theorem PlainWord.no_colon {word : String} (h : PlainWord word) : ':' ∉ word.toList := by
  intro hmem
  exact absurd (h.2 ':' hmem) (by decide)

/-- A name behind a prefix is plain if both of its parts are. -/
theorem Name.plain_of_parts {space localName : String} (hspace : PlainWord space)
    (hlocal : PlainWord localName) : (⟨some space, localName⟩ : Name).Plain := by
  refine ⟨fun word hword => ?_, hlocal⟩
  obtain rfl : space = word := by simpa using hword
  exact hspace

/-- The characters of a qualified name are name characters and colons. -/
theorem Name.Plain.chars {name : Name} (h : name.Plain) :
    ∀ c ∈ name.text.toList, c = ':' ∨ isNameChar c := by
  obtain ⟨space, localName⟩ := name
  intro c hc
  cases space with
  | none => exact .inr (h.2.2 c hc)
  | some space =>
    have hspace := h.1 space rfl
    simp only [Name.text, String.toList_append, List.mem_append] at hc
    rcases hc with (hc | hc) | hc
    · exact .inr (hspace.2 c hc)
    · exact .inl (by simpa using hc)
    · exact .inr (h.2.2 c hc)

/-- A qualified name begins with a name character. -/
theorem Name.Plain.exists_head {name : Name} (h : name.Plain) :
    ∃ c rest, name.text.toList = c :: rest ∧ isNameChar c := by
  have word {w : String} (hw : PlainWord w) : ∃ c rest, w.toList = c :: rest ∧ isNameChar c := by
    cases hlist : w.toList with
    | nil => exact absurd (String.toList_eq_nil_iff.mp hlist) hw.1
    | cons c rest => exact ⟨c, rest, rfl, hw.2 c (by simp [hlist])⟩
  obtain ⟨space, localName⟩ := name
  cases space with
  | none => exact word h.2
  | some space =>
    obtain ⟨c, rest, hlist, hc⟩ := word (h.1 space rfl)
    exact ⟨c, rest ++ ':' :: localName.toList, by simp [Name.text, hlist], hc⟩

/-- A qualified name is read back from its characters. -/
theorem Name.Plain.ofChars_text {name : Name} (h : name.Plain) :
    Name.ofChars name.text.toList = name := by
  obtain ⟨space, localName⟩ := name
  have before {w : String} (hw : PlainWord w) : ∀ c ∈ w.toList, decide (c ≠ ':') = true := by
    intro c hc
    have hne : c ≠ ':' := fun heq => hw.no_colon (heq ▸ hc)
    exact decide_eq_true hne
  cases space with
  | none =>
    have hdrop : localName.toList.dropWhile (· ≠ ':') = [] := by
      rw [← List.append_nil localName.toList, List.dropWhile_append_of_pos (before h.2)]
      rfl
    show Name.ofChars localName.toList = _
    rw [Name.ofChars, hdrop, String.ofList_toList]
  | some space =>
    have hspace := before (h.1 space rfl)
    have htext : (Name.text ⟨some space, localName⟩).toList
        = space.toList ++ ':' :: localName.toList := by simp [Name.text]
    have hdrop : (space.toList ++ ':' :: localName.toList).dropWhile (· ≠ ':')
        = ':' :: localName.toList := by
      rw [List.dropWhile_append_of_pos hspace]
      rfl
    have htake : (space.toList ++ ':' :: localName.toList).takeWhile (· ≠ ':') = space.toList := by
      rw [List.takeWhile_append_of_pos hspace]
      simp
    rw [Name.ofChars, htext, hdrop, htake]
    simp

/-! ## Tags and character data -/

namespace Reader

variable {content : List Node} {opened : List Frame}

/-- After a first part of a text the reader goes on with the rest. -/
theorem run_append_of {s t : State} {front : List Char} (h : run s front = some t)
    (back : List Char) : run s (front ++ back) = run t back := by
  rw [run, List.foldlM_append]
  show (run s front).bind (run · back) = run t back
  rw [h, Option.bind_some]

/-- A text is read by its first character and then the others. -/
theorem run_cons_of {s t : State} {c : Char} (h : step s c = some t) (rest : List Char) :
    run s (c :: rest) = run t rest := by
  show (step s c).bind (run · rest) = run t rest
  rw [h, Option.bind_some]

/-- Characters that do not change what they are a part of are collected. -/
theorem run_collect {mode : List Char → Mode} {text : List Char}
    (h : ∀ c ∈ text, ∀ read,
      step ⟨mode read, content, opened⟩ c = some ⟨mode (read ++ [c]), content, opened⟩)
    (read : List Char) :
    run ⟨mode read, content, opened⟩ text = some ⟨mode (read ++ text), content, opened⟩ := by
  induction text generalizing read with
  | nil => simp [run]
  | cons c text ih =>
    rw [List.forall_mem_cons] at h
    rw [run_cons_of (h.1 read), ih h.2]
    simp

/-- Character data is collected up to the next tag. -/
theorem run_data {read text : List Char} (h : '<' ∉ text) :
    run ⟨.data read, content, opened⟩ text = some ⟨.data (read ++ text), content, opened⟩ := by
  refine run_collect (fun c hc read => ?_) read
  have hne : c ≠ '<' := fun heq => h (heq ▸ hc)
  simp [step, hne]

/-- The name of a tag is collected. -/
theorem run_name {read text : List Char} (h : ∀ c ∈ text, c = ':' ∨ isNameChar c) :
    run ⟨.name read, content, opened⟩ text = some ⟨.name (read ++ text), content, opened⟩ := by
  refine run_collect (fun c hc read => ?_) read
  obtain ⟨hgt, hslash, -, hblank⟩ := ne_of_nameChar (h c hc)
  simp [step, hgt, hslash, hblank, h c hc]

/-- The name of an attribute is collected. -/
theorem run_key {name : Name} {attributes : List Attribute} {read text : List Char}
    (h : ∀ c ∈ text, c = ':' ∨ isNameChar c) :
    run ⟨.key name attributes read, content, opened⟩ text
      = some ⟨.key name attributes (read ++ text), content, opened⟩ := by
  refine run_collect (fun c hc read => ?_) read
  obtain ⟨-, -, heq, -⟩ := ne_of_nameChar (h c hc)
  simp [step, heq, h c hc]

/-- The name of a closing tag is collected. -/
theorem run_closing {read text : List Char} (h : ∀ c ∈ text, c = ':' ∨ isNameChar c) :
    run ⟨.closing read, content, opened⟩ text
      = some ⟨.closing (read ++ text), content, opened⟩ := by
  refine run_collect (fun c hc read => ?_) read
  simp [step, (ne_of_nameChar (h c hc)).1]

/-- A value is collected up to the quotation mark that ends it. -/
theorem run_value {name key : Name} {attributes : List Attribute} {read text : List Char}
    (hquote : '"' ∉ text) (htag : '<' ∉ text) :
    run ⟨.value name attributes key read, content, opened⟩ text
      = some ⟨.value name attributes key (read ++ text), content, opened⟩ := by
  refine run_collect (fun c hc read => ?_) read
  have hne : c ≠ '"' := fun heq => hquote (heq ▸ hc)
  have hne' : c ≠ '<' := fun heq => htag (heq ▸ hc)
  simp [step, hne, hne']

/-- Attributes are read back, each with its value. -/
theorem run_attributesText {name : Name} {done attributes : List Attribute}
    (h : ∀ a ∈ attributes, a.1.Plain) :
    run ⟨.attributes name done, content, opened⟩ (attributesText attributes).toList
      = some ⟨.attributes name (done ++ attributes), content, opened⟩ := by
  induction attributes generalizing done with
  | nil => simp [attributesText, run]
  | cons a attributes ih =>
    obtain ⟨key, value⟩ := a
    rw [List.forall_mem_cons] at h
    obtain ⟨c, rest, htext, hc⟩ := h.1.exists_head
    have hkey := h.1.chars
    rw [htext, List.forall_mem_cons] at hkey
    have hread : Name.ofChars (c :: rest) = key := htext ▸ h.1.ofChars_text
    obtain ⟨hgt, hslash, -, hblank⟩ := ne_of_nameChar (.inr hc)
    have hsplit : (attributesText ((key, value) :: attributes)).toList
        = ' ' :: c :: (rest ++ '=' :: '"' :: ((escape value).toList
          ++ '"' :: (attributesText attributes).toList)) := by
      simp [attributesText, htext]
    rw [hsplit, run_cons_of (t := ⟨.attributes name done, content, opened⟩) rfl,
      run_cons_of (t := ⟨.key name done [c], content, opened⟩)
        (by simp [step, hgt, hslash, hblank, hc]),
      run_append_of (run_key hkey.2),
      run_cons_of (t := ⟨.equals name done key, content, opened⟩) (by simp [step, hread]),
      run_cons_of (t := ⟨.value name done key [], content, opened⟩) rfl,
      run_append_of (run_value (not_mem_escape (by simp) value) (not_mem_escape (by simp) value)),
      run_cons_of (t := ⟨.attributes name (done ++ [(key, value)]), content, opened⟩)
        (by simp [step, unescape_escape]),
      ih h.2]
    simp

/-- The beginning of a tag ends the character data before it. -/
theorem run_tag {name : Name} (h : name.Plain) (read : List Char) :
    run ⟨.data read, content, opened⟩ ("<" ++ name.text).toList
      = some ⟨.name name.text.toList, content ++ dataNodes read, opened⟩ := by
  obtain ⟨c, rest, htext, hc⟩ := h.exists_head
  have hchars := h.chars
  rw [htext, List.forall_mem_cons] at hchars
  have hslash := (ne_of_nameChar (.inr hc)).2.1
  have hsplit : ("<" ++ name.text).toList = '<' :: c :: rest := by simp [htext]
  rw [hsplit, run_cons_of (t := ⟨.tag, content ++ dataNodes read, opened⟩) rfl,
    run_cons_of (t := ⟨.name [c], content ++ dataNodes read, opened⟩)
      (by simp [step, hslash, hc]),
    run_name hchars.2, htext]
  rfl

/-- At the end of its name a tag has no attributes yet. -/
theorem run_name_end {name : Name} (h : name.Plain) {c : Char} (hc : c = '>' ∨ c = ' ')
    (rest : List Char) :
    run ⟨.name name.text.toList, content, opened⟩ (c :: rest)
      = run ⟨.attributes name [], content, opened⟩ (c :: rest) := by
  have hstep : step ⟨.name name.text.toList, content, opened⟩ c
      = step ⟨.attributes name [], content, opened⟩ c := by
    rcases hc with rfl | rfl
    · simp [step, h.ofChars_text, State.enter]
    · simp [step, h.ofChars_text, show isBlank ' ' from by decide]
  show (step _ c).bind (run · rest) = (step _ c).bind (run · rest)
  rw [hstep]

/-- A tag up to its end, with all of its attributes. -/
theorem run_tag_attributes {name : Name} {attributes : List Attribute} (hname : name.Plain)
    (hattributes : ∀ a ∈ attributes, a.1.Plain) (read : List Char) {c : Char}
    (hc : c = '>' ∨ c = ' ') (rest : List Char) :
    run ⟨.data read, content, opened⟩
        (("<" ++ name.text ++ attributesText attributes).toList ++ c :: rest)
      = run ⟨.attributes name attributes, content ++ dataNodes read, opened⟩ (c :: rest) := by
  rw [String.toList_append, List.append_assoc, run_append_of (run_tag hname read)]
  cases attributes with
  | nil => exact run_name_end hname hc rest
  | cons a others =>
    obtain ⟨back, hback⟩ : ∃ back, (attributesText (a :: others)).toList = ' ' :: back := by
      obtain ⟨key, value⟩ := a
      exact ⟨_, by simp only [attributesText, String.toList_append, List.append_assoc]; rfl⟩
    rw [hback, List.cons_append, run_name_end hname (.inr rfl), ← List.cons_append, ← hback,
      run_append_of (run_attributesText hattributes), List.nil_append]

/-- A tag without content is an element. -/
theorem run_empty {name : Name} {attributes : List Attribute} (hname : name.Plain)
    (hattributes : ∀ a ∈ attributes, a.1.Plain) (read : List Char) :
    run ⟨.data read, content, opened⟩
        ("<" ++ name.text ++ attributesText attributes ++ " />").toList
      = some ⟨.data [], content ++ dataNodes read ++ [.element name attributes []], opened⟩ := by
  rw [String.toList_append]
  exact run_tag_attributes hname hattributes read (.inr rfl) _

/-- An opening tag puts its content on top of the content around it. -/
theorem run_opening {name : Name} {attributes : List Attribute} (hname : name.Plain)
    (hattributes : ∀ a ∈ attributes, a.1.Plain) (read : List Char) :
    run ⟨.data read, content, opened⟩
        ("<" ++ name.text ++ attributesText attributes ++ ">").toList
      = some ⟨.data [], [], ⟨name, attributes, content ++ dataNodes read⟩ :: opened⟩ := by
  rw [String.toList_append]
  exact run_tag_attributes hname hattributes read (.inl rfl) _

/-- A closing tag gives the element that its opening tag began. -/
theorem run_close {name : Name} (hname : name.Plain) (attributes : List Attribute)
    (before : List Node) (read : List Char) :
    run ⟨.data read, content, ⟨name, attributes, before⟩ :: opened⟩
        ("</" ++ name.text ++ ">").toList
      = some ⟨.data [],
          before ++ [.element name attributes (settle (content ++ dataNodes read))], opened⟩ := by
  have hsplit : ("</" ++ name.text ++ ">").toList = '<' :: '/' :: (name.text.toList ++ ['>']) := by
    simp
  rw [hsplit, run_cons_of (t := ⟨.tag, content ++ dataNodes read, _ :: opened⟩) rfl,
    run_cons_of (t := ⟨.closing [], content ++ dataNodes read, _ :: opened⟩) rfl,
    run_append_of (run_closing hname.chars)]
  simp [run, step, State.leave?, hname.ofChars_text]

/-! ## Layout -/

/-- The characters that begin a new line. -/
theorem mem_newLine {indent : Nat} {c : Char} (h : c ∈ (newLine indent).toList) :
    c = '\n' ∨ c = ' ' := by
  cases indent with
  | zero => simp [newLine] at h
  | succ depth =>
    simp only [newLine, String.toList_append, String.toList_ofList, List.mem_append] at h
    rcases h with h | h
    · exact .inl (by simpa using h)
    · exact .inr (List.eq_of_mem_replicate h)

/-- The beginning of a new line is layout, if it is anything. -/
theorem isLayout_newLine (indent : Nat) : ∀ node ∈ dataNodes (newLine indent).toList,
    isLayout node := by
  intro node hnode
  have plain (text : List Char) (h : '&' ∉ text) : unescape text = text := by
    induction text with
    | nil => rfl
    | cons c text ih =>
      simp only [List.mem_cons, not_or] at h
      rw [unescape_cons (Ne.symm h.1), ih h.2]
  have hamp : '&' ∉ (newLine indent).toList := fun h => by simpa using mem_newLine h
  unfold dataNodes at hnode
  split at hnode
  · cases hnode
  · obtain rfl := List.mem_singleton.mp hnode
    simp only [isLayout, plain _ hamp, String.toList_ofList, List.all_eq_true]
    intro c hc
    rcases mem_newLine hc with rfl | rfl <;> decide

/-- Elements with layout before each of them and after the last one settle to the elements. -/
theorem settle_lines {children : List Node} (hne : children ≠ [])
    (helements : ∀ child ∈ children, isElement child) {indent indent' : Nat} :
    settle (children.flatMap (fun child => dataNodes (newLine indent).toList ++ [child])
      ++ dataNodes (newLine indent').toList) = children := by
  have drop (indent : Nat) : (dataNodes (newLine indent).toList).filter (!isLayout ·) = [] := by
    rw [List.filter_eq_nil_iff]
    intro node hnode
    simp [isLayout_newLine indent node hnode]
  have keep {child : Node} (h : isElement child) : [child].filter (!isLayout ·) = [child] := by
    cases child with
    | element => rfl
    | text => cases h
  have lines : (children.flatMap fun child => dataNodes (newLine indent).toList ++ [child]).filter
      (!isLayout ·) = children := by
    clear hne
    induction children with
    | nil => rfl
    | cons child others ih =>
      rw [List.forall_mem_cons] at helements
      rw [List.flatMap_cons, List.filter_append, List.filter_append, drop, keep helements.1,
        ih helements.2]
      rfl
  have some : (children.flatMap (fun child => dataNodes (newLine indent).toList ++ [child])
      ++ dataNodes (newLine indent').toList).any isElement := by
    obtain ⟨child, others, rfl⟩ := List.exists_cons_of_ne_nil hne
    simp [helements child List.mem_cons_self]
  rw [settle, if_pos some, List.filter_append, lines, drop, List.append_nil]

/-! ## Elements -/

/-- The lines of a list of elements are read one after the other. -/
theorem run_renderLines {children : List Node} {indent : Nat}
    (ih : ∀ child ∈ children, ∀ read content opened,
      run ⟨.data read, content, opened⟩ (child.render indent).toList
        = some ⟨.data [], content ++ dataNodes read ++ [child], opened⟩) :
    run ⟨.data [], content, opened⟩ (renderLines indent children).toList
      = some ⟨.data [],
          content ++ children.flatMap fun child => dataNodes (newLine indent).toList ++ [child],
          opened⟩ := by
  induction children generalizing content with
  | nil => simp [renderLines, run]
  | cons child others tail =>
    rw [List.forall_mem_cons] at ih
    have hline : '<' ∉ (newLine indent).toList := fun h => by simpa using mem_newLine h
    rw [renderLines, String.toList_append, String.toList_append, List.append_assoc,
      run_append_of (run_data hline), run_append_of (ih.1 _ _ _), tail ih.2]
    simp

/-- The text that is all the content of an element settles to itself, even if it is empty or
blank. -/
theorem settle_text (data : String) : settle (dataNodes (escape data).toList) = [.text data] := by
  have hread := unescape_escape data
  unfold dataNodes
  split
  case isTrue hempty =>
    rw [List.isEmpty_iff] at hempty
    rw [hempty] at hread
    rw [String.toList_eq_nil_iff.mp hread.symm]
    rfl
  case isFalse => simp [settle, isElement, hread]

/-- **What the reader makes of an element.**  After the XML of an element, indented or not, it has
one more piece of content, and nothing else has changed. -/
theorem run_render {node : Node} (h : node.Unmixed) (indent : Nat) (read : List Char)
    (content : List Node) (opened : List Frame) :
    run ⟨.data read, content, opened⟩ (node.render indent).toList
      = some ⟨.data [], content ++ dataNodes read ++ [node], opened⟩ := by
  induction h generalizing indent read content opened with
  | @text name attributes hname hattributes data =>
    have hdata : '<' ∉ (escape data).toList := not_mem_escape (by simp) data
    have hsplit : ((Node.element name attributes [.text data]).render indent).toList
        = ("<" ++ name.text ++ attributesText attributes ++ ">").toList
          ++ ((escape data).toList ++ ("</" ++ name.text ++ ">").toList) := by
      simp [Node.render]
    rw [hsplit, run_append_of (run_opening hname hattributes read),
      run_append_of (run_data hdata), List.nil_append, run_close hname, List.nil_append,
      settle_text]
  | @elements name attributes children hname hattributes hchildren ih =>
    have helements : ∀ child ∈ children, isElement child := by
      intro child hchild
      cases hchildren child hchild <;> rfl
    cases children with
    | nil => exact run_empty hname hattributes read
    | cons child others =>
      have hline : '<' ∉ (newLine indent).toList := fun h => by simpa using mem_newLine h
      have hsplit : ((Node.element name attributes (child :: others)).render indent).toList
          = ("<" ++ name.text ++ attributesText attributes ++ ">").toList
            ++ ((renderLines (deeper indent) (child :: others)).toList
              ++ ((newLine indent).toList ++ ("</" ++ name.text ++ ">").toList)) := by
        cases child with
        | element => simp [Node.render]
        | text data => cases helements _ List.mem_cons_self
      rw [hsplit, run_append_of (run_opening hname hattributes read),
        run_append_of (run_renderLines fun child hchild read content opened =>
          ih child hchild (deeper indent) read content opened),
        run_append_of (run_data hline), List.nil_append, List.nil_append, run_close hname,
        settle_lines (by simp) helements]

end Reader

/-- Reading gives back the element of which a text is the XML, indented or not. -/
theorem decode_toXml_of_unmixed {e : Element} (h : e.Unmixed) (pretty : Bool) :
    decode (e.toXml pretty) = some e := by
  have hrun := Reader.run_render h (if pretty then 1 else 0) [] [] []
  simp only [decode, Element.toXml, Element.render, hrun, Option.bind_eq_bind, Option.bind_some]
  rfl

end OfficeMath.Xml
