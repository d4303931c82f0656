import OfficeMath.Proofs.Latex.Spelling
import OfficeMath.Proofs.Markup.Unmixed

/-!
# The characters of math markup

The names and codes of math markup and its blanks consist of characters that XML allows.  All that
is left are the texts that a formula shows, and so the characters of a document come from these
(`forall_mem_toXml_elementOf`).

One would expect that a formula is always converted to characters that a document may have.  This
is not so: nothing stops a character that XML does not allow if it stands in a plain text, or if it
is beyond ASCII (`not_allowed_of_convert`).  There is no other way in for such a character, and so
a formula of allowed characters is converted to a document of allowed characters
(`convert_allowed`).
-/

namespace OfficeMath

open Xml (Element Name isAllowed)

namespace Markup

variable {p : Char → Prop} (hp : ∀ c, isAllowed c → p c)

include hp

/-- What holds of all allowed characters holds of those of a code. -/
theorem forall_mem_code {word : String} (h : IsCode word) : ∀ c ∈ word.toList, p c :=
  Xml.forall_mem_of_allowed hp (h.forall_mem (by decide))

/-- A name of math markup consists of its prefix, a colon and a code. -/
theorem forall_mem_math {localName : String} (h : IsCode localName) :
    ∀ c ∈ (Name.math localName).text.toList, p c := by
  have hspace : ∀ c ∈ "m:".toList, p c := Xml.forall_mem_of_allowed hp (by decide)
  have hname : (Name.math localName).text = "m:" ++ localName := rfl
  rw [hname, String.toList_append, List.forall_mem_append]
  exact ⟨hspace, forall_mem_code hp h⟩

/-- What holds of the characters of an element comes down to its texts, if it holds of all allowed
characters. -/
theorem structural_characters :
    Structural (fun e => ∀ c ∈ e.characters, p c) (fun text => ∀ c ∈ text.toList, p c) where
  slot {name} hname content := by
    have hslot : (slot name content).characters
        = (Name.math name).text.toList ++ content.flatMap Element.characters := by
      show _ ++ Xml.charactersOf (content.map Element.node) = _
      rw [Xml.charactersOf_eq_flatMap, List.flatMap_map]
      exact congrArg (· ++ _) (List.append_nil _)
    rw [hslot, List.forall_mem_append, List.forall_mem_flatMap]
    exact and_iff_right (forall_mem_math hp hname)
  property {name} hname value := by
    have hproperty : (Element.property name value).characters
        = (Name.math name).text.toList ++ ((Name.math "val").text.toList ++ value.toList) := by
      simp [Element.property, Element.withAttribute, Element.math, Element.ofName,
        Element.characters, Element.node, Xml.Node.characters, Xml.charactersOf, Name.val]
    rw [hproperty, List.forall_mem_append, List.forall_mem_append,
      and_iff_right (forall_mem_math hp hname), and_iff_right (forall_mem_math hp (by decide))]
  text content := by
    have htext : ((Element.math "t").withText content).characters
        = (Name.math "t").text.toList ++ content.toList := by
      simp [Element.withText, Element.math, Element.ofName, Element.characters, Element.node,
        Xml.Node.characters, Xml.charactersOf]
    rw [htext, List.forall_mem_append, and_iff_right (forall_mem_math hp (by decide))]
  code h := forall_mem_code hp h
  zeroWidth := Xml.forall_mem_of_allowed hp (by decide)
  space width := by
    refine Xml.forall_mem_of_allowed hp ?_
    unfold spaceGlyph
    repeat' split
    all_goals decide

end Markup

/-- **The characters of a document** are allowed, or stand in a text that the formula shows. -/
theorem forall_mem_toXml_elementOf {p : Char → Prop} (hp : ∀ c, isAllowed c → p c)
    (settings : Settings) (display : Display) {formula : Formula}
    (hformula : ∀ e ∈ formula, e.Shows fun text => ∀ c ∈ text.toList, p c) (pretty : Bool) :
    ∀ c ∈ ((settings.elementOf display formula).toXml pretty).toList, p c := by
  have hroot := (Markup.structural_characters hp).writeFormula display hformula
  have hcharacters : ∀ c ∈ (settings.elementOf display formula).characters, p c := by
    unfold Settings.elementOf
    split
    · have hname : ∀ c ∈ Name.mathDeclaration.text.toList, p c :=
        Xml.forall_mem_of_allowed hp (by decide)
      have hvalue : ∀ c ∈ Xml.mathNamespace.toList, p c :=
        Xml.forall_mem_of_allowed hp (by decide +kernel)
      exact Xml.forall_mem_withAttribute hroot hname hvalue
    · exact hroot
  exact Xml.forall_mem_render hp _ _ hcharacters

/-- A formula that declares its namespace does so at its outermost element. -/
theorem lookup_mathDeclaration {settings : Settings} (h : settings.xmlNamespace) (display : Display)
    (formula : Formula) :
    (settings.elementOf display formula).attributes.lookup .mathDeclaration
      = some Xml.mathNamespace := by
  have hplain : (writeFormula display formula).attributes = [] := by cases display <;> rfl
  rw [Settings.elementOf, if_pos h, Element.withAttribute, hplain]
  rfl

/-- A character of a plain text in a formula. -/
def InPlainText (formula : Formula) (c : Char) : Prop :=
  ∃ node ∈ nodesOf formula, node.ShowsPlainText ∧ ∃ shown ∈ node.ownTexts, c ∈ shown.toList

/-- The texts of a formula that has been read have allowed characters, and others that it was read
from: those beyond ASCII, and those of plain texts. -/
theorem shows_of_parse {text : String} {formula : Formula} (h : parse text = .ok formula) :
    ∀ e ∈ formula, e.Shows fun shown => ∀ c ∈ shown.toList,
      isAllowed c ∨ c ∈ text.toList ∧ (0x80 ≤ c.toNat ∨ InPlainText formula c) := by
  intro e he node hnode shown hshown c hc
  have hin : node ∈ nodesOf formula := by
    rw [nodesOf_eq_flatMap]
    exact List.mem_flatMap.mpr ⟨e, he, hnode⟩
  rcases spelled_of_parse h e he node hnode shown hshown c hc with hallowed | ⟨hmem, hways⟩
  · exact .inl hallowed
  · rcases hways with hbeyond | hplain
    · exact .inr ⟨hmem, .inl hbeyond⟩
    · exact .inr ⟨hmem, .inr ⟨node, hin, hplain, shown, hshown, hc⟩⟩

/-- **A document has the characters that XML allows**, if the formula has.  In any case the others
are characters of the formula: U+FFFE, U+FFFF, or characters of a plain text.  With the declaration
of its namespace it can be read on its own. -/
theorem convert_allowed {settings : Settings} {text : String} {display : Display} {markup : String}
    (h : settings.convert text display = .ok markup) :
    ((∀ c ∈ text.toList, isAllowed c) → ∀ c ∈ markup.toList, isAllowed c) ∧
      (∀ c ∈ markup.toList, isAllowed c = false → c ∈ text.toList ∧
        (c.toNat = 0xFFFE ∨ c.toNat = 0xFFFF ∨
          ∃ formula, parse text = .ok formula ∧ InPlainText formula c)) ∧
      (settings.xmlNamespace → ∃ root, Xml.decode markup = some root ∧
        root.attributes.lookup .mathDeclaration = some Xml.mathNamespace) := by
  simp only [Settings.convert, Settings.element] at h
  cases hread : parse text with
  | error unclosed =>
    rw [hread] at h
    cases h
  | ok formula =>
    rw [hread] at h
    obtain rfl : _ = markup := Except.ok.inj h
    have hcharacters := forall_mem_toXml_elementOf (fun c hallowed => .inl hallowed) settings
      display (shows_of_parse hread) (settings.prettyPrint.appliesTo display)
    refine ⟨?_, ?_, ?_⟩
    · intro hallowed c hc
      rcases hcharacters c hc with hdone | ⟨hmem, -⟩
      · exact hdone
      · exact hallowed c hmem
    · intro c hc hforbidden
      rcases hcharacters c hc with hallowed | ⟨hmem, hbeyond | hplain⟩
      · exact absurd hallowed (by simp [hforbidden])
      · rcases Xml.eq_of_isAllowed_eq_false hforbidden hbeyond with heq | heq
        · exact ⟨hmem, .inl heq⟩
        · exact ⟨hmem, .inr (.inl heq)⟩
      · exact ⟨hmem, .inr (.inr ⟨formula, rfl, hplain⟩)⟩
    · intro hnamespace
      refine ⟨settings.elementOf display formula, ?_, lookup_mathDeclaration hnamespace _ _⟩
      exact Xml.decode_toXml_of_unmixed (unmixed_elementOf settings display formula) _

/-- A plain text with a control character is written as it stands. -/
theorem convert_control :
    ∃ markup, (⟨.never, true⟩ : Settings).convert "\\text\x7ba\x01b\x7d" .inline = .ok markup ∧
      '\x01' ∈ markup.toList := by
  let markup := "<m:oMath xmlns:m=\"" ++ Xml.mathNamespace ++ "\"><m:r><m:rPr><m:nor />" ++
    "<m:sty m:val=\"p\" /></m:rPr><m:t>a\x01b</m:t></m:r></m:oMath>"
  exact ⟨markup, eq_ok_of_toOption (by decide +kernel), by decide +kernel⟩

/-- A plain text with markup and a tab in it, delimiters and signs beyond ASCII; and a control
character, which can only be in a plain text. -/
theorem convert_allowed_delimited :
    let settings : Settings := ⟨.never, true⟩
    let text := "\\text\x7b\\#\t<\x7d\\left(\u00e9\u221e\\right]"
    let markup := "<m:oMath xmlns:m=\"" ++ Xml.mathNamespace ++ "\"><m:r><m:rPr><m:nor />" ++
      "<m:sty m:val=\"p\" /></m:rPr><m:t># &lt;</m:t></m:r><m:d><m:dPr><m:begChr m:val=\"(\" />" ++
      "<m:endChr m:val=\"]\" /><m:grow /></m:dPr><m:e><m:r><m:t>\u00e9</m:t></m:r><m:r><m:t>" ++
      "\u221e</m:t></m:r></m:e></m:d></m:oMath>"
    (settings.convert text .inline = .ok markup ∧ (∀ c ∈ text.toList, isAllowed c) ∧
      (∀ c ∈ markup.toList, isAllowed c) ∧ ∃ root, Xml.decode markup = some root ∧
        root.attributes.lookup .mathDeclaration = some Xml.mathNamespace) ∧
    ∃ formula, parse "\\text\x7ba\x01b\x7d" = .ok formula ∧ InPlainText formula '\x01' := by
  intro settings text markup
  have hconvert : settings.convert text .inline = .ok markup :=
    eq_ok_of_toOption (by decide +kernel)
  have htext : ∀ c ∈ text.toList, isAllowed c := by decide +kernel
  obtain ⟨hallowed, -, hnamespace⟩ := convert_allowed hconvert
  refine ⟨⟨hconvert, htext, hallowed htext, hnamespace rfl⟩, ?_⟩
  obtain ⟨leaked, hleaks, hcontrol⟩ := convert_control
  obtain ⟨-, hforbidden, -⟩ := convert_allowed hleaks
  obtain ⟨-, hways⟩ := hforbidden '\x01' hcontrol (by decide)
  exact (hways.resolve_left (by decide)).resolve_left (by decide)

/-- **Nothing stops a character that XML does not allow** in a plain text. -/
theorem not_allowed_of_convert :
    ¬ ∀ (settings : Settings) (text : String) (display : Display) (markup : String),
      settings.convert text display = .ok markup → ∀ c ∈ markup.toList, isAllowed c := by
  intro hclaim
  obtain ⟨markup, hconvert, hcontrol⟩ := convert_control
  have hallowed := hclaim _ _ _ _ hconvert '\x01' hcontrol
  exact absurd hallowed (by decide)

end OfficeMath
