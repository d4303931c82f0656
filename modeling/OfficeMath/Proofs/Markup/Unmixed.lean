import OfficeMath.Proofs.Markup.Building
import OfficeMath.Proofs.Xml.RoundTrip

/-!
# Markup of formulas never mixes content

Every construction of math markup either holds other elements or a single text, and all of its
names are plain (`Markup.structural_unmixed`); so do the elements that any formula is written as,
whether a reader would make this formula or not.  Together with the reader of XML this says that a
converted formula determines its tree: `decode_toXml_and_convert`.
-/

namespace OfficeMath

open Xml (Element Node Name PlainWord)

namespace Markup

/-- A code may be a name, or a part of one. -/
theorem plainWord_of_isCode {word : String} (h : IsCode word) : PlainWord word :=
  ⟨h.1, h.forall_mem (by decide)⟩

/-- A code is a plain name in the namespace of math markup. -/
theorem plain_math {localName : String} (h : IsCode localName) : (Name.math localName).Plain :=
  Name.plain_of_parts (by decide) (plainWord_of_isCode h)

/-- A slot does not mix content exactly if its content does not. -/
theorem unmixed_slot_iff {localName : String} (h : IsCode localName) (content : List Element) :
    (slot localName content).Unmixed ↔ ∀ e ∈ content, e.Unmixed := by
  have hnode : (slot localName content).node
      = .element (.math localName) [] (content.map Element.node) := by
    simp [slot, Element.withChildren, Element.math, Element.ofName, Element.node]
  rw [Element.Unmixed, hnode]
  constructor
  · intro hslot e he
    generalize hchildren : content.map Element.node = children at hslot
    cases hslot with
    | text =>
      have hmem := hchildren ▸ List.mem_map_of_mem he
      simp [Element.node] at hmem
    | elements _ _ hall => exact hall _ (hchildren ▸ List.mem_map_of_mem he)
  · intro hcontent
    refine .elements (plain_math h) (by simp) ?_
    simpa [Element.Unmixed] using hcontent

/-- An element with a single attribute, as a property has, does not mix content. -/
theorem unmixed_property {localName : String} (h : IsCode localName) (value : String) :
    (Element.property localName value).Unmixed := by
  have hval : Name.val.Plain := plain_math (by decide)
  have hnone : ∀ child ∈ ([] : List Node), child.Unmixed := by simp
  refine .elements (plain_math h) ?_ hnone
  simpa [Element.property, Element.withAttribute, Element.math, Element.ofName] using hval

/-- The text of a run is all the content of its element. -/
theorem unmixed_text (content : String) : ((Element.math "t").withText content).Unmixed :=
  .text (plain_math (by decide)) (by simp [Element.withText, Element.math, Element.ofName]) content

/-- Whether content is mixed depends on no text. -/
theorem structural_unmixed : Structural Element.Unmixed fun _ => True where
  slot := unmixed_slot_iff
  property hname value := iff_true_intro (unmixed_property hname value)
  text content := iff_true_intro (unmixed_text content)
  code _ := trivial
  zeroWidth := trivial
  space _ := trivial

end Markup

/-- A formula is written as an element without mixed content. -/
theorem unmixed_writeFormula (display : Display) (formula : Formula) :
    (writeFormula display formula).Unmixed :=
  Markup.structural_unmixed.writeFormula display fun _ _ _ _ _ _ => trivial

/-- An attribute with a plain name does not mix content. -/
theorem unmixed_withAttribute {e : Element} (he : e.Unmixed) {name : Name} (hname : name.Plain)
    (value : String) : (e.withAttribute name value).Unmixed := by
  obtain ⟨elementName, attributes, children⟩ := e
  have extended (hattributes : ∀ a ∈ attributes, a.1.Plain) :
      ∀ a ∈ attributes ++ [(name, value)], a.1.Plain :=
    List.forall_mem_append.mpr ⟨hattributes, List.forall_mem_singleton.mpr hname⟩
  cases he with
  | text helement hattributes content => exact .text helement (extended hattributes) content
  | elements helement hattributes hchildren =>
    exact .elements helement (extended hattributes) hchildren

/-- A formula does not mix content, whether it declares its namespace or not. -/
theorem unmixed_elementOf (settings : Settings) (display : Display) (formula : Formula) :
    (settings.elementOf display formula).Unmixed := by
  have hroot := unmixed_writeFormula display formula
  have hname : Name.mathDeclaration.Plain := Name.plain_of_parts (by decide) (by decide)
  unfold Settings.elementOf
  split
  · exact unmixed_withAttribute hroot hname _
  · exact hroot

/-- **Serialization loses nothing, compact or pretty.**  Reading gives back any element without
mixed content from its XML, indented or not.  Every formula is written as such an element, in any
display, and so the text that a formula is converted to determines the element that it is
converted to, whatever the settings. -/
theorem decode_toXml_and_convert :
    (∀ (e : Element) (pretty : Bool), e.Unmixed → Xml.decode (e.toXml pretty) = some e) ∧
      (∀ display formula, (writeFormula display formula).Unmixed) ∧
      ∀ (settings : Settings) text display,
        (settings.convert text display).map Xml.decode
          = (settings.element text display).map some := by
  refine ⟨fun e pretty h => Xml.decode_toXml_of_unmixed h pretty, unmixed_writeFormula, ?_⟩
  intro settings text display
  simp only [Settings.convert, Settings.element]
  cases parse text with
  | error unclosed => rfl
  | ok formula =>
    have hread := Xml.decode_toXml_of_unmixed (unmixed_elementOf settings display formula)
    exact congrArg Except.ok (hread _)

/-- An element with a blank text, a text that looks like markup, a text of length zero and no
content side by side is read back from both of its layouts. -/
theorem decode_toXml_layouts :
    let leaf (children : List Node) : Node := .element ⟨some "m", "t"⟩ [] children
    let e : Element := ⟨⟨none, "r"⟩, [(⟨some "m", "val"⟩, "\"<&")],
      [leaf [.text " \n"], leaf [.text "</m:t>&lt;"], leaf [.text ""], leaf []]⟩
    e.Unmixed ∧ Xml.decode (e.toXml false) = some e ∧ Xml.decode (e.toXml true) = some e := by
  intro leaf e
  have hname : (⟨some "m", "t"⟩ : Name).Plain := Name.plain_of_parts (by decide) (by decide)
  have htext (content : String) : (leaf [.text content]).Unmixed := .text hname (by simp) content
  have hempty : (leaf []).Unmixed := .elements hname (by simp) (by simp)
  have hroot : (⟨none, "r"⟩ : Name).Plain := ⟨by simp, by decide⟩
  have hval : (⟨some "m", "val"⟩ : Name).Plain := Name.plain_of_parts (by decide) (by decide)
  have he : e.Unmixed :=
    .elements hroot (List.forall_mem_singleton.mpr hval) (by simp [e, htext, hempty])
  exact ⟨he, decode_toXml_and_convert.1 e false he, decode_toXml_and_convert.1 e true he⟩

end OfficeMath
