import OfficeMath.Proofs.Text.Characters
import OfficeMath.Proofs.Xml.RoundTrip

/-!
# The characters of XML

XML 1.0 has no way to write most control characters, nor U+FFFE and U+FFFF: they may stand neither
as they are nor as an entity.  Escaping leaves them alone.  So a document has such a character only
if a name, a value or a text of its element has it (`forall_mem_render`).
-/

namespace OfficeMath.Xml

/-- Whether a character may stand in a document. -/
def isAllowed (c : Char) : Bool :=
  c.toNat = 0x9 || c.toNat = 0xA || c.toNat = 0xD || (0x20 ≤ c.toNat && c.toNat ≤ 0xD7FF) ||
    (0xE000 ≤ c.toNat && c.toNat ≤ 0xFFFD) || (0x10000 ≤ c.toNat && c.toNat ≤ 0x10FFFF)

/-- Beyond ASCII all characters are allowed but two. -/
theorem eq_of_isAllowed_eq_false {c : Char} (h : isAllowed c = false) (hc : 0x80 ≤ c.toNat) :
    c.toNat = 0xFFFE ∨ c.toNat = 0xFFFF := by
  have hvalid : c.toNat < 0xD800 ∨ 0xDFFF < c.toNat ∧ c.toNat < 0x110000 := c.valid
  simp only [isAllowed, Bool.or_eq_false_iff, Bool.and_eq_false_iff, decide_eq_false_iff_not] at h
  omega

mutual

/-- The characters of all names, values and texts in a piece of content. -/
def Node.characters : Node → List Char
  | .text content => content.toList
  | .element name attributes children =>
    name.text.toList ++ attributes.flatMap (fun a => a.1.text.toList ++ a.2.toList) ++
      charactersOf children

/-- The characters in several pieces of content. -/
def charactersOf : List Node → List Char
  | [] => []
  | node :: rest => node.characters ++ charactersOf rest

end

/-- The characters of elements side by side are those of the elements. -/
theorem charactersOf_eq_flatMap (content : List Node) :
    charactersOf content = content.flatMap Node.characters := by
  induction content with
  | nil => rfl
  | cons node rest ih => rw [charactersOf, ih, List.flatMap_cons]

/-- The characters of all names, values and texts in an element. -/
def Element.characters (e : Element) : List Char := e.node.characters

/-- An attribute adds its name and its value to the characters of an element. -/
theorem forall_mem_withAttribute {p : Char → Prop} {e : Element} (he : ∀ c ∈ e.characters, p c)
    {name : Name} {value : String} (hname : ∀ c ∈ name.text.toList, p c)
    (hvalue : ∀ c ∈ value.toList, p c) : ∀ c ∈ (e.withAttribute name value).characters, p c := by
  simp only [Element.characters, Element.node, Node.characters, Element.withAttribute,
    List.flatMap_append, List.forall_mem_append] at he ⊢
  obtain ⟨⟨helement, hattributes⟩, hchildren⟩ := he
  have hnew : ∀ c ∈ [(name, value)].flatMap fun a => a.1.text.toList ++ a.2.toList, p c := by
    simpa [or_imp, forall_and] using ⟨hname, hvalue⟩
  exact ⟨⟨helement, hattributes, hnew⟩, hchildren⟩

section Render

variable {p : Char → Prop} (hp : ∀ c, isAllowed c → p c)

include hp

/-- A text of allowed characters, such as a piece of markup. -/
theorem forall_mem_of_allowed {markup : String} (h : ∀ c ∈ markup.toList, isAllowed c) :
    ∀ c ∈ markup.toList, p c := fun c hc => hp c (h c hc)

/-- Escaping adds entities, which consist of allowed characters. -/
theorem forall_mem_escape {text : String} (h : ∀ c ∈ text.toList, p c) :
    ∀ c ∈ (escape text).toList, p c := by
  rw [toList_escape, List.forall_mem_flatMap]
  intro c hc
  by_cases special : c ∈ ['&', '<', '>', '"', '\x27']
  · refine forall_mem_of_allowed hp ?_
    simp only [List.mem_cons, List.not_mem_nil, or_false] at special
    rcases special with rfl | rfl | rfl | rfl | rfl <;> decide
  · rw [escapeChar_of_ne special]
    simpa using h c hc

/-- Lines are broken and indented by allowed characters. -/
theorem forall_mem_newLine (indent : Nat) : ∀ c ∈ (newLine indent).toList, p c := by
  refine forall_mem_of_allowed hp fun c hc => ?_
  rcases Reader.mem_newLine hc with rfl | rfl <;> decide

/-- The text of attributes consists of their names and values, and of marks that are allowed. -/
theorem forall_mem_attributesText {attributes : List Attribute}
    (h : ∀ a ∈ attributes, (∀ c ∈ a.1.text.toList, p c) ∧ ∀ c ∈ a.2.toList, p c) :
    ∀ c ∈ (attributesText attributes).toList, p c := by
  induction attributes with
  | nil => simp [attributesText]
  | cons first rest ih =>
    obtain ⟨name, value⟩ := first
    rw [List.forall_mem_cons] at h
    obtain ⟨⟨hname, hvalue⟩, hrest⟩ := h
    simp only [attributesText, String.toList_append, List.forall_mem_append]
    have hspace : ∀ c ∈ " ".toList, p c := forall_mem_of_allowed hp (by decide)
    have hequals : ∀ c ∈ "=\"".toList, p c := forall_mem_of_allowed hp (by decide)
    have hquote : ∀ c ∈ "\"".toList, p c := forall_mem_of_allowed hp (by decide)
    exact ⟨⟨⟨⟨⟨hspace, hname⟩, hequals⟩, forall_mem_escape hp hvalue⟩, hquote⟩, ih hrest⟩

mutual

/-- **A document adds nothing but allowed characters** to those of the names, values and texts in
it. -/
theorem forall_mem_render (indent : Nat) (node : Node) (h : ∀ c ∈ node.characters, p c) :
    ∀ c ∈ (node.render indent).toList, p c := by
  cases node with
  | text content => exact forall_mem_escape hp h
  | element name attributes children =>
    simp only [Node.characters, List.forall_mem_append, List.forall_mem_flatMap] at h
    obtain ⟨⟨hname, hattributes⟩, hchildren⟩ := h
    have hlines := forall_mem_renderLines (deeper indent) children hchildren
    have hless : ∀ c ∈ "<".toList, p c := forall_mem_of_allowed hp (by decide)
    have hslash : ∀ c ∈ "</".toList, p c := forall_mem_of_allowed hp (by decide)
    have hend : ∀ c ∈ ">".toList, p c := forall_mem_of_allowed hp (by decide)
    simp only [Node.render, String.toList_append, List.forall_mem_append]
    refine ⟨⟨⟨hless, hname⟩, forall_mem_attributesText hp hattributes⟩, ?_⟩
    split
    · exact forall_mem_of_allowed hp (by decide)
    · next content =>
      have htext : ∀ c ∈ content.toList, p c := by
        simpa [charactersOf, Node.characters] using hchildren
      simp only [String.toList_append, List.forall_mem_append]
      exact ⟨⟨⟨⟨hend, forall_mem_escape hp htext⟩, hslash⟩, hname⟩, hend⟩
    · have hbreak := forall_mem_newLine hp indent
      simp only [String.toList_append, List.forall_mem_append]
      exact ⟨⟨⟨⟨⟨hend, hlines⟩, hbreak⟩, hslash⟩, hname⟩, hend⟩

/-- Lines add nothing but layout. -/
theorem forall_mem_renderLines (indent : Nat) (content : List Node)
    (h : ∀ c ∈ charactersOf content, p c) : ∀ c ∈ (renderLines indent content).toList, p c := by
  cases content with
  | nil => simp [renderLines]
  | cons node rest =>
    rw [charactersOf, List.forall_mem_append] at h
    simp only [renderLines, String.toList_append, List.forall_mem_append]
    exact ⟨⟨forall_mem_newLine hp indent, forall_mem_render indent node h.1⟩,
      forall_mem_renderLines indent rest h.2⟩

end

end Render

end OfficeMath.Xml
