import Mathlib
import OfficeMath.Proofs.Formula.Nodes
import OfficeMath.Proofs.Markup.Unmixed

/-!
# The writer neither loses nor repeats a piece

What a formula shows are its pieces (`Piece`): the texts of its leaves, its delimited regions
with their separators, and its arrays with their cells.  In the markup the same pieces are found
again by looking at single elements (`Element.piece?`): at the text of a run, at the character of
an n-ary operator or of an accent, at the slots of a region or of an array.  A formula and its
markup have the same pieces, each as often in the one as in the other (`count_pieces`), whatever
way a piece has taken through the writer.

Two kinds of text are left out of account, because they do not correspond to leaves: marks that
are drawn as a bar, which the markup does not spell out, and the blanks that the writer makes up
for spaces and for what is empty (`Piece.Visible`).
-/

namespace OfficeMath

open Xml (Element Node Name)

namespace Xml

mutual

/-- The elements of a piece of content, at any depth, each before the elements inside it. -/
def Node.elements : Node → List Element
  | .element name attributes children => ⟨name, attributes, children⟩ :: elementsOf children
  | .text _ => []

/-- The elements of several pieces of content in a row. -/
def elementsOf : List Node → List Element
  | [] => []
  | node :: rest => node.elements ++ elementsOf rest

end

/-- An element and all elements inside it, in the order of the document. -/
def Element.elements (e : Element) : List Element := e.node.elements

/-- The number of elements of this name right inside an element of math markup. -/
def Element.countOf (e : Element) (localName : String) : Nat :=
  e.childElements.countP (·.name = .math localName)

/-- What a property of an element says, where `group` is the element that holds the properties. -/
def Element.setting? (e : Element) (group localName : String) : Option String :=
  ((e.child? group).bind (·.child? localName)).bind Element.val?

end Xml

/-! ## Pieces -/

/-- A piece of a formula that is found again in its markup. -/
inductive Piece where
  | glyph (text : String)
  /-- A delimited region: its delimiters, its first separator and the number of parts that the
  separators divide it into. -/
  | region (opening closing : String) (separator : Option String) (parts : Nat)
  /-- An array: the number of its alignments, and the number of cells in each row. -/
  | grid (columns : Nat) (cells : List Nat)
  deriving DecidableEq, Repr

/-- The text of a leaf. -/
def Expr.leafText? : Expr → Option String
  | .number shown | .identifier shown | .symbol _ shown | .text _ shown | .operatorName shown =>
    some shown
  | _ => none

/-- The number of separators in a delimited region. -/
def separatorCount : List Item → Nat
  | [] => 0
  | .separator _ :: rest => separatorCount rest + 1
  | .expr _ :: rest => separatorCount rest

/-- The piece that a single node is. -/
def Expr.piece? : Expr → Option Piece
  | .delimited opening closing content =>
    some (.region opening closing (firstSeparator? content) (separatorCount content + 1))
  | .array alignments rows => some (.grid alignments.length (rows.map List.length))
  | e => e.leafText?.map .glyph

/-- The piece that a single element of math markup shows. -/
def Xml.Element.piece? (e : Element) : Option Piece :=
  if e.name = .math "t" then some (.glyph e.textContent)
  else if e.name = .math "chr" then e.val?.map .glyph
  else if e.name = .math "d" then do
    let opening ← e.setting? "dPr" "begChr"
    let closing ← e.setting? "dPr" "endChr"
    return .region opening closing (e.setting? "dPr" "sepChr") (e.countOf "e")
  else if e.name = .math "m" then
    let columns := ((e.child? "mPr").bind (·.child? "mcs")).elim 0 (·.countOf "mc")
    let rows := e.childElements.filter (·.name = .math "mr")
    some (.grid columns (rows.map (·.countOf "e")))
  else none

/-- The pieces of a formula, at every depth. -/
def piecesOf (formula : Formula) : List Piece := (nodesOf formula).filterMap Expr.piece?

/-- The pieces of an element and of all elements inside it. -/
def Xml.Element.pieces (e : Element) : List Piece := e.elements.filterMap Element.piece?

/-- The blanks that the writer makes up. -/
def blankGlyphs : List String :=
  [zeroWidthSpace, "\u2009", "\u2005", "\u2004", "\u2001", "\u2001\u2001"]

/-- A piece that comes from a formula if it stands in the markup of one, and that the markup
spells out. -/
def Piece.Visible (p : Piece) : Prop :=
  ∀ text, p = .glyph text → text ≠ "" ∧ text ∉ barGlyphs ∧ text ∉ blankGlyphs

namespace Piece

variable {p : Piece}

/-- One if the piece is this text, else zero. -/
def shows (p : Piece) (text : String) : Nat := if p = .glyph text then 1 else 0

/-- A visible piece is not shown by a space. -/
theorem shows_blank (hp : p.Visible) {text : String} (h : text ∈ blankGlyphs) :
    p.shows text = 0 := by
  unfold shows
  split
  · next heq => exact absurd h (hp text heq).2.2
  · rfl

/-- Nor is it by a glyph that is drawn as a bar. -/
theorem shows_bar (hp : p.Visible) {text : String} (h : barGlyphs.contains text) :
    p.shows text = 0 := by
  unfold shows
  split
  · next heq => exact absurd (List.contains_iff_mem.mp h) (hp text heq).2.1
  · rfl

/-- The empty text is no visible piece. -/
theorem shows_empty (hp : p.Visible) : p.shows "" = 0 := by
  unfold shows
  split
  · next heq => exact absurd rfl (hp "" heq).1
  · rfl

end Piece

/-! ## Counting in a formula -/

/-- How often a piece occurs in an expression. -/
def Expr.tally (p : Piece) (e : Expr) : Nat := (e.nodes.filterMap Expr.piece?).count p

/-- How often a piece occurs in a delimited region. -/
def tallyOfItems (p : Piece) : List Item → Nat
  | [] => 0
  | .separator _ :: rest => tallyOfItems p rest
  | .expr e :: rest => e.tally p + tallyOfItems p rest

section Formula

variable {p : Piece} {e first second third : Expr}

/-- A leaf counts as its text. -/
theorem tally_leaf {shown : String} (hnodes : e.nodes = [e]) (h : e.piece? = some (.glyph shown)) :
    e.tally p = p.shows shown := by
  by_cases heq : p = .glyph shown <;>
    simp [Expr.tally, hnodes, h, Piece.shows, heq, eq_comm]

/-- A node over one part counts as its part. -/
theorem tally_one (hnodes : e.nodes = e :: first.nodes) (h : e.piece? = none) :
    e.tally p = first.tally p := by
  simp [Expr.tally, hnodes, h]

/-- A node over two parts counts as both. -/
theorem tally_two (hnodes : e.nodes = e :: (first.nodes ++ second.nodes)) (h : e.piece? = none) :
    e.tally p = first.tally p + second.tally p := by
  simp [Expr.tally, hnodes, h]

/-- A node over three parts counts as all of them. -/
theorem tally_three (hnodes : e.nodes = e :: (first.nodes ++ second.nodes ++ third.nodes))
    (h : e.piece? = none) : e.tally p = first.tally p + second.tally p + third.tally p := by
  simp [Expr.tally, hnodes, h, Nat.add_assoc]

/-- A list counts as its members, one by one. -/
theorem tally_nodesOf (members : List Expr) :
    ((nodesOf members).filterMap Expr.piece?).count p = (members.map (Expr.tally p)).sum := by
  induction members with
  | nil => rfl
  | cons e rest ih => simp [nodesOf, ih, Expr.tally]

/-- So does the content of a region as its items. -/
theorem tally_nodesOfItems (content : List Item) :
    ((nodesOfItems content).filterMap Expr.piece?).count p = tallyOfItems p content := by
  induction content with
  | nil => rfl
  | cons item rest ih => cases item <;> simp [nodesOfItems, tallyOfItems, ih, Expr.tally]

/-- So does a row as its cells. -/
theorem tally_nodesOfCells (row : Row) :
    ((nodesOfCells row).filterMap Expr.piece?).count p
      = (row.map fun cell => (cell.map (Expr.tally p)).sum).sum := by
  induction row with
  | nil => rfl
  | cons cell rest ih => simp [nodesOfCells, ih, tally_nodesOf]

/-- And so do rows. -/
theorem tally_nodesOfRows (rows : List Row) :
    ((nodesOfRows rows).filterMap Expr.piece?).count p
      = (rows.map fun row => (row.map fun cell => (cell.map (Expr.tally p)).sum).sum).sum := by
  induction rows with
  | nil => rfl
  | cons row rest ih => simp [nodesOfRows, ih, tally_nodesOfCells]

/-- A node over a list counts as the members of the list. -/
theorem tally_members {members : List Expr} (hnodes : e.nodes = e :: nodesOf members)
    (h : e.piece? = none) : e.tally p = (members.map (Expr.tally p)).sum := by
  rw [← tally_nodesOf]
  simp [Expr.tally, hnodes, h]

/-- A delimited region counts as itself and the expressions in it. -/
theorem tally_region (opening closing : String) (content : List Item) :
    (Expr.delimited opening closing content).tally p
      = [Piece.region opening closing (firstSeparator? content) (separatorCount content + 1)].count p
        + tallyOfItems p content := by
  rw [← tally_nodesOfItems, ← List.count_append]
  rfl

/-- An array counts as itself and the expressions in its cells. -/
theorem tally_grid (alignments : List Alignment) (rows : List Row) :
    (Expr.array alignments rows).tally p
      = [Piece.grid alignments.length (rows.map List.length)].count p
        + (rows.map fun row => (row.map fun cell => (cell.map (Expr.tally p)).sum).sum).sum := by
  rw [← tally_nodesOfRows, ← List.count_append]
  rfl

end Formula

/-! ## Counting in markup -/

/-- How often a piece occurs in an element. -/
def Xml.Element.tally (p : Piece) (e : Element) : Nat := e.pieces.count p

/-- How often a piece occurs in elements in a row. -/
def tallyOf (p : Piece) (written : List Element) : Nat := (written.map (Element.tally p)).sum

section Markup

variable {p : Piece}

open Markup

@[simp] theorem tallyOf_nil : tallyOf p [] = 0 := rfl

@[simp] theorem tallyOf_cons (e : Element) (rest : List Element) :
    tallyOf p (e :: rest) = e.tally p + tallyOf p rest := by
  simp [tallyOf]

@[simp] theorem tallyOf_append (front back : List Element) :
    tallyOf p (front ++ back) = tallyOf p front + tallyOf p back := by
  simp [tallyOf]

/-- The elements of a slot are the slot and the elements of its content. -/
theorem elements_slot (name : String) (content : List Element) :
    (slot name content).elements = slot name content :: content.flatMap Element.elements := by
  have inside (content : List Element) :
      Xml.elementsOf (content.map Element.node) = content.flatMap Element.elements := by
    induction content with
    | nil => rfl
    | cons e rest ih => simp [Xml.elementsOf, ih, Element.elements]
  simp [Element.elements, slot, Element.withChildren, Element.math, Element.ofName, Element.node,
    Xml.Node.elements, inside]

/-- The elements right inside a slot are its content. -/
@[simp] theorem childElements_slot (name : String) (content : List Element) :
    (slot name content).childElements = content := by
  induction content with
  | nil => rfl
  | cons e rest ih =>
    simpa [slot, Element.childElements, Element.withChildren, Element.math, Element.ofName,
      Element.node, Node.element?] using ih

@[simp] theorem name_slot (name : String) (content : List Element) :
    (slot name content).name = .math name := rfl

@[simp] theorem name_property (name value : String) :
    (Element.property name value).name = .math name := rfl

@[simp] theorem val?_property (name value : String) :
    (Element.property name value).val? = some value := by
  simp [Element.property, Element.withAttribute, Element.math, Element.ofName, Element.val?]

@[simp] theorem math_eq_math_iff (first second : String) :
    Name.math first = Name.math second ↔ first = second := by
  simp [Name.math]

@[simp] theorem localName_math (name : String) : (Name.math name).localName = name := rfl

/-- A slot counts as what it is itself and its content. -/
theorem tally_slot (name : String) (content : List Element) :
    (slot name content).tally p
      = (slot name content).piece?.toList.count p + tallyOf p content := by
  have inside (content : List Element) :
      ((content.flatMap Element.elements).filterMap Element.piece?).count p
        = tallyOf p content := by
    induction content with
    | nil => rfl
    | cons e rest ih => simp [ih, Element.tally, Element.pieces]
  rw [Element.tally, Element.pieces, elements_slot, List.filterMap_cons, ← inside]
  cases (slot name content).piece? with
  | none => simp
  | some piece => simp [List.count_cons, Nat.add_comm]

/-- The names of elements that show a piece. -/
def pieceNames : List String := ["t", "chr", "d", "m"]

/-- A slot that shows no piece itself. -/
theorem tally_plain {name : String} (h : name ∉ pieceNames) (content : List Element) :
    (slot name content).tally p = tallyOf p content := by
  have hnone : (slot name content).piece? = none := by
    simp [pieceNames] at h
    simp [Element.piece?, h]
  simp [tally_slot, hnone]

/-- A property that shows no piece. -/
theorem tally_property {name : String} (h : name ∉ pieceNames) (value : String) :
    (Element.property name value).tally p = 0 := by
  have hnone : (Element.property name value).piece? = none := by
    simp [pieceNames] at h
    simp [Element.piece?, h]
  have helements : (Element.property name value).elements = [Element.property name value] := rfl
  simp [Element.tally, Element.pieces, helements, hnone]

/-- The character of a construction is a text that is shown. -/
theorem tally_character (glyph : String) :
    (Element.property "chr" glyph).tally p = p.shows glyph := by
  have hpiece : (Element.property "chr" glyph).piece? = some (.glyph glyph) := by
    simp [Element.piece?]
  have helements : (Element.property "chr" glyph).elements = [Element.property "chr" glyph] := rfl
  by_cases heq : p = .glyph glyph <;>
    simp [Element.tally, Element.pieces, helements, hpiece, Piece.shows, heq, eq_comm]

/-- A run is a slot that holds its properties, if it has any, and its text. -/
theorem run_eq_slot (style : RunStyle) (text : String) :
    style.run text = slot "r" ((if style.properties.isEmpty then [] else
      [slot "rPr" style.properties]) ++ [(Element.math "t").withText text]) := by
  unfold RunStyle.run
  dsimp only
  split <;> rfl

/-- A run shows its text. -/
@[simp] theorem tally_run (style : RunStyle) (text : String) :
    (style.run text).tally p = p.shows text := by
  have hproperties : tallyOf p style.properties = 0 := by
    have hnor : (Element.math "nor").tally p = 0 := tally_plain (by decide) []
    obtain ⟨isText, alphabet, face⟩ := style
    cases isText <;> cases alphabet <;> cases face <;>
      simp (disch := decide) [RunStyle.properties, tally_property, hnor]
  have htext : ((Element.math "t").withText text).tally p = p.shows text := by
    have hpiece : ((Element.math "t").withText text).piece? = some (.glyph text) := by
      simp [Element.piece?, Element.withText, Element.math, Element.ofName, Element.textContent,
        Xml.textContentOf, Xml.Node.textContent]
    have helements : ((Element.math "t").withText text).elements
        = [(Element.math "t").withText text] := rfl
    by_cases heq : p = .glyph text <;>
      simp [Element.tally, Element.pieces, helements, hpiece, Piece.shows, heq, eq_comm]
  rw [run_eq_slot, tally_plain (by decide), tallyOf_append]
  split
  · simp [htext]
  · simp (disch := decide) [tally_plain, hproperties, htext]

/-! ## The constructions -/

section Constructions

variable {base lower upper written : List Element}

@[simp] theorem tally_symbol (style : RunStyle) (kind : SymbolClass) (glyph : String) :
    (symbol style kind glyph).tally p = p.shows glyph := by
  unfold symbol
  split <;> simp (disch := decide) [tally_plain, tally_property]

@[simp] theorem tally_sqrt : (sqrt base).tally p = tallyOf p base := by
  simp (disch := decide) [sqrt, tally_plain, tally_property]

@[simp] theorem tally_root : (root upper base).tally p = tallyOf p upper + tallyOf p base := by
  simp (disch := decide) [root, tally_plain]

@[simp] theorem tally_phantom : (phantom base).tally p = tallyOf p base := by
  simp (disch := decide) [phantom, tally_plain, tally_property]

@[simp] theorem tally_boxed : (boxed base).tally p = tallyOf p base := by
  simp (disch := decide) [boxed, tally_plain]

@[simp] theorem tally_cancelled (stroke : Stroke) :
    (cancelled stroke base).tally p = tallyOf p base := by
  have hproperties (names : List String) (h : ∀ name ∈ names, name ∉ pieceNames) :
      tallyOf p (names.map fun name => Element.property name (onOff true)) = 0 := by
    induction names with
    | nil => rfl
    | cons name rest ih =>
      rw [List.forall_mem_cons] at h
      simp [tally_property h.1, ih h.2]
  have hnames : ∀ name ∈ (cancelFlags stroke).propertyNames, name ∉ pieceNames := by
    intro name hname
    obtain ⟨flag, -, rfl⟩ := List.mem_map.mp hname
    cases flag <;> decide
  simp (disch := decide) [cancelled, tally_plain, hproperties _ hnames]

@[simp] theorem tally_subscript :
    (subscript base lower).tally p = tallyOf p base + tallyOf p lower := by
  simp (disch := decide) [subscript, tally_plain]

@[simp] theorem tally_superscript :
    (superscript base upper).tally p = tallyOf p base + tallyOf p upper := by
  simp (disch := decide) [superscript, tally_plain]

@[simp] theorem tally_bothScripts :
    (bothScripts base lower upper).tally p
      = tallyOf p base + tallyOf p lower + tallyOf p upper := by
  simp (disch := decide) [bothScripts, tally_plain, Nat.add_assoc]

@[simp] theorem tally_fraction (style : FractionStyle) :
    (fraction style upper lower).tally p = tallyOf p upper + tallyOf p lower := by
  simp (disch := decide) [fraction, tally_plain, tally_property]

/-- A mark above a base is drawn as a bar, or it is shown by the construction; anything else is
written in a slot of its own. -/
theorem tally_placeAbove (hp : p.Visible) (above : Expr) (h : tallyOf p written = above.tally p) :
    (placeAbove base above written).tally p = tallyOf p base + above.tally p := by
  have hlimit : (upperLimit base written).tally p = tallyOf p base + above.tally p := by
    simp (disch := decide) [upperLimit, tally_plain, h]
  cases above with
  | symbol kind glyph =>
    have hglyph : (Expr.symbol kind glyph).tally p = p.shows glyph := tally_leaf rfl rfl
    simp only [placeAbove]
    split
    · next hbar =>
      have hnone := Piece.shows_bar hp hbar
      simp (disch := decide) [bar, tally_plain, tally_property, hglyph, hnone]
    split
    · simp (disch := decide) [accent, tally_plain, tally_character, hglyph, Nat.add_comm]
    split
    · simp (disch := decide) [groupCharacter, tally_plain, tally_character, tally_property, hglyph,
        Nat.add_comm]
    · exact hlimit
  | _ => exact hlimit

/-- The same below a base. -/
theorem tally_placeBelow (hp : p.Visible) (below : Expr) (h : tallyOf p written = below.tally p) :
    (placeBelow base below written).tally p = tallyOf p base + below.tally p := by
  have hlimit : (lowerLimit base written).tally p = tallyOf p base + below.tally p := by
    simp (disch := decide) [lowerLimit, tally_plain, h]
  cases below with
  | symbol kind glyph =>
    have hglyph : (Expr.symbol kind glyph).tally p = p.shows glyph := tally_leaf rfl rfl
    simp only [placeBelow]
    split
    · next hbar =>
      have hnone := Piece.shows_bar hp hbar
      simp (disch := decide) [bar, tally_plain, tally_property, hglyph, hnone]
    split
    · simp (disch := decide) [accent, tally_plain, tally_character, hglyph, Nat.add_comm]
    split
    · simp (disch := decide) [groupCharacter, tally_plain, tally_character, tally_property, hglyph,
        Nat.add_comm]
    · exact hlimit
  | _ => exact hlimit

/-- A large operator shows its glyph, its limits and its operand. -/
theorem tally_nary (glyph : String) (location : LimitLocation)
    (lower upper : Option (List Element)) (operand : List Element) :
    (nary glyph location lower upper operand).tally p
      = p.shows glyph + tallyOf p (lower.getD []) + tallyOf p (upper.getD [])
        + tallyOf p operand := by
  simp (disch := decide) [nary, tally_plain, tally_character, tally_property, Nat.add_assoc]

/-- Slots of the same name count as what they hold. -/
theorem tallyOf_slots (parts : List (List Element)) :
    tallyOf p (parts.map (slot "e")) = (parts.map (tallyOf p)).sum := by
  induction parts with
  | nil => rfl
  | cons part rest ih => simp (disch := decide) [tally_plain, ih]

/-- The slots in a construction are counted by their name. -/
theorem countOf_slots (name : String) (parts : List (List Element)) :
    (slot name (parts.map (slot "e"))).countOf "e" = parts.length := by
  simp [Element.countOf, List.countP_map, Function.comp_def]

/-- Another slot in front of the parts is not counted among them. -/
theorem countOf_cons_slots {name front : String} (hfront : front ≠ "e")
    (properties : List Element) (parts : List (List Element)) :
    (slot name (slot front properties :: parts.map (slot "e"))).countOf "e" = parts.length := by
  simp [Element.countOf, List.countP_map, Function.comp_def, hfront]

/-- A delimited region is a piece of its own, and holds its parts. -/
theorem tally_delimited (opening closing : String) (separator : Option String)
    (parts : List (List Element)) :
    (delimited opening closing separator parts).tally p
      = [Piece.region opening closing separator parts.length].count p
        + (parts.map (tallyOf p)).sum := by
  have hpiece : (delimited opening closing separator parts).piece?
      = some (.region opening closing separator parts.length) := by
    have hcount (properties : List Element) :
        (slot "d" (slot "dPr" properties :: parts.map (slot "e"))).countOf "e" = parts.length :=
      countOf_cons_slots (by decide) properties parts
    cases separator <;>
      simp [delimited, Element.piece?, Element.setting?, Element.child?, hcount]
  unfold delimited at hpiece ⊢
  rw [tally_slot, hpiece, tallyOf_cons, tallyOf_slots]
  cases separator <;> simp (disch := decide) [tally_plain, tally_property]

/-- An array is a piece of its own, and holds its cells. -/
theorem tally_array (alignments : List Alignment) (rows : List (List (List Element))) :
    (array alignments rows).tally p
      = [Piece.grid alignments.length (rows.map List.length)].count p
        + (rows.map fun row => (row.map (tallyOf p)).sum).sum := by
  have hpiece : (array alignments rows).piece?
      = some (.grid alignments.length (rows.map List.length)) := by
    have hfilter (name : String) (properties : List Element) (hname : name ≠ "mr") :
        (slot name properties :: rows.map fun cells => slot "mr" (cells.map (slot "e"))).filter
            (·.name = .math "mr") = rows.map fun cells => slot "mr" (cells.map (slot "e")) := by
      simp [hname, List.filter_eq_self]
    cases alignments with
    | nil =>
      simp [array, Element.piece?, Element.child?, hfilter, countOf_slots]
    | cons alignment rest =>
      simp [array, Element.piece?, Element.child?, hfilter, Element.countOf]
  have hrows : tallyOf p (rows.map fun cells => slot "mr" (cells.map (slot "e")))
      = (rows.map fun row => (row.map (tallyOf p)).sum).sum := by
    clear hpiece
    induction rows with
    | nil => rfl
    | cons row rest ih => simp (disch := decide) [tally_plain, tallyOf_slots, ih]
  have hcolumns (column : Alignment → Element) (h : ∀ a, (column a).tally p = 0) :
      tallyOf p (alignments.map column) = 0 := by
    clear hpiece hrows
    induction alignments with
    | nil => rfl
    | cons alignment rest ih => simp [h, ih]
  have hproperties (columns : List Element) (h : tallyOf p columns = 0) :
      (slot "mPr" ([.property "baseJc" (alignmentCode .center), .property "plcHide" (onOff true)]
        ++ columns)).tally p = 0 := by
    simp (disch := decide) [tally_plain, tally_property, h]
  unfold array at hpiece ⊢
  rw [tally_slot, hpiece, tallyOf_cons, hrows, hproperties]
  · simp
  · split
    · rfl
    · rw [tallyOf_cons, tally_plain (by decide), hcolumns]
      · rfl
      · simp (disch := decide) [tally_plain, tally_property]

end Constructions

end Markup

/-! ## Counting what is written -/

section Write

variable {p : Piece} {display : Display}

/-- A bare n-ary operator is the symbol with its glyph. -/
theorem eq_symbol_of_naryGlyph? {e : Expr} {glyph : String} (h : e.naryGlyph? = some glyph) :
    e = .symbol .operator glyph := by
  cases e with
  | symbol kind shown =>
    simp only [Expr.naryGlyph?, Option.ite_none_right_eq_some, Bool.and_eq_true,
      decide_eq_true_eq, Option.some.injEq] at h
    obtain ⟨⟨rfl, -⟩, rfl⟩ := h
    rfl
  | _ => cases h

/-- The base of an n-ary operator has one piece, the glyph. -/
theorem tally_naryBase {base : Expr} {location : String → Markup.LimitLocation} {head : NaryHead}
    (h : (base.naryGlyph?.map fun glyph => (⟨glyph, location glyph⟩ : NaryHead)) = some head) :
    base.tally p = p.shows head.glyph := by
  obtain ⟨glyph, hglyph, rfl⟩ := Option.map_eq_some_iff.mp h
  rw [eq_symbol_of_naryGlyph? hglyph]
  exact tally_leaf rfl rfl

/-- A limit that is not shown has no piece. -/
theorem tally_shownLimit {limit : Expr} {written : List Element}
    (h : tallyOf p written = limit.tally p) :
    tallyOf p ((shownLimit limit written).getD []) = limit.tally p := by
  unfold shownLimit
  split
  · next hempty =>
    match limit, hempty with
    | .group [], _ => rfl
  · exact h

/-- The pieces that an expression has as an n-ary operator: the glyph and the limits. -/
def limitsTally (p : Piece) (limits : Option (List Element) × Option (List Element)) : Nat :=
  tallyOf p (limits.1.getD []) + tallyOf p (limits.2.getD [])

/-- If every member shows what it holds, so does the list of them. -/
theorem tally_writeAll {style : RunStyle} {members : List Expr}
    (h : ∀ e ∈ members, tallyOf p (write display style e) = e.tally p) :
    tallyOf p (writeAll display style members) = (members.map (Expr.tally p)).sum := by
  induction members with
  | nil => rfl
  | cons e rest ih =>
    rw [List.forall_mem_cons] at h
    simp [writeAll, h.1, ih h.2]

/-- The parts of a delimited region are one more than its separators. -/
theorem length_writeParts (style : RunStyle) (content : List Item) :
    (writeParts display style content).2.length = separatorCount content := by
  induction content with
  | nil => rfl
  | cons item rest ih => cases item <;> simp [writeParts, separatorCount, ih]

/-- The parts of a delimited region together hold what the region holds. -/
theorem tally_writeParts {style : RunStyle} {content : List Item}
    (h : ∀ e, Item.expr e ∈ content → tallyOf p (write display style e) = e.tally p) :
    tallyOf p (writeParts display style content).1
        + ((writeParts display style content).2.map (tallyOf p)).sum
      = tallyOfItems p content := by
  induction content with
  | nil => rfl
  | cons item rest ih =>
    have hrest := ih fun e he => h e (List.mem_cons_of_mem _ he)
    cases item with
    | separator glyph => simp [writeParts, tallyOfItems, hrest]
    | expr e =>
      have hfirst := h e List.mem_cons_self
      simp only [writeParts, tallyOfItems, tallyOf_append, hfirst, ← hrest, Nat.add_assoc]

/-- **What is written has the pieces of the expression.**  So has what is written of an n-ary
operator, its glyph and its limits. -/
theorem tally_write (hp : p.Visible) (e : Expr) (style : RunStyle) :
    tallyOf p (write display style e) = e.tally p ∧
      ∀ head, e.naryHead? display = some head →
        p.shows head.glyph + limitsTally p (writeLimits display style e) = e.tally p := by
  induction e generalizing style with
  | number shown | text _ shown | operatorName shown =>
    refine ⟨?_, by intro head hhead; cases hhead⟩
    rw [tally_leaf rfl rfl]
    simp [write]
  | identifier shown =>
    refine ⟨?_, by intro head hhead; cases hhead⟩
    rw [tally_leaf rfl rfl]
    simp only [write]
    split
    · next hempty =>
      rw [String.isEmpty_iff] at hempty
      have hblank : p.shows zeroWidthSpace = 0 := Piece.shows_blank hp (by decide)
      simp [hempty, hblank, Piece.shows_empty hp]
    · simp
  | symbol kind glyph =>
    have hglyph : (Expr.symbol kind glyph).tally p = p.shows glyph := tally_leaf rfl rfl
    refine ⟨by simp [write, hglyph], fun head hhead => ?_⟩
    rw [tally_naryBase hhead]
    simp [limitsTally, writeLimits]
  | space width =>
    have hblank : spaceGlyph width ∈ blankGlyphs := by
      unfold spaceGlyph
      repeat' split
      all_goals simp [blankGlyphs]
    have hnone := Piece.shows_blank hp hblank
    have hspace : (Expr.space width).tally p = 0 := rfl
    refine ⟨?_, by intro head hhead; cases hhead⟩
    simp [write, hnone, hspace]
  | group members ih =>
    refine ⟨?_, by intro head hhead; cases hhead⟩
    rw [tally_members rfl rfl]
    rcases members with _ | ⟨first, _ | ⟨second, _ | ⟨third, rest⟩⟩⟩
    · have hblank : p.shows zeroWidthSpace = 0 := Piece.shows_blank hp (by decide)
      simp [write, writeGroup, hblank]
    · simpa [write, writeGroup] using (ih first (by simp) style).1
    · obtain ⟨hfirst, hhead⟩ := ih first (by simp) style
      have hsecond := (ih second (by simp) style).1
      simp only [write, writeGroup]
      split
      · next head hsome =>
        have hlimits := hhead head hsome
        simp only [limitsTally] at hlimits
        simp [tally_nary, hsecond, ← hlimits, Nat.add_assoc]
      · simp [hfirst, hsecond]
    · have all := tally_writeAll fun e he => (ih e he style).1
      simpa [write, writeGroup, writeAll, Nat.add_assoc] using all
  | sqrt base ih | phantom inner ih | boxed inner ih | cancel stroke inner ih =>
    refine ⟨?_, by intro head hhead; cases hhead⟩
    rw [tally_one rfl rfl]
    simp [write, (ih style).1]
  | scaled factor inner ih =>
    refine ⟨?_, by intro head hhead; cases hhead⟩
    rw [tally_one rfl rfl]
    exact (ih style).1
  | root first second ihFirst ihSecond | fraction kind first second ihFirst ihSecond =>
    refine ⟨?_, by intro head hhead; cases hhead⟩
    rw [tally_two rfl rfl]
    simp [write, (ihFirst style).1, (ihSecond style).1]
  | sub base lower ihBase ihLower =>
    have hbase := (ihBase style).1
    have hlower := (ihLower style).1
    rw [tally_two rfl rfl]
    refine ⟨by simp [write, hbase, hlower], fun head hhead => ?_⟩
    simp [limitsTally, writeLimits, tally_shownLimit hlower, tally_naryBase hhead]
  | super base upper ihBase ihUpper =>
    have hbase := (ihBase style).1
    have hupper := (ihUpper style).1
    rw [tally_two rfl rfl]
    refine ⟨by simp [write, hbase, hupper], fun head hhead => ?_⟩
    simp [limitsTally, writeLimits, tally_shownLimit hupper, tally_naryBase hhead]
  | subSup base lower upper ihBase ihLower ihUpper =>
    have hbase := (ihBase style).1
    have hlower := (ihLower style).1
    have hupper := (ihUpper style).1
    rw [tally_three rfl rfl]
    refine ⟨by simp [write, hbase, hlower, hupper], fun head hhead => ?_⟩
    simp [limitsTally, writeLimits, tally_shownLimit hlower, tally_shownLimit hupper,
      tally_naryBase hhead, Nat.add_assoc]
  | «over» movable base above ihBase ihAbove =>
    have hbase := (ihBase style).1
    have habove := (ihAbove style).1
    rw [tally_two rfl rfl]
    refine ⟨?_, fun head hhead => ?_⟩
    · simp only [write]
      split
      · simp [hbase, habove]
      · simp [tally_placeAbove hp above habove, hbase]
    · simp [limitsTally, writeLimits, tally_shownLimit habove, tally_naryBase hhead]
  | under movable base below ihBase ihBelow =>
    have hbase := (ihBase style).1
    have hbelow := (ihBelow style).1
    rw [tally_two rfl rfl]
    refine ⟨?_, fun head hhead => ?_⟩
    · simp only [write]
      split
      · simp [hbase, hbelow]
      · simp [tally_placeBelow hp below hbelow, hbase]
    · simp [limitsTally, writeLimits, tally_shownLimit hbelow, tally_naryBase hhead]
  | underOver movable base below above ihBase ihBelow ihAbove =>
    have hbase := (ihBase style).1
    have hbelow := (ihBelow style).1
    have habove := (ihAbove style).1
    rw [tally_three rfl rfl]
    refine ⟨?_, fun head hhead => ?_⟩
    · simp only [write]
      split
      · simp [hbase, hbelow, habove]
      · simp [tally_placeAbove hp above habove, tally_placeBelow hp below hbelow,
          hbase]
    · simp [limitsTally, writeLimits, tally_shownLimit hbelow, tally_shownLimit habove,
        tally_naryBase hhead, Nat.add_assoc]
  | delimited opening closing content ih =>
    refine ⟨?_, by intro head hhead; cases hhead⟩
    have hparts := tally_writeParts fun e he => (ih e he style).1
    simp [write, tally_delimited, tally_region, length_writeParts, hparts]
  | array alignments rows ih =>
    refine ⟨?_, by intro head hhead; cases hhead⟩
    have hcells (row : Row) (hrow : row ∈ rows) :
        row.map (fun cell => tallyOf p (writeAll display style cell))
          = row.map fun cell => (cell.map (Expr.tally p)).sum :=
      List.map_congr_left fun cell hcell =>
        tally_writeAll fun e he => (ih row hrow cell hcell e he style).1
    have hrows := List.map_congr_left fun row hrow => congrArg List.sum (hcells row hrow)
    simp [write, tally_array, tally_grid, writeRows_eq_map, writeCells_eq_map, Function.comp_def,
      hrows]
  | styled inner members ih =>
    refine ⟨?_, by intro head hhead; cases hhead⟩
    rw [tally_members rfl rfl]
    exact tally_writeAll fun e he => (ih e he (style.within inner)).1

/-- Pairing n-ary operators with their operands neither loses a member of a formula nor repeats
one. -/
theorem tally_writeMembers (hp : p.Visible) (formula : Formula) :
    tallyOf p (writeMembers display formula) = (formula.map (Expr.tally p)).sum := by
  have hwrite (e : Expr) : tallyOf p (write display .default e) = e.tally p :=
    (tally_write hp e .default).1
  have happlied {e : Expr} {head : NaryHead} (h : e.naryHead? display = some head)
      (operand : Expr) :
      tallyOf p (Member.write display (.applied head e operand)) = e.tally p + operand.tally p := by
    have hlimits := (tally_write hp e .default).2 head h
    simp only [limitsTally] at hlimits
    simp [Member.write, tally_nary, hwrite, ← hlimits, Nat.add_assoc]
  have hsingle (e : Expr) : tallyOf p (Member.write display (.single e)) = e.tally p := hwrite e
  unfold writeMembers
  induction formula using pairOperands.induct display with
  | case1 => rfl
  | case2 e head hhead =>
    have hempty : Expr.empty.tally p = 0 := rfl
    simp [pairOperands, hhead, happlied hhead, hempty]
  | case3 e hhead => simp [pairOperands, hhead, hsingle]
  | case4 e next rest head hhead ih =>
    simp [pairOperands, hhead, happlied hhead, ih, Nat.add_assoc]
  | case5 e next rest hhead ih =>
    rw [List.map_cons] at ih
    simp [pairOperands, hhead, hsingle, ih]

end Write

/-- **A formula and its markup have the same pieces**, each as often in the one as in the other. -/
theorem count_pieces {p : Piece} (hp : p.Visible) (display : Display) (formula : Formula) :
    (writeFormula display formula).pieces.count p = (piecesOf formula).count p := by
  have hmath : (Markup.math (writeMembers display formula)).tally p
      = (formula.map (Expr.tally p)).sum := by
    rw [← tally_writeMembers hp]
    exact tally_plain (by decide) _
  rw [piecesOf, tally_nodesOf, ← hmath]
  cases display with
  | inline => rfl
  | block =>
    show (Markup.mathParagraph (Markup.math (writeMembers .block formula))).tally p
      = (Markup.math (writeMembers .block formula)).tally p
    simp (disch := decide) [Markup.mathParagraph, tally_plain, tally_property]

/-! ## Texts -/

/-- A node is a piece of text if it is a leaf with this text. -/
theorem piece?_eq_glyph_iff {e : Expr} {text : String} :
    e.piece? = some (.glyph text) ↔ e.leafText? = some text := by
  cases e <;> simp [Expr.piece?, Expr.leafText?]

/-- An element shows a piece of text as the text of a run or as the character of a construction. -/
theorem elementPiece?_eq_glyph_iff {e : Element} {text : String} :
    e.piece? = some (.glyph text) ↔
      (e.name = .math "t" ∧ e.textContent = text) ∨ (e.name = .math "chr" ∧ e.val? = some text) := by
  unfold Element.piece?
  split
  · next h => simp [h]
  split
  · next h => simp [h]
  split
  · next h => simp [h, Option.bind_eq_some_iff]
  split
  · next h => simp [h]
  · next ht hchr _ _ => simp [ht, hchr]

/-- How often a text occurs among the pieces of nodes. -/
theorem count_glyph_nodes (nodes : List Expr) (text : String) :
    (nodes.filterMap Expr.piece?).count (.glyph text)
      = nodes.countP fun e => e.leafText? = some text := by
  rw [List.count_filterMap]
  exact List.countP_congr fun e _ => by simp [piece?_eq_glyph_iff]

/-- How often a text occurs among the pieces of elements. -/
theorem count_glyph_elements (elements : List Element) (text : String) :
    (elements.filterMap Element.piece?).count (.glyph text)
      = elements.countP (fun e => e.name = .math "t" ∧ e.textContent = text)
        + elements.countP (fun e => e.name = .math "chr" ∧ e.val? = some text) := by
  rw [List.count_filterMap]
  induction elements with
  | nil => rfl
  | cons e rest ih =>
    simp only [List.countP_cons, ih, beq_iff_eq, elementPiece?_eq_glyph_iff, decide_eq_true_eq]
    by_cases ht : e.name = .math "t"
    · simp only [ht, math_eq_math_iff, String.reduceEq, true_and, false_and, or_false, if_false]
      omega
    · simp only [ht, false_and, false_or, if_false]
      omega

/-- **The writer neither loses nor repeats content.**  A text that is neither a bar nor one of the
blanks that the writer makes up is the text of as many leaves of a formula, at all depths, as there
are texts of runs and characters of constructions with this value in its markup. -/
theorem count_leaves_eq_count_shown (display : Display) (formula : Formula) {text : String}
    (hempty : text ≠ "") (hbar : text ∉ barGlyphs) (hblank : text ∉ blankGlyphs) :
    (nodesOf formula).countP (fun e => e.leafText? = some text)
      = (writeFormula display formula).elements.countP
          (fun e => e.name = .math "t" ∧ e.textContent = text)
        + (writeFormula display formula).elements.countP
          (fun e => e.name = .math "chr" ∧ e.val? = some text) := by
  have hvisible : (Piece.glyph text).Visible := by
    rintro shown ⟨⟩
    exact ⟨hempty, hbar, hblank⟩
  rw [← count_glyph_nodes, ← count_glyph_elements]
  exact (count_pieces hvisible display formula).symm

/-- A sum over an accented letter shows the sign as the character of the operator, which the limit
shows once more. -/
theorem count_leaves_eq_count_shown_sum :
    let formula : Formula := [.under true (.symbol .operator "∑") (.text .normal "∑"),
      .over false (.identifier "x") (.symbol .accent "∑")]
    "∑" ≠ "" ∧ "∑" ∉ barGlyphs ∧ "∑" ∉ blankGlyphs ∧
      (nodesOf formula).countP (fun e => e.leafText? = some "∑")
        = (writeFormula .block formula).elements.countP
            (fun e => e.name = .math "t" ∧ e.textContent = "∑")
          + (writeFormula .block formula).elements.countP
            (fun e => e.name = .math "chr" ∧ e.val? = some "∑") := by
  intro formula
  have hempty : "∑" ≠ "" := by decide
  have hbar : "∑" ∉ barGlyphs := by decide
  have hblank : "∑" ∉ blankGlyphs := by decide
  exact ⟨hempty, hbar, hblank, count_leaves_eq_count_shown .block formula hempty hbar hblank⟩

end OfficeMath
