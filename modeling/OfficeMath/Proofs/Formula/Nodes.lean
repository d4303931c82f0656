import OfficeMath.Formula.Basic

/-!
# The nodes of an expression

Expressions nest through lists: the members of a group, the items of a delimited region, the
cells of the rows of an array.  What holds of an expression because it holds of its parts is
proved here once, so that no later proof has to walk through these lists again.

* `Expr.nestedInduction` — induction over an expression, with a hypothesis for every expression
  in one of its lists;
* `Expr.nodes` — the expression and all expressions inside it, at any depth;
* `Expr.mapNodes` — the expression with every node rewritten, from the leaves up.
-/

namespace OfficeMath

/-- Induction over an expression.  The parts that stand in a list all have a hypothesis. -/
@[elab_as_elim, induction_eliminator]
theorem Expr.nestedInduction {motive : Expr → Prop}
    (number : ∀ text, motive (.number text))
    (identifier : ∀ text, motive (.identifier text))
    (symbol : ∀ kind glyph, motive (.symbol kind glyph))
    (text : ∀ style text, motive (.text style text))
    (space : ∀ width, motive (.space width))
    (operatorName : ∀ name, motive (.operatorName name))
    (group : ∀ members, (∀ e ∈ members, motive e) → motive (.group members))
    (sqrt : ∀ base, motive base → motive (.sqrt base))
    (root : ∀ index base, motive index → motive base → motive (.root index base))
    (phantom : ∀ inner, motive inner → motive (.phantom inner))
    (boxed : ∀ inner, motive inner → motive (.boxed inner))
    (cancel : ∀ stroke inner, motive inner → motive (.cancel stroke inner))
    (scaled : ∀ factor inner, motive inner → motive (.scaled factor inner))
    (sub : ∀ base lower, motive base → motive lower → motive (.sub base lower))
    (super : ∀ base upper, motive base → motive upper → motive (.super base upper))
    (subSup : ∀ base lower upper, motive base → motive lower → motive upper →
      motive (.subSup base lower upper))
    (fraction : ∀ style numerator denominator, motive numerator → motive denominator →
      motive (.fraction style numerator denominator))
    («over» : ∀ movable base above, motive base → motive above →
      motive (.over movable base above))
    (under : ∀ movable base below, motive base → motive below → motive (.under movable base below))
    (underOver : ∀ movable base below above, motive base → motive below → motive above →
      motive (.underOver movable base below above))
    (delimited : ∀ opening closing content, (∀ e, Item.expr e ∈ content → motive e) →
      motive (.delimited opening closing content))
    (array : ∀ alignments rows, (∀ row ∈ rows, ∀ cell ∈ row, ∀ e ∈ cell, motive e) →
      motive (.array alignments rows))
    (styled : ∀ style members, (∀ e ∈ members, motive e) → motive (.styled style members))
    (e : Expr) : motive e := by
  refine @Expr.rec motive (fun item => ∀ e, item = .expr e → motive e)
    (fun members => ∀ e ∈ members, motive e)
    (fun content => ∀ item ∈ content, ∀ e, item = .expr e → motive e)
    (fun rows => ∀ row ∈ rows, ∀ cell ∈ row, ∀ e ∈ cell, motive e)
    (fun row => ∀ cell ∈ row, ∀ e ∈ cell, motive e)
    number identifier symbol text space operatorName group sqrt root phantom boxed cancel scaled
    sub super subSup fraction «over» under underOver ?delimited array styled ?separator ?expr
    ?noMember ?members ?noItem ?items ?noRow ?rows ?noCell ?cells e
  case delimited =>
    intro opening closing content ih
    exact delimited opening closing content fun e he => ih _ he e rfl
  case separator => simp
  case expr => simp
  case noMember | noItem | noRow | noCell => simp
  all_goals
    intro _ _ head tail
    exact List.forall_mem_cons.mpr ⟨head, tail⟩

mutual

/-- An expression and all expressions inside it, each before its parts. -/
def Expr.nodes : Expr → List Expr
  | e@(.number _) | e@(.identifier _) | e@(.symbol _ _) | e@(.text _ _) | e@(.space _)
  | e@(.operatorName _) => [e]
  | e@(.group members) | e@(.styled _ members) => e :: nodesOf members
  | e@(.sqrt inner) | e@(.phantom inner) | e@(.boxed inner) | e@(.cancel _ inner)
  | e@(.scaled _ inner) => e :: inner.nodes
  | e@(.root first second) | e@(.sub first second) | e@(.super first second)
  | e@(.fraction _ first second) | e@(.over _ first second) | e@(.under _ first second) =>
    e :: (first.nodes ++ second.nodes)
  | e@(.subSup first second third) | e@(.underOver _ first second third) =>
    e :: (first.nodes ++ second.nodes ++ third.nodes)
  | e@(.delimited _ _ content) => e :: nodesOfItems content
  | e@(.array _ rows) => e :: nodesOfRows rows

/-- The nodes of all expressions in a list. -/
def nodesOf : List Expr → List Expr
  | [] => []
  | e :: rest => e.nodes ++ nodesOf rest

/-- The nodes of all expressions in a delimited region. -/
def nodesOfItems : List Item → List Expr
  | [] => []
  | .separator _ :: rest => nodesOfItems rest
  | .expr e :: rest => e.nodes ++ nodesOfItems rest

/-- The nodes of all expressions in the rows of an array. -/
def nodesOfRows : List (List (List Expr)) → List Expr
  | [] => []
  | row :: rest => nodesOfCells row ++ nodesOfRows rest

/-- The nodes of all expressions in the cells of a row. -/
def nodesOfCells : List (List Expr) → List Expr
  | [] => []
  | cell :: rest => nodesOf cell ++ nodesOfCells rest

end

/-- The separators of a delimited region. -/
def separatorsOf (content : List Item) : List String :=
  content.filterMap fun
    | .separator glyph => some glyph
    | .expr _ => none

/-- The texts that an expression shows itself, apart from those of the expressions inside it. -/
def Expr.ownTexts : Expr → List String
  | .number shown | .identifier shown | .symbol _ shown | .text _ shown | .operatorName shown =>
    [shown]
  | .delimited opening closing content => opening :: closing :: separatorsOf content
  | _ => []

mutual

/-- An expression with every node replaced by `f` of it, the parts of a node before the node. -/
def Expr.mapNodes (f : Expr → Expr) : Expr → Expr
  | .number text => f (.number text)
  | .identifier text => f (.identifier text)
  | .symbol kind glyph => f (.symbol kind glyph)
  | .text style text => f (.text style text)
  | .space width => f (.space width)
  | .operatorName name => f (.operatorName name)
  | .group members => f (.group (mapMembers f members))
  | .sqrt base => f (.sqrt (base.mapNodes f))
  | .root index base => f (.root (index.mapNodes f) (base.mapNodes f))
  | .phantom inner => f (.phantom (inner.mapNodes f))
  | .boxed inner => f (.boxed (inner.mapNodes f))
  | .cancel stroke inner => f (.cancel stroke (inner.mapNodes f))
  | .scaled factor inner => f (.scaled factor (inner.mapNodes f))
  | .sub base lower => f (.sub (base.mapNodes f) (lower.mapNodes f))
  | .super base upper => f (.super (base.mapNodes f) (upper.mapNodes f))
  | .subSup base lower upper =>
    f (.subSup (base.mapNodes f) (lower.mapNodes f) (upper.mapNodes f))
  | .fraction style numerator denominator =>
    f (.fraction style (numerator.mapNodes f) (denominator.mapNodes f))
  | .over movable base above => f (.over movable (base.mapNodes f) (above.mapNodes f))
  | .under movable base below => f (.under movable (base.mapNodes f) (below.mapNodes f))
  | .underOver movable base below above =>
    f (.underOver movable (base.mapNodes f) (below.mapNodes f) (above.mapNodes f))
  | .delimited opening closing content => f (.delimited opening closing (mapItems f content))
  | .array alignments rows => f (.array alignments (mapRows f rows))
  | .styled style members => f (.styled style (mapMembers f members))

/-- The members of a list with their nodes replaced. -/
def mapMembers (f : Expr → Expr) : List Expr → List Expr
  | [] => []
  | e :: rest => e.mapNodes f :: mapMembers f rest

/-- The items of a delimited region with their nodes replaced. -/
def mapItems (f : Expr → Expr) : List Item → List Item
  | [] => []
  | .separator glyph :: rest => .separator glyph :: mapItems f rest
  | .expr e :: rest => .expr (e.mapNodes f) :: mapItems f rest

/-- The rows of an array with their nodes replaced. -/
def mapRows (f : Expr → Expr) : List (List (List Expr)) → List (List (List Expr))
  | [] => []
  | row :: rest => mapCells f row :: mapRows f rest

/-- The cells of a row with their nodes replaced. -/
def mapCells (f : Expr → Expr) : List (List Expr) → List (List Expr)
  | [] => []
  | cell :: rest => mapMembers f cell :: mapCells f rest

end

/-- The nodes of a list are those of its members in a row. -/
theorem nodesOf_eq_flatMap (members : List Expr) :
    nodesOf members = members.flatMap Expr.nodes := by
  induction members with
  | nil => rfl
  | cons e rest ih => simp [nodesOf, ih]

/-! ## What holds of all nodes -/

/-- A property holds of an expression and of all expressions inside it. -/
def Expr.Throughout (N : Expr → Prop) (e : Expr) : Prop := ∀ node ∈ e.nodes, N node

section Throughout

variable {N : Expr → Prop}

/-- A property holds of the nodes of a list if it holds throughout its members. -/
theorem forall_nodesOf {members : List Expr} :
    (∀ node ∈ nodesOf members, N node) ↔ ∀ e ∈ members, e.Throughout N := by
  rw [nodesOf_eq_flatMap, List.forall_mem_flatMap]
  rfl

/-- The nodes of the content of a region are those of its expressions. -/
theorem forall_nodesOfItems {content : List Item} :
    (∀ node ∈ nodesOfItems content, N node) ↔ ∀ e, Item.expr e ∈ content → e.Throughout N := by
  induction content with
  | nil => simp [nodesOfItems]
  | cons item rest ih =>
    cases item with
    | separator glyph => simpa [nodesOfItems] using ih
    | expr e =>
      rw [nodesOfItems, List.forall_mem_append, ih]
      constructor
      · rintro ⟨hfirst, hothers⟩ e' he'
        rcases List.mem_cons.mp he' with heq | hmem
        · obtain rfl : e' = e := Item.expr.inj heq
          exact hfirst
        · exact hothers e' hmem
      · intro h
        exact ⟨h e List.mem_cons_self, fun e' he' => h e' (List.mem_cons_of_mem _ he')⟩

/-- The nodes of a row are those of the members of its cells. -/
theorem forall_nodesOfCells {row : Row} :
    (∀ node ∈ nodesOfCells row, N node) ↔ ∀ cell ∈ row, ∀ e ∈ cell, e.Throughout N := by
  induction row with
  | nil => simp [nodesOfCells]
  | cons cell rest ih =>
    rw [nodesOfCells, List.forall_mem_append, forall_nodesOf, ih, List.forall_mem_cons]

/-- The nodes of an array are those of its rows. -/
theorem forall_nodesOfRows {rows : List Row} :
    (∀ node ∈ nodesOfRows rows, N node) ↔
      ∀ row ∈ rows, ∀ cell ∈ row, ∀ e ∈ cell, e.Throughout N := by
  induction rows with
  | nil => simp [nodesOfRows]
  | cons row rest ih =>
    rw [nodesOfRows, List.forall_mem_append, forall_nodesOfCells, ih, List.forall_mem_cons]

namespace Expr

/-- A property holds throughout a leaf if it holds of the leaf. -/
theorem throughout_leaf {e : Expr} (h : e.nodes = [e]) : e.Throughout N ↔ N e := by
  rw [Throughout, h, List.forall_mem_singleton]

/-- A property holds throughout an expression if it holds of its own node and throughout its
parts, however many these are and wherever they stand. -/
theorem throughout_part {e part : Expr} (h : e.nodes = e :: part.nodes) :
    e.Throughout N ↔ N e ∧ part.Throughout N := by
  rw [Throughout, h, List.forall_mem_cons]
  rfl

/-- A node over two parts. -/
theorem throughout_parts {e first second : Expr}
    (h : e.nodes = e :: (first.nodes ++ second.nodes)) :
    e.Throughout N ↔ N e ∧ first.Throughout N ∧ second.Throughout N := by
  rw [Throughout, h, List.forall_mem_cons, List.forall_mem_append]
  rfl

/-- A node over three parts. -/
theorem throughout_three {e first second third : Expr}
    (h : e.nodes = e :: (first.nodes ++ second.nodes ++ third.nodes)) :
    e.Throughout N ↔
      N e ∧ first.Throughout N ∧ second.Throughout N ∧ third.Throughout N := by
  rw [Throughout, h, List.forall_mem_cons, List.append_assoc, List.forall_mem_append,
    List.forall_mem_append]
  rfl

/-- A node over a list. -/
theorem throughout_members {e : Expr} {members : List Expr} (h : e.nodes = e :: nodesOf members) :
    e.Throughout N ↔ N e ∧ ∀ member ∈ members, member.Throughout N := by
  rw [Throughout, h, List.forall_mem_cons, forall_nodesOf]

/-- A node over the content of a region. -/
theorem throughout_items {e : Expr} {content : List Item}
    (h : e.nodes = e :: nodesOfItems content) :
    e.Throughout N ↔ N e ∧ ∀ inner, Item.expr inner ∈ content → inner.Throughout N := by
  rw [Throughout, h, List.forall_mem_cons, forall_nodesOfItems]

/-- A node over the rows of an array. -/
theorem throughout_rows {e : Expr} {rows : List Row} (h : e.nodes = e :: nodesOfRows rows) :
    e.Throughout N ↔
      N e ∧ ∀ row ∈ rows, ∀ cell ∈ row, ∀ inner ∈ cell, inner.Throughout N := by
  rw [Throughout, h, List.forall_mem_cons, forall_nodesOfRows]

/-- What holds throughout an expression holds of its own node. -/
theorem Throughout.node {e : Expr} (h : e.Throughout N) : N e := by
  refine h e ?_
  cases e <;> simp [nodes]

end Expr

end Throughout

end OfficeMath
