import OfficeMath.Proofs.Latex.Constructions

/-!
# Arrays are read back from their spelling

The rows of an array are read in steps: an item goes to the cell that has been begun, `&` closes
this cell, a double backslash closes the row, and the end of the environment closes the array.
Each step has its lemma.  They are put together from the inside to the outside, in the order of the
spelling: first the items of a cell, then the cells of a row, then the rows.
-/

namespace OfficeMath

open Nested (unbounded)

namespace Reading

variable {tail : List Char}

/-! ## The name of the environment -/

/-- The name of a matrix is read from its braces. -/
theorem takes_environmentName :
    environmentName?.Takes "{matrix}".toList (some "matrix") tail := by
  have hname : (through? '}').Takes "matrix\x7d".toList (some "matrix".toList) tail :=
    .rest (.advanceLast rfl (.pure _ _))
  refine .layout (layoutLength_cons (by decide) (by decide) _) (.rest ?_)
  exact .cons (.last hname (.pure _ _))

/-! ## Steps -/

/-- The end of an array. -/
theorem takes_rows_end (row : Row) (cell : Cell) :
    (rows unbounded row cell).Takes (control "end" ++ "{matrix}".toList) (rows.last row cell)
      tail := by
  have hname : commandName ("end".toList ++ ("{matrix}".toList ++ tail)) = "end".toList :=
    commandName_word (by decide) (endsName_brace _)
  refine .layout (layoutLength_cons (by decide) (by decide) _) (.rest ?_)
  rw [control_append]
  dsimp only
  rw [if_neg (by decide), if_neg (by decide), if_pos rfl, hname, if_neg (by decide), if_pos rfl]
  exact .advance rfl (.last takes_environmentName (.pure _ _))

/-- The end of a cell. -/
theorem takes_rows_and {row : Row} {cell : Cell} {found : List Row} {text : List Char}
    (h : (unbounded.rows (row ++ [cell]) []).Takes text found tail) :
    (rows unbounded row cell).Takes ('&' :: text) found tail := by
  refine .layout (layoutLength_cons (by decide) (by decide) _) (.rest ?_)
  dsimp only [List.cons_append]
  rw [if_neg (by decide), if_pos rfl]
  exact .cons h

/-- The end of a row. -/
theorem takes_rows_break {row : Row} {cell : Cell} {found : List Row} {text : List Char}
    (h : (unbounded.rows [] []).Takes (' ' :: text) found tail) :
    (rows unbounded row cell).Takes ('\\' :: '\\' :: ' ' :: text) ((row ++ [cell]) :: found)
      tail := by
  have hname : commandName ('\\' :: ' ' :: text ++ tail) = ['\\'] := commandName_cons (by decide) _
  refine .layout (layoutLength_cons (by decide) (by decide) _) (.rest ?_)
  dsimp only [List.cons_append] at hname ⊢
  rw [if_neg (by decide), if_neg (by decide), if_pos rfl, hname, if_pos rfl]
  show Takes _ (['\\', '\\'] ++ ' ' :: text) _ _
  refine .advance rfl (.rest ?_)
  rw [if_neg (by simp)]
  exact .last h (.pure _ _)

/-- An item of a cell. -/
theorem takes_rows_item {row : Row} {cell : Cell} {e : Expr} {found : List Row} {text : List Char}
    (h : e.ReadsBack) (hends : EndsItem (text ++ tail))
    (hothers : (unbounded.rows row (cell ++ [e])).Takes text found tail) :
    (rows unbounded row cell).Takes ((e.source ++ [' ']) ++ text) found tail := by
  have hnext : (rows.next unbounded row cell).Takes ((e.source ++ [' ']) ++ text) found tail :=
    .bind (h.item _ hends) hothers
  have hbegins : BeginsItem ((e.source ++ [' ']) ++ text ++ tail) := by simpa using h.begins _
  obtain ⟨c, after, hahead⟩ := List.exists_cons_of_ne_nil hbegins.nonempty
  refine .layout hbegins.layout (.rest ?_)
  rw [hahead] at hbegins ⊢
  have hbrace : c ≠ '}' := by simpa using hbegins.closer.1
  have hand : c ≠ '&' := by simpa using hbegins.closer.2.2
  dsimp only
  rw [if_neg hbrace, if_neg hand]
  by_cases hc : c = '\\'
  · subst hc
    have hdouble : commandName after ≠ "\\".toList := hbegins.name_ne (by decide)
    have hend : commandName after ≠ "end".toList := hbegins.name_ne (by decide)
    rw [show "\\".toList = ['\\'] from rfl] at hdouble
    rw [if_pos rfl, if_neg hdouble, if_neg hend]
    exact hnext
  · rw [if_neg hc]
    exact hnext

/-- A space before the rows of an array. -/
theorem takes_rows_space {row : Row} {cell : Cell} {found : List Row} {text : List Char}
    (hlayout : layoutLength (text ++ tail) = 0)
    (h : (unbounded.rows row cell).Takes text found tail) :
    (unbounded.rows row cell).Takes (' ' :: text) found tail := by
  rw [Nested.rows_unbounded] at h ⊢
  exact .spaced hlayout h

/-! ## Cells, rows and arrays -/

/-- The items of a cell, and what comes after them. -/
theorem takes_cell {row : Row} {members cell : Cell} {found : List Row} {text : List Char}
    (h : ∀ e ∈ members, e.ReadsBack) (hends : EndsItem (text ++ tail))
    (hothers : (unbounded.rows row (cell ++ members)).Takes text found tail) :
    (unbounded.rows row cell).Takes (sourceOf members ++ text) found tail := by
  induction members generalizing cell with
  | nil => simpa [sourceOf] using hothers
  | cons e rest ih =>
    rw [List.forall_mem_cons] at h
    have hrest : (unbounded.rows row (cell ++ [e])).Takes (sourceOf rest ++ text) found tail :=
      ih h.2 (by simpa using hothers)
    have hnext : EndsItem (sourceOf rest ++ text ++ tail) := by
      rw [List.append_assoc]
      exact endsItem_sourceOf h.2 hends
    rw [Nested.rows_unbounded]
    simpa [sourceOf] using takes_rows_item h.1 hnext hrest

/-- The cells of a row, and what comes after them. -/
theorem takes_cells {row cells : Row} {found : List Row} {text : List Char} (hcells : cells ≠ [])
    (h : ∀ cell ∈ cells, ∀ e ∈ cell, e.ReadsBack) (hends : EndsItem (text ++ tail))
    (hothers : ∀ front last, row ++ cells = front ++ [last] →
      (unbounded.rows front last).Takes text found tail) :
    (unbounded.rows row []).Takes (sourceOfCells cells ++ text) found tail := by
  induction cells generalizing row with
  | nil => exact absurd rfl hcells
  | cons cell rest ih =>
    rw [List.forall_mem_cons] at h
    cases rest with
    | nil =>
      have hlast : (unbounded.rows row ([] ++ cell)).Takes text found tail := hothers row cell rfl
      simpa [sourceOfCells, cellEnd] using takes_cell h.1 hends hlast
    | cons second rest =>
      have hrest : (unbounded.rows (row ++ [cell]) []).Takes
          (sourceOfCells (second :: rest) ++ text) found tail := by
        refine ih (by simp) h.2 fun front last hsplit => hothers front last ?_
        rw [← hsplit]
        simp
      have hcell : (unbounded.rows row ([] ++ cell)).Takes
          ('&' :: (sourceOfCells (second :: rest) ++ text)) found tail := by
        rw [Nested.rows_unbounded]
        exact takes_rows_and hrest
      have hand : EndsItem ('&' :: (sourceOfCells (second :: rest) ++ text) ++ tail) :=
        endsItem_cons (by decide) (by decide) _
      simpa [sourceOfCells, cellEnd] using takes_cell h.1 hand hcell

/-- What ends a row that is not last, or one that would be lost, is a double backslash. -/
theorem rowEnd_cases (row : Row) (rest : List Row) :
    rowEnd row rest = ['\\', '\\', ' '] ∨ (rowEnd row rest = [] ∧ rest = [] ∧ row ≠ [[]]) := by
  unfold rowEnd
  split
  · exact .inl rfl
  · next hrow => exact .inr ⟨rfl, rfl, hrow⟩
  · exact .inl rfl

/-- What follows a row ends an item if what follows it in turn does. -/
theorem endsItem_rowEnd (row : Row) (others : List Row) {rest : List Char} (h : EndsItem rest) :
    EndsItem (rowEnd row others ++ rest) := by
  rcases rowEnd_cases row others with hbreak | ⟨hnone, -, -⟩
  · rw [hbreak]
    exact endsItem_backslashes _
  · rw [hnone]
    exact h

/-- The cells of a row end an item if what follows the row does. -/
theorem endsItem_cells {row : Row} (h : ∀ cell ∈ row, ∀ e ∈ cell, e.ReadsBack) {rest : List Char}
    (hrest : EndsItem rest) : EndsItem (sourceOfCells row ++ rest) := by
  cases row with
  | nil => exact hrest
  | cons cell others =>
    have hcell : EndsItem (cellEnd others ++ sourceOfCells others ++ rest) := by
      cases others with
      | nil => exact hrest
      | cons second others => exact endsItem_cons (by decide) (by decide) _
    rw [sourceOfCells, List.append_assoc]
    exact endsItem_sourceOf (h cell List.mem_cons_self) hcell

/-- The rows of an array end an item, the end of the environment included. -/
theorem endsItem_rows {array : List Row} (h : ∀ row ∈ array, ∀ cell ∈ row, ∀ e ∈ cell, e.ReadsBack)
    (rest : List Char) :
    EndsItem (sourceOfRows array ++ (control "end" ++ "{matrix}".toList) ++ rest) := by
  induction array with
  | nil =>
    rw [sourceOfRows, List.nil_append, List.append_assoc]
    exact endsItem_control (by decide) (by decide) (endsName_brace _)
  | cons row others ih =>
    rw [List.forall_mem_cons] at h
    have hrow := endsItem_cells h.1 (endsItem_rowEnd row others (ih h.2))
    simpa [sourceOfRows] using hrow

/-- The rows of an array are read back together with the end of the environment. -/
theorem takes_rows {array : List Row} (hrows : ∀ row ∈ array, row ≠ [])
    (h : ∀ row ∈ array, ∀ cell ∈ row, ∀ e ∈ cell, e.ReadsBack) :
    (unbounded.rows [] []).Takes (sourceOfRows array ++ (control "end" ++ "{matrix}".toList)) array
      tail := by
  induction array with
  | nil =>
    rw [Nested.rows_unbounded]
    exact takes_rows_end [] []
  | cons row rest ih =>
    rw [List.forall_mem_cons] at hrows h
    have hends := endsItem_rows h.2 tail
    have htext : sourceOfRows (row :: rest) ++ (control "end" ++ "{matrix}".toList)
        = sourceOfCells row ++ (rowEnd row rest ++
          (sourceOfRows rest ++ (control "end" ++ "{matrix}".toList))) := by
      simp [sourceOfRows]
    rw [htext]
    refine takes_cells hrows.1 h.1 ?_ fun front last hsplit => ?_
    · rw [List.append_assoc]
      exact endsItem_rowEnd row rest hends
    · rw [Nested.rows_unbounded]
      rw [List.nil_append] at hsplit
      rcases rowEnd_cases row rest with hbreak | ⟨hnone, rfl, hrow⟩
      · rw [hbreak, hsplit]
        exact takes_rows_break (takes_rows_space hends.layout (ih hrows.2 h.2))
      · have hlast : rows.last front last = [row] := by
          rw [hsplit] at hrow ⊢
          refine if_neg fun hempty => hrow ?_
          simp only [Bool.and_eq_true, List.isEmpty_iff] at hempty
          rw [hempty.1, hempty.2]
          rfl
        rw [hnone, ← hlast]
        exact takes_rows_end front last

/-- The environment of an array is read back after its `\begin`. -/
theorem takes_environment {columns : Nat} {array : List Row} (hrows : ∀ row ∈ array, row ≠ [])
    (hcolumns : IsLongest columns array)
    (h : ∀ row ∈ array, ∀ cell ∈ row, ∀ e ∈ cell, e.ReadsBack) :
    (environment unbounded).Takes ("{matrix}".toList ++ (sourceOfRows array ++
        (control "end" ++ "{matrix}".toList)))
      (some (.array (List.replicate columns .center) array)) tail := by
  have hname : Environment.ofName? "matrix" = some .matrix := by decide
  have hlongest : (array.map List.length).foldl max 0 = columns :=
    (isLongest_foldl_max array).unique hcolumns
  refine .bind takes_environmentName ?_
  dsimp only
  rw [hname]
  dsimp only
  rw [if_neg (by decide)]
  refine .seq (.pure _ _) (.last (takes_rows hrows h) ?_)
  rw [hlongest]
  exact .pure _ _

end Reading

open Reading in
/-- An array is read back if its cells are, and its columns from its longest row. -/
theorem readsAsBase_array {columns : Nat} {array : List Row} (hrows : ∀ row ∈ array, row ≠ [])
    (hcolumns : IsLongest columns array)
    (h : ∀ row ∈ array, ∀ cell ∈ row, ∀ e ∈ cell, e.ReadsBack) :
    (Expr.array (List.replicate columns .center) array).ReadsAsBase := by
  refine readsAsBase_construction .beginEnvironment rfl (by decide) (by decide) (fun rest => ?_) ?_
  · exact endsName_brace _
  · intro start tail
    exact .map (takes_environment hrows hcolumns h)

end OfficeMath
