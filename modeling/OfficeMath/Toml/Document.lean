import OfficeMath.Toml.Statement

/-!
# TOML documents

A document as a whole: its statements are carried out one after the other, each key being put
into the table that the last header has opened.
-/

namespace OfficeMath.Toml

/-- A document that has been read so far: its table, and the header that keys belong to. -/
structure Progress where
  table : Table
  header : List String

/-- Carry out a statement. -/
def Progress.step? (progress : Progress) : Statement → Option Progress
  | .entry key value => do
    let table ← progress.table.modify? (Table.insert? key value) progress.header
    return { progress with table }
  | .table path => do return ⟨← progress.table.open? path, path⟩
  | .element path => do return ⟨← progress.table.openElement? path, path⟩

/-- The entries of a document, if it is well-formed. -/
def parse? (document : String) : Option Entries := do
  let statements ← statements? document
  let progress ← statements.foldlM Progress.step? ⟨[], []⟩
  return finishEntries progress.table

end OfficeMath.Toml
