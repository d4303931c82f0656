import OfficeMath.Toml.Value

/-!
# Tables under construction

While a document is read, its tables grow, and what may still be added to a table depends on how
it came about.

* A header may put further tables into any table that is there, but give one its own header only
  if it was merely implied by a longer header so far.
* A dotted key may add to a table that was implied or that a dotted key has made, and not to one
  with a header of its own.  From then on every table on the way counts as made by a dotted key,
  so that it cannot get a header any more.
* Of an array of tables only the last one grows.  A dotted key may put a table into it, but no
  value of its own.
* A value, an inline table included, cannot grow at all.

The operations are these.

* `Table.insert?` adds the value of a plain or dotted key;
* `Table.open?` and `Table.openElement?` carry out a header;
* `Table.modify?` works on the table that a header has opened.
-/

namespace OfficeMath.Toml

/-- How a table came about. -/
inductive Origin where
  /-- It has a header of its own. -/
  | header
  /-- It stands on the way to a table or an array that has a header. -/
  | implied
  /-- A dotted key has made it or added to it. -/
  | dotted
  deriving DecidableEq, Repr

/-- What a key of a growing table stands for. -/
inductive Entry where
  | value (value : Value)
  | table (origin : Origin) (entries : List (String × Entry))
  /-- An array of tables, the last one apart. -/
  | tables (before : List (List (String × Entry))) (last : List (String × Entry))

/-- A growing table: its keys and what they stand for, in the order of the document. -/
abbrev Table := List (String × Entry)

namespace Table

/-- Put another entry in the place of the one at `key`. -/
def replace (table : Table) (key : String) (entry : Entry) : Table :=
  table.map fun (k, old) => if k = key then (k, entry) else (k, old)

/-- Add a value under a plain or dotted key, if the key is free and the tables on the way to it
may be extended by dotted keys. -/
def insert? : (key : List String) → Value → Table → Option Table
  | [], _, _ => none
  | [key], value, table =>
    if (table.lookup key).isSome then none else some (table ++ [(key, .value value)])
  | key :: next :: rest, value, table =>
    match table.lookup key with
    | none =>
      (insert? (next :: rest) value []).map fun inner => table ++ [(key, .table .dotted inner)]
    | some (.table .header _) | some (.value _) => none
    | some (.table _ inner) =>
      (insert? (next :: rest) value inner).map fun inner =>
        table.replace key (.table .dotted inner)
    | some (.tables before last) =>
      if rest.isEmpty then none
      else
        (insert? (next :: rest) value last).map fun last =>
          table.replace key (.tables before last)

/-- Carry out a change in the table that a header names. -/
def modify? (change : Table → Option Table) : (path : List String) → Table → Option Table
  | [], table => change table
  | key :: rest, table =>
    match table.lookup key with
    | some (.table origin inner) =>
      (modify? change rest inner).map fun inner => table.replace key (.table origin inner)
    | some (.tables before last) =>
      (modify? change rest last).map fun last => table.replace key (.tables before last)
    | some (.value _) | none => none

/-- Carry out a change in the table that the first part of a header names.  Tables that are not
there yet are implied. -/
def modifyImplied? (change : Table → Option Table) : (path : List String) → Table → Option Table
  | [], table => change table
  | key :: rest, table =>
    match table.lookup key with
    | none =>
      (modifyImplied? change rest []).map fun inner => table ++ [(key, .table .implied inner)]
    | some (.table origin inner) =>
      (modifyImplied? change rest inner).map fun inner => table.replace key (.table origin inner)
    | some (.tables before last) =>
      (modifyImplied? change rest last).map fun last => table.replace key (.tables before last)
    | some (.value _) => none

/-- Open the table under a key by its header. -/
def openHere? (key : String) (table : Table) : Option Table :=
  match table.lookup key with
  | none => some (table ++ [(key, .table .header [])])
  | some (.table .implied inner) => some (table.replace key (.table .header inner))
  | some _ => none

/-- Open another element of the array of tables under a key. -/
def openElementHere? (key : String) (table : Table) : Option Table :=
  match table.lookup key with
  | none => some (table ++ [(key, .tables [] [])])
  | some (.tables before last) => some (table.replace key (.tables (before ++ [last]) []))
  | some _ => none

/-- Open a table by its header. -/
def open? (path : List String) (table : Table) : Option Table := do
  modifyImplied? (openHere? (← path.getLast?)) path.dropLast table

/-- Open an element of an array of tables by its header. -/
def openElement? (path : List String) (table : Table) : Option Table := do
  modifyImplied? (openElementHere? (← path.getLast?)) path.dropLast table

end Table

mutual

/-- The value of a finished entry. -/
def Entry.finish : Entry → Value
  | .value value => value
  | .table _ entries => .table (finishEntries entries)
  | .tables before last => .array (finishTables before ++ [.table (finishEntries last)])

/-- The values of the entries of a finished table. -/
def finishEntries : List (String × Entry) → List (String × Value)
  | [] => []
  | (key, entry) :: rest => (key, entry.finish) :: finishEntries rest

/-- The values of several finished tables. -/
def finishTables : List (List (String × Entry)) → List Value
  | [] => []
  | table :: rest => .table (finishEntries table) :: finishTables rest

end

/-- The inline table of the given fields, whose keys may be dotted. -/
def inlineTable? (fields : List (List String × Value)) : Option Value := do
  let table ← fields.foldlM (fun table (key, value) => Table.insert? key value table) []
  return .table (finishEntries table)

end OfficeMath.Toml
