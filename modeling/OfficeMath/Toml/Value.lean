/-!
# Values of TOML documents

The data that a TOML document consists of.  Numbers that are not whole and dates are checked when
they are read, but nothing here needs their value, so none is kept.
-/

namespace OfficeMath.Toml

/-- A value of a TOML document. -/
inductive Value where
  | string (text : String)
  | integer (value : Int)
  | float
  | boolean (value : Bool)
  | dateTime
  | array (elements : List Value)
  | table (entries : List (String × Value))

/-- The entries of a table, in the order of the document. -/
abbrev Entries := List (String × Value)

end OfficeMath.Toml
