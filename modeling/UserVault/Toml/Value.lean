/-!
# TOML values

A document is a table of keys and values.  A table remembers what brought it about, because that
decides which later lines may add to it.
-/

namespace UserVault.Toml

abbrev Key := List Char

/-- What brought a table about. -/
inductive Origin
  /-- A header of its own. -/
  | header
  /-- The header of a table inside it. -/
  | implied
  /-- A dotted key. -/
  | dotted
  /-- Braces. -/
  | braces
  deriving DecidableEq, Repr

inductive Value
  | string (text : List Char)
  | integer (n : Int)
  /-- A float, as it is written. -/
  | float (literal : List Char)
  | boolean (b : Bool)
  /-- A date, a time, or both, as it is written. -/
  | dateTime (literal : List Char)
  | array (items : List Value)
  | table (origin : Origin) (entries : List (Key × Value))
  /-- The tables of an array of tables, the last one first. -/
  | tables (tables : List (List (Key × Value)))
  deriving Repr

/-- The keys of a table with their values. -/
abbrev Entries := List (Key × Value)

/-- Puts a value in place of the first one of a key. -/
def Entries.replace (key : Key) (value : Value) : Entries → Entries
  | [] => []
  | entry :: rest =>
    if entry.1 = key then (key, value) :: rest else entry :: Entries.replace key value rest

end UserVault.Toml
