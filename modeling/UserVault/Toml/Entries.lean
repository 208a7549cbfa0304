import UserVault.Toml.Value

/-!
# Adding to tables

No key is given twice, and a table that one way of writing has finished is not added to in
another.
-/

namespace UserVault.Toml.Entries

/-- Changes the first of a list of tables. -/
def changeFirst (change : Entries → Option Entries) : List Entries → Option (List Entries)
  | [] => none
  | first :: rest => (change first).map (· :: rest)

/-- Adds a value under a dotted key, the last part of which is `key`.  The parts before it make
tables, or lead to tables that dotted keys have made. -/
def insert (path : List Key) (key : Key) (value : Value) (entries : Entries) : Option Entries :=
  match path with
  | [] =>
    match entries.lookup key with
    | some _ => none
    | none => some (entries ++ [(key, value)])
  | part :: path =>
    match entries.lookup part with
    | none => (insert path key value []).map fun inner => entries ++ [(part, .table .dotted inner)]
    | some (.table .dotted inner) =>
      (insert path key value inner).map fun inner =>
        Entries.replace part (.table .dotted inner) entries
    | some (.table .implied inner) =>
      if path = [] then none
      else (insert path key value inner).map fun inner =>
        Entries.replace part (.table .implied inner) entries
    | some (.tables tables) =>
      if path = [] then none
      else (changeFirst (insert path key value) tables).map fun tables =>
        Entries.replace part (.tables tables) entries
    | some _ => none

/-- Adds values one after the other. -/
def insertAll (items : List (List Key × Value)) (entries : Entries) : Option Entries :=
  items.foldlM (fun entries (path, value) =>
    match path.getLast? with
    | some key => insert path.dropLast key value entries
    | none => none) entries

/-- Changes the table that the parts of a header lead to; those that are missing are made. -/
def descend (change : Entries → Option Entries) : (path : List Key) → Entries → Option Entries
  | [], entries => change entries
  | part :: path, entries =>
    match entries.lookup part with
    | none =>
      (descend change path []).map fun inner => entries ++ [(part, .table .implied inner)]
    | some (.table .braces _) => none
    | some (.table origin inner) =>
      (descend change path inner).map fun inner =>
        Entries.replace part (.table origin inner) entries
    | some (.tables tables) =>
      (changeFirst (descend change path) tables).map fun tables =>
        Entries.replace part (.tables tables) entries
    | some _ => none

/-- A part of a document: a header, if there is one, and the lines below it. -/
structure Section where
  /-- The parts of the header; a part of a document without a header has none. -/
  path : List Key
  /-- Whether the header is that of an array of tables. -/
  repeated : Bool
  items : List (List Key × Value)

/-- Adds a part of a document, with a header that ends in `key`, to the table that the rest of its
header leads to. -/
def insertHeaded (key : Key) (part : Section) (entries : Entries) : Option Entries :=
  match part.repeated, entries.lookup key with
  | true, none =>
    (insertAll part.items []).map fun inner => entries ++ [(key, .tables [inner])]
  | true, some (.tables tables) =>
    (insertAll part.items []).map fun inner =>
      Entries.replace key (.tables (inner :: tables)) entries
  | false, none =>
    (insertAll part.items []).map fun inner => entries ++ [(key, .table .header inner)]
  | false, some (.table .implied inner) =>
    (insertAll part.items inner).map fun inner =>
      Entries.replace key (.table .header inner) entries
  | _, some _ => none

/-- Adds a part of a document. -/
def insertSection (part : Section) (root : Entries) : Option Entries :=
  match part.path.getLast? with
  | none => insertAll part.items root
  | some key =>
    descend (insertHeaded key part) part.path.dropLast root

end UserVault.Toml.Entries
