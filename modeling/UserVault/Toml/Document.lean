import UserVault.Toml.Number
import UserVault.Toml.Entries

/-!
# TOML documents

`parse` reads a whole document, or nothing where it is not well-formed.
-/

namespace UserVault.Toml

/-- Items up to a closing bracket, at most `count` of them, each followed by a comma or the
bracket. -/
def scanItems (item : Scan Value) : (count : Nat) → Scan (List Value)
  | 0, _ => none
  | count + 1, text =>
    match skipFiller false text with
    | ']' :: rest => some ([], rest)
    | text => do
      let (value, text) ← item text
      match skipFiller false text with
      | ',' :: text =>
        let (values, text) ← scanItems item count text
        some (value :: values, text)
      | ']' :: text => some ([value], text)
      | _ => none

/-- A key, an equals sign and a value. -/
def scanAssignment (item : Scan Value) : Scan (List Key × Value) := fun text => do
  let (key, text) ← scanKey text
  let text ← scanChar '=' text
  let (value, text) ← item (skipBlanks text)
  some ((key, value), text)

/-- Assignments up to a closing brace, at most `count` of them and at least one. -/
def scanAssignments (item : Scan Value) : (count : Nat) → Scan (List (List Key × Value))
  | 0, _ => none
  | count + 1, text => do
    let (assignment, text) ← scanAssignment item text
    match skipBlanks text with
    | ',' :: text =>
      let (assignments, text) ← scanAssignments item count text
      some (assignment :: assignments, text)
    | '}' :: text => some ([assignment], text)
    | _ => none

/-- A table in braces. -/
def scanBraces (item : Scan Value) : Scan Value := fun text =>
  match skipBlanks text with
  | '}' :: rest => some (.table .braces [], rest)
  | text => do
    let (assignments, rest) ← scanAssignments item (text.length + 1) text
    let entries ← Entries.insertAll assignments []
    some (.table .braces entries, rest)

/-- A value with at most `depth` values around one another inside it. -/
def scanValue : (depth : Nat) → Scan Value
  | depth, text =>
    match text with
    | '"' :: _ | '\'' :: _ => (scanString text).map fun (s, rest) => (.string s, rest)
    | 't' :: 'r' :: 'u' :: 'e' :: rest => some (.boolean true, rest)
    | 'f' :: 'a' :: 'l' :: 's' :: 'e' :: rest => some (.boolean false, rest)
    | '[' :: rest =>
      match depth with
      | 0 => none
      | depth + 1 =>
        (scanItems (scanValue depth) (rest.length + 1) rest).map fun (items, rest) =>
          (.array items, rest)
    | '{' :: rest =>
      match depth with
      | 0 => none
      | depth + 1 => scanBraces (scanValue depth) rest
    | _ => scanNumber text

/-- A header, without the bracket or brackets that open it. -/
def scanHeader (repeated : Bool) (text : List Char) : Option (List Key × List Char) := do
  let (path, text) ← scanKey text
  let text ← scanChar ']' text
  let text ← if repeated then scanChar ']' text else some text
  let rest ← restOfLine text
  some (path, rest)

/-- The lines of a document from here on, at most `lines` of them, as the items that come before
the next header and the parts from there on. -/
def scanLines : (lines : Nat) → List Char →
    Option (List (List Key × Value) × List Entries.Section)
  | 0, _ => none
  | lines + 1, text =>
    match skipBlanks text with
    | [] => some ([], [])
    | '\n' :: text => scanLines lines text
    | '\r' :: '\n' :: text => scanLines lines text
    | '#' :: text => do
      let text ← lineEnd (text.dropWhile isCommentChar)
      scanLines lines text
    | '[' :: '[' :: text => do
      let (path, text) ← scanHeader true text
      let (items, sections) ← scanLines lines text
      some ([], { path, repeated := true, items } :: sections)
    | '[' :: text => do
      let (path, text) ← scanHeader false text
      let (items, sections) ← scanLines lines text
      some ([], { path, repeated := false, items } :: sections)
    | text => do
      let (assignment, text) ← scanAssignment (scanValue maxDepth) text
      let text ← restOfLine text
      let (items, sections) ← scanLines lines text
      some (assignment :: items, sections)

/-- The entries of a document.  A byte order mark in front of it is skipped. -/
def parse (text : List Char) : Option Entries := do
  let text := match text with
    | '\ufeff' :: text => text
    | text => text
  let (items, sections) ← scanLines (text.length + 1) text
  let first : Entries.Section := { path := [], repeated := false, items }
  (first :: sections).foldlM (fun root part => root.insertSection part) []

end UserVault.Toml
