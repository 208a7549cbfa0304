import UserVault.Text.Utf8
import UserVault.Toml.Document

/-!
# The settings file

A TOML document with the sections `server`, `storage` and `logging`.  Everything in it may be
missing; keys that mean nothing are passed over.
-/

namespace UserVault.Settings

open Toml

structure Server where
  /-- The address to listen at. -/
  host : String := "0.0.0.0"
  port : UInt16 := 1234
  /-- How many threads work; without a number, as many as there are processors. -/
  workers : Option Nat := none
  deriving DecidableEq, Repr

structure Storage where
  baseDirectory : Bytes := Utf8.ofString "backupsvr"
  chunkSize : Nat := 4096
  atomic : Bool := true
  exclusive : Bool := false
  deriving DecidableEq, Repr

structure Logging where
  level : String := "info"
  deriving DecidableEq, Repr

/-- What a settings file says. -/
structure File where
  server : Server := {}
  storage : Storage := {}
  logging : Logging := {}
  deriving DecidableEq, Repr

/-! ## Values of the types that settings have -/

def text? : Value → Option String
  | .string text => some (String.ofList text)
  | _ => none

def path? : Value → Option Bytes
  | .string text => some (Utf8.encode text)
  | _ => none

def switch? : Value → Option Bool
  | .boolean b => some b
  | _ => none

def count? : Value → Option Nat
  | .integer n => if 0 ≤ n then some n.toNat else none
  | _ => none

def port? : Value → Option UInt16
  | .integer n => if 0 ≤ n ∧ n < 65536 then some (UInt16.ofNat n.toNat) else none
  | _ => none

/-! ## Sections -/

/-- A section has its fields under their keys, or lists them in their order. -/
inductive Section
  | keyed (entries : Entries)
  | listed (items : List Value)
  deriving Repr

/-- A moment counts as a section in which no field is given. -/
def Section.ofValue? : Value → Option Section
  | .table _ entries => some (.keyed entries)
  | .array items => some (.listed items)
  | .tables tables => some (.listed (tables.reverse.map (.table .header)))
  | .dateTime _ => some (.keyed [])
  | _ => none

/-- The value of a field, by its key or by its position. -/
def Section.value? (s : Section) (position : Nat) (key : String) : Option Value :=
  match s with
  | .keyed entries => entries.lookup key.toList
  | .listed items => items[position]?

/-- A field with a default. -/
def Section.field {α : Type} (s : Section) (position : Nat) (key : String)
    (type : Value → Option α) (default : α) : Option α :=
  match s.value? position key with
  | some value => type value
  | none => some default

/-- A field that may be without a value; a list of fields must still give it one. -/
def Section.optional {α : Type} (s : Section) (position : Nat) (key : String)
    (type : Value → Option α) : Option (Option α) :=
  match s.value? position key, s with
  | some value, _ => (type value).map some
  | none, .keyed _ => some none
  | none, .listed _ => none

/-- The section under a key; one that is missing has all its defaults. -/
def section? {α : Type} (document : Entries) (key : String) (read : Section → Option α)
    (default : α) : Option α :=
  match document.lookup key.toList with
  | some value => (Section.ofValue? value).bind read
  | none => some default

def Server.ofSection? (s : Section) : Option Server := do
  let default : Server := {}
  let host ← s.field 0 "host" text? default.host
  let port ← s.field 1 "port" port? default.port
  let workers ← s.optional 2 "workers" count?
  some { host, port, workers }

def Storage.ofSection? (s : Section) : Option Storage := do
  let default : Storage := {}
  let baseDirectory ← s.field 0 "base_dir" path? default.baseDirectory
  let chunkSize ← s.field 1 "chunk_size" count? default.chunkSize
  let atomic ← s.field 2 "atomic_store" switch? default.atomic
  let exclusive ← s.field 3 "serialize_writes" switch? default.exclusive
  some { baseDirectory, chunkSize, atomic, exclusive }

def Logging.ofSection? (s : Section) : Option Logging := do
  let default : Logging := {}
  let level ← s.field 0 "level" text? default.level
  some { level }

/-- The settings that a document gives, if it is well-formed and its fields have their types. -/
def File.parse? (text : List Char) : Option File := do
  let document ← Toml.parse text
  let server ← section? document "server" Server.ofSection? {}
  let storage ← section? document "storage" Storage.ofSection? {}
  let logging ← section? document "logging" Logging.ofSection? {}
  some { server, storage, logging }

end UserVault.Settings
