import UserVault.Table
import UserVault.Disk.Content
import UserVault.Disk.Errno
import UserVault.Disk.Path

/-!
# The directory tree

A disk is a table of what stands at each place, and a table of the files.  A place is the list of
names from the root, so a place never goes through a link.  A file has an identity of its own:
whoever has opened it reads and writes it also after its name is gone or names another file.

The process owns every entry.  Whether the permissions of its entries bind it is up to the disk: a
process with the privileges of the system's administrator is not bound.
-/

namespace UserVault.Disk

/-- Where something stands: the names from the root down to it. -/
abbrev Place := List Name

/-- The identity of a file. -/
abbrev FileId := Nat

/-- A device that can be opened like a file. -/
inductive Device
  /-- Takes no byte. -/
  | full
  /-- Takes every byte and keeps none. -/
  | null
  deriving DecidableEq, Repr

/-- What stands at a place. -/
inductive Node
  | directory (mode : Nat)
  | file (id : FileId)
  | link (target : Bytes)
  | device (device : Device)
  deriving DecidableEq, Repr

/-- A file, wherever its names are. -/
structure FileRecord where
  content : Content := .empty
  mode : Nat

end UserVault.Disk

namespace UserVault

open Disk

structure Disk where
  nodes : Table Place Node := {}
  files : Table FileId FileRecord := {}
  /-- No file has this identity or a greater one. -/
  nextFile : FileId := 0
  /-- The permissions that new entries do not get. -/
  umask : Nat := 0o022
  /-- Where paths start that do not start at the root. -/
  home : Place := []
  /-- Whether permissions bind the process. -/
  bound : Bool := false

end UserVault

namespace UserVault.Disk

/-- What stands at a place; at the root stands a directory. -/
def node? (d : Disk) (place : Place) : Option Node :=
  if place = [] then some (.directory 0o755) else d.nodes.get? place

/-- Puts a node at a place. -/
def put (d : Disk) (place : Place) (node : Node) : Disk :=
  { d with nodes := d.nodes.set place node }

/-- Takes away what stands at a place. -/
def drop (d : Disk) (place : Place) : Disk :=
  { d with nodes := d.nodes.erase place }

/-- The entries of the directory at a place. -/
def entriesOf (d : Disk) (place : Place) : List (Name × Node) :=
  d.nodes.entries.filterMap fun (p, node) =>
    match p.getLast? with
    | some name => if p.dropLast = place then some (name, node) else none
    | none => none

/-- The record of a file. -/
def record? (d : Disk) (id : FileId) : Option FileRecord := d.files.get? id

/-- The content of a file. -/
def contentOf (d : Disk) (id : FileId) : Content :=
  ((d.record? id).map (·.content)).getD .empty

/-- Changes the content of a file. -/
def setContent (d : Disk) (id : FileId) (content : Content) : Disk :=
  match d.record? id with
  | some record => { d with files := d.files.set id { record with content } }
  | none => d

/-- The permissions of a new entry for which `mode` is asked. -/
def grant (d : Disk) (mode : Nat) : Nat := mode &&& (0o777 ^^^ (d.umask &&& 0o777))

/-! ## Permissions -/

/-- What a process asks of an entry that it owns. -/
inductive Access
  | read
  | write
  /-- To look names up in a directory. -/
  | search
  deriving DecidableEq, Repr

/-- The permission that an access needs. -/
def Access.bit : Access → Nat
  | .read => 0o400
  | .write => 0o200
  | .search => 0o100

/-- Whether an entry with the permissions `mode` lets the process have an access. -/
def allows (d : Disk) (mode : Nat) (access : Access) : Bool :=
  !d.bound || mode &&& access.bit ≠ 0

/-- Whether names may be added to and taken from a directory with the permissions `mode`. -/
def allowsChange (d : Disk) (mode : Nat) : Bool := d.allows mode .write && d.allows mode .search

/-- Whether the name of a place may be added to or taken from its directory. -/
def mayChange (d : Disk) (place : Place) : Bool :=
  !d.bound ||
    match d.node? place.dropLast with
    | some (.directory mode) => d.allowsChange mode
    | _ => true

/-- Whether the process may have an access to a file. -/
def mayUse (d : Disk) (id : FileId) (access : Access) : Bool :=
  d.allows (((d.record? id).map (·.mode)).getD 0) access

/-- The permissions that are left of `mode` when a process that they bind writes to a file: nobody
who runs the file gets its owner's rights, nor its group's if the group may run it. -/
def withoutRights (mode : Nat) : Nat :=
  if mode &&& 0o010 = 0 then mode &&& 0o3777 else mode &&& 0o1777

/-- Changes the content of a file as a process does. -/
def overwrite (d : Disk) (id : FileId) (content : Content) : Disk :=
  match d.record? id with
  | some record =>
    let mode := if d.bound then withoutRights record.mode else record.mode
    { d with files := d.files.set id { content, mode } }
  | none => d

/-! ## New entries -/

/-- A new empty file at a place. -/
def addFile (d : Disk) (place : Place) : FileId × Disk :=
  (d.nextFile,
    { d with
      nodes := d.nodes.set place (.file d.nextFile)
      files := d.files.set d.nextFile { mode := d.grant 0o666 }
      nextFile := d.nextFile + 1 })

/-- A new directory at a place where nothing stands. -/
def addDirectory (d : Disk) (place : Place) : Disk :=
  { d with nodes := d.nodes.add place (.directory (d.grant 0o777)) }

end UserVault.Disk
