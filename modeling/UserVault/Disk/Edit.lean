import UserVault.Disk.Calls

/-!
# Edits

What other processes do to a disk: they make directories, files and links, and remove subtrees.
-/

namespace UserVault.Disk

/-- Writes a file whole and sets its permissions, if some are given. -/
def putFile (d : Disk) (p : Path) (content : Content) (mode : Option Nat) : Except Errno Disk :=
  match d.create p with
  | .error e => .error e
  | .ok (handle, d) =>
    match handle.target with
    | .device _ => .ok d
    | .file id =>
      let d := d.setContent id content
      match mode, d.record? id with
      | some mode, some record => .ok { d with files := d.files.set id { record with mode } }
      | _, _ => .ok d

/-- Makes a link. -/
def makeLink (d : Disk) (p : Path) (target : Bytes) : Except Errno Disk :=
  match d.locate p with
  | .error e => .error e
  | .ok (.node _ _) => .error .exists
  | .ok (.vacant place) => .ok (d.put place (.link target))

/-- Removes what a path names and everything below it. -/
def removeTree (d : Disk) (p : Path) : Except Errno Disk :=
  match d.locate p with
  | .error e => .error e
  | .ok (.vacant _) => .error .noEntry
  | .ok (.node place _) => .ok { d with nodes := d.nodes.restrict fun q => !place.isPrefixOf q }

/-- The permissions of what a path names, if it names something. -/
def mode? (d : Disk) (p : Path) : Option Nat :=
  match d.locate p with
  | .ok (.node _ (.directory mode)) => some mode
  | .ok (.node _ (.file id)) => (d.record? id).map (·.mode)
  | .ok (.node _ (.link _)) => some 0o777
  | .ok (.node _ (.device _)) => some 0o666
  | _ => none

/-- Everything below a place, each with its place seen from there. -/
def below (d : Disk) (place : Place) : List (Place × Node) :=
  d.nodes.entries.filterMap fun (p, node) =>
    if place.isPrefixOf p ∧ p ≠ place then some (p.drop place.length, node) else none

end UserVault.Disk
