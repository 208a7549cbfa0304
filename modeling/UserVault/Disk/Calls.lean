import UserVault.Disk.Walk

/-!
# Calls on the disk

Each call either does all that it says or fails and changes nothing; `makeDirectories`, which is
several calls, keeps the directories that it made before it failed.
-/

namespace UserVault.Disk

/-- A call that fails with `fault`, if the system makes it fail for a reason of its own. -/
def attempt {α : Type} (fault : Option Errno) (call : Except Errno α) : Except Errno α :=
  match fault with
  | some e => .error e
  | none => call

/-- Makes one directory, and tells where. -/
def makeDirectory (d : Disk) (p : Path) : Except Errno (Place × Disk) :=
  match d.locate p with
  | .error e => .error e
  | .ok (.node _ _) => .error .exists
  | .ok (.vacant place) =>
    if d.mayChange place then .ok (place, d.addDirectory place) else .error .accessDenied

/-- Makes the directory `step` in the directory at `above`, which has just been made, where that
can be done without a look at the disk. -/
def makeInside? (d : Disk) (above : Option Place) (step : Name) : Option (Place × Disk) :=
  match above with
  | none => none
  | some above =>
    if d.allowsChange (d.grant 0o777) ∧ step ≠ up ∧ step.length ≤ maxName then
      some (above ++ [step], d.addDirectory (above ++ [step]))
    else none

/-- Makes the directory that is `steps`, listed from the last, and those above it that are
missing.  It tells where the directory is, if it has made it. -/
def makeDirectoriesFrom (p : Path) (d : Disk) : List Name → Except Errno (Option Place) × Disk
  | [] => (.ok none, d)
  | step :: above =>
    let path := { p with steps := (step :: above).reverse }
    let settle (d : Disk) (e : Errno) : Except Errno (Option Place) × Disk :=
      if d.leadsToDirectory path then (.ok none, d) else (.error e, d)
    match d.makeDirectory path with
    | .ok (place, d) => (.ok (some place), d)
    | .error .noEntry =>
      match makeDirectoriesFrom p d above with
      | (.error e, d) => (.error e, d)
      | (.ok made, d) =>
        match d.makeInside? made step with
        | some (place, d) => (.ok (some place), d)
        | none =>
          match d.makeDirectory path with
          | .ok (place, d) => (.ok (some place), d)
          | .error e => settle d e
    | .error e => settle d e

/-- Makes a directory and those above it that are missing; one that is there already, or that a
link leads to, is as good as made. -/
def makeDirectories (d : Disk) (p : Path) : Except Errno Unit × Disk :=
  let (made, d) := makeDirectoriesFrom p d p.steps.reverse
  (made.map fun _ => (), d)

/-- What a handle opened for writing writes to. -/
inductive Target
  | file (id : FileId)
  | device (device : Device)
  deriving DecidableEq, Repr

/-- A handle opened for writing.  A write is carried out behind the caller's back: its failure is
kept and reported by the next call on the handle. -/
structure Handle where
  target : Target
  /-- Where the next write goes. -/
  offset : Nat := 0
  /-- The failure not yet reported. -/
  failure : Option Errno := none
  deriving DecidableEq, Repr

/-- Makes a file at a place where nothing stands, and opens it. -/
def createAt (d : Disk) (place : Place) : Except Errno (Handle × Disk) :=
  if d.mayChange place then
    let (id, d) := d.addFile place
    .ok ({ target := .file id }, d)
  else .error .accessDenied

/-- Opens a path for writing, following a link at its end; the file is emptied, or made. -/
def create (d : Disk) (p : Path) : Except Errno (Handle × Disk) :=
  match d.trace .make p with
  | .error e => .error e
  | .ok (.vacant place) => d.createAt place
  | .ok (.node _ (.file id)) =>
    if d.mayUse id .write then .ok ({ target := .file id }, d.overwrite id .empty)
    else .error .accessDenied
  | .ok (.node _ (.device device)) => .ok ({ target := .device device }, d)
  | .ok (.node _ (.directory _)) => .error .isDirectory
  | .ok (.node _ (.link _)) => .error .loop

/-- Makes a new file for writing; nothing may stand there yet. -/
def createNew (d : Disk) (p : Path) : Except Errno (Handle × Disk) :=
  match d.locate p with
  | .error e => .error e
  | .ok (.node _ _) => .error .exists
  | .ok (.vacant place) => d.createAt place

/-- The largest write that is handed over in one piece. -/
def maxHandover : Nat := 2 * 1024 * 1024

/-- What writing `bytes` comes to: a failure, or the disk after it. -/
def perform (d : Disk) (h : Handle) (bytes : Bytes) : Except Errno Disk :=
  match h.target with
  | .file id => .ok (d.overwrite id ((d.contentOf id).writeAt h.offset bytes))
  | .device .full => if bytes = [] then .ok d else .error .noSpace
  | .device .null => .ok d

/-- Writes through a handle.  An earlier failure is reported now, with nothing written; a failure
of this write is kept, unless the write is too large to be handed over in one piece. -/
def write (d : Disk) (h : Handle) (bytes : Bytes) (fault : Option Errno) :
    Except Errno Handle × Disk :=
  match h.failure with
  | some e => (.error e, d)
  | none =>
    match attempt fault (d.perform h bytes) with
    | .ok d => (.ok { h with offset := h.offset + bytes.length }, d)
    | .error e =>
      if maxHandover < bytes.length then (.error e, d)
      else (.ok { h with failure := some e }, d)

/-- Reports the failure that a handle still keeps. -/
def Handle.flush (h : Handle) : Except Errno Unit :=
  match h.failure with
  | some e => .error e
  | none => .ok ()

/-- Waits until all that was written is on the medium; devices have none. -/
def Handle.sync (h : Handle) : Except Errno Unit :=
  match h.target with
  | .file _ => .ok ()
  | .device _ => .error .invalidArgument

/-- Makes `new` name what `old` names; what `new` named before is replaced, unless it is a
directory.  A directory that `old` lies in cannot be replaced, because it is not empty. -/
def rename (d : Disk) (old new : Path) : Except Errno Disk :=
  match d.locate old with
  | .error e => .error e
  | .ok (.vacant _) => .error .noEntry
  | .ok (.node source node) =>
    match d.locate new with
    | .error e => .error e
    | .ok found =>
      if found.place.isPrefixOf source.dropLast then .error .notEmpty
      else if !(d.mayChange source && d.mayChange found.place) then .error .accessDenied
      else
        match found with
        | .node _ (.directory _) => .error .isDirectory
        | .node place _ | .vacant place => .ok ((d.drop source).put place node)

/-- Takes a name away; a link at the end of the path is itself removed. -/
def unlink (d : Disk) (p : Path) : Except Errno Disk :=
  match d.locate p with
  | .error e => .error e
  | .ok (.vacant _) => .error .noEntry
  | .ok (.node place node) =>
    if !d.mayChange place then .error .accessDenied
    else
      match node with
      | .directory _ => .error .isDirectory
      | _ => .ok (d.drop place)

/-- What has been found, once it is opened for reading. -/
def openFound (d : Disk) : Found → Except Errno Node
  | .vacant _ => .error .noEntry
  | .node _ node =>
    let allowed := match node with
      | .directory mode => d.allows mode .read
      | .file id => d.mayUse id .read
      | _ => true
    if allowed then .ok node else .error .accessDenied

/-- What a path opened for reading leads to. -/
def openRead (d : Disk) (p : Path) : Except Errno Node := d.follow p >>= d.openFound

/-- What a path, given as text, leads to when it is opened for reading. -/
def openText (d : Disk) (text : Bytes) : Except Errno Node :=
  if text = [] then .error .noEntry
  else if maxPath < text.length then .error .nameTooLong
  else d.walk .use maxLinks (startOf d.home text) (walkSteps text) >>= d.openFound

/-- All that can be read from what has been opened; a device has nothing to read. -/
def readAll (d : Disk) : Node → Except Errno Bytes
  | .file id => .ok (d.contentOf id).bytes
  | .directory _ => .error .isDirectory
  | .link _ => .error .loop
  | .device _ => .ok []

/-- At most `count` bytes of a file from `offset` on, whatever name the file has now. -/
def readAt (d : Disk) (id : FileId) (offset count : Nat) : Bytes :=
  ((d.contentOf id).bytes.drop offset).take count

/-- The entries of a directory. -/
def readDirectory (d : Disk) (p : Path) : Except Errno (List (Name × Node)) :=
  match d.follow p with
  | .error e => .error e
  | .ok (.vacant _) => .error .noEntry
  | .ok (.node place (.directory mode)) =>
    if d.allows mode .read then .ok (d.entriesOf place) else .error .accessDenied
  | .ok (.node _ _) => .error .notDirectory

end UserVault.Disk
