import Std.Async.TCP
import Std.Sync.Mutex
import UserVault.Service.Program
import UserVault.Session.Live

/-!
# The program on a real system

The settings file and the stored files are the system's, and sessions come over real connections.
The vault is worked on in memory; what a request has changed in it is kept on the system's disk
before the request is answered.
-/

namespace UserVault.Daemon

open Disk Net Std.Async.TCP

/-! ## Failures -/

/-- The number that the system gave a failure, or that number below zero as a word. -/
def codeOf : IO.Error → UInt32
  | .alreadyExists _ code _ | .inappropriateType _ code _ | .invalidArgument _ code _
  | .noFileOrDirectory _ code _ | .noSuchThing _ code _ | .permissionDenied _ code _
  | .resourceExhausted _ code _ | .otherError code _ | .resourceBusy code _
  | .unsatisfiedConstraints code _ | .unsupportedOperation code _ => code
  | _ => 0

def errnoOf (e : IO.Error) : Errno :=
  let code := codeOf e
  (Errno.ofCode? (min code (-code)).toNat).getD .inputOutput

/-- Does something, and gives the system's failure as a value. -/
def attempted {α : Type} (action : IO α) : IO (Except Errno α) := do
  match ← action.toBaseIO with
  | .ok a => return .ok a
  | .error e => return .error (errnoOf e)

/-! ## Files -/

def textOf (path : Bytes) : String := String.ofList (Utf8.repaired path)

/-- The text of a file. -/
def readText (path : Bytes) : IO (Except Settings.ReadFault (List Char)) := do
  match ← attempted (IO.FS.readBinFile (textOf path)) with
  | .error e => return .error (.system e)
  | .ok content =>
    match Utf8.decode? content.toList with
    | some text => return .ok text
    | none => return .error .notText

/-- The path of a place below the base directory. -/
def pathOf (base : String) (place : Place) : String :=
  "/".intercalate (base :: place.map textOf)

/-- Adds what stands below a place to a disk. -/
partial def gather (base : String) (place : Place) (d : Disk) : IO Disk := do
  let mut d := d
  for entry in ← (← IO.FS.realPath (pathOf base place)).readDir do
    let inner := place ++ [Utf8.ofString entry.fileName]
    if ← entry.path.isDir then
      d ← gather base inner (d.addDirectory inner)
    else
      let content ← IO.FS.readBinFile (pathOf base inner)
      let (id, more) := d.addFile inner
      d := more.setContent id (.ofBytes content.toList)
  return d

/-- Writes a file aside and renames it into place. -/
def writeFile (base : String) (place : Place) (content : Bytes) : IO Unit := do
  let aside := pathOf base [Vault.stagingName, Vault.stagedStem]
  IO.FS.writeBinFile aside ⟨content.toArray⟩
  IO.FS.rename aside (pathOf base place)

/-- Keeps on the system's disk what makes `after` differ from `before`. -/
def keep (base : String) (before after : Disk) : IO Unit := do
  for (place, node) in after.nodes.entries.reverse do
    match node with
    | .directory _ =>
      if (before.nodes.get? place).isNone then IO.FS.createDirAll (pathOf base place)
    | .file id =>
      let content := (after.contentOf id).bytes
      if before.nodes.get? place ≠ some node ∨ (before.contentOf id).bytes ≠ content then
        writeFile base place content
    | _ => pure ()
  for (place, _) in before.nodes.entries do
    if (after.nodes.get? place).isNone then IO.FS.removeFile (pathOf base place)

/-- Makes a directory and those above it that are missing. -/
def makeDirectories (path : String) : IO (Except Errno Unit) := do
  match ← attempted (IO.FS.createDir path) with
  | .error .noEntry | .error .exists => attempted (IO.FS.createDirAll path)
  | made => return made

/-! ## Connections -/

/-- The octets of a number, the first in front. -/
def octets (count n : Nat) : List UInt8 := (Bytes.littleEndian count n).reverse

def socketAddress (a : Address) : Std.Net.SocketAddress :=
  match a.host with
  | .v4 bits =>
    match octets 4 bits.toNat with
    | [a1, a2, a3, a4] => .v4 ⟨.ofParts a1 a2 a3 a4, a.port⟩
    | _ => .v4 ⟨.ofParts 0 0 0 0, a.port⟩
  | .v6 bits =>
    let group i := UInt16.ofNat (bits.toNat >>> (112 - 16 * i))
    let host := .ofParts (group 0) (group 1) (group 2) (group 3) (group 4) (group 5) (group 6)
      (group 7)
    .v6 ⟨host, a.port⟩

/-- The vault as all sessions share it. -/
structure Shared where
  base : String
  vault : Vault
  state : Std.Mutex Vault.State

/-- Has a session take a piece of input, or the end of it, and keeps what it changes. -/
def take (s : Shared) (session : Session.Live) (piece : Option ByteArray) :
    IO (Session.Progress Vault.State) :=
  s.state.atomically do
    let before ← get
    let backend := Session.Backend.ofVault s.vault
    let progress := match piece with
      | some bytes => session.receive backend s.vault.chunkSize before bytes.toList
      | none => session.close backend s.vault.chunkSize before
    keep s.base before.disk progress.state.disk
    set progress.state
    return progress

/-- Goes on with a session until either side ends it. -/
partial def attend (s : Shared) (client : Socket.Client) (session : Session.Live) : IO Unit := do
  let piece ← (client.recv? 65536).block
  let progress ← take s session piece
  unless progress.written.isEmpty do
    (client.send ⟨progress.written.toArray⟩).block
  if progress.session.ended then client.shutdown.block
  else attend s client progress.session

/-- Accepts connections, for each of which a task of its own goes on with the session. -/
partial def accept (s : Shared) (server : Socket.Server) : IO Unit := do
  let client ← server.accept.block
  let _ ← IO.asTask (attend s client {}) .dedicated
  accept s server

/-! ## Runs -/

/-- Starts the service and serves; comes back only if something stands in the way. -/
def serve (settings : Settings) : IO Service.Obstacle := do
  if settings.baseDirectory.contains 0 then return .nul
  let base := if settings.baseDirectory = [] then "." else textOf settings.baseDirectory
  match ← makeDirectories (pathOf base [Vault.stagingName]) with
  | .error e => return .system e
  | .ok () =>
    match Address.resolve settings.host settings.port with
    | .error fault => return .host fault
    | .ok address =>
      let server ← Socket.Server.mk
      match ← attempted (do server.bind (socketAddress address); server.listen 1024) with
      | .error e => return .system e
      | .ok () =>
        let vault := { Service.vaultOf settings with base := { absolute := true, steps := [] } }
        let state ← Std.Mutex.new { disk := ← gather base [] {} }
        accept { base, vault, state } server
        return .system .inputOutput

/-- Prints what a run has come to. -/
def report : Service.Outcome → IO UInt32
  | .ended status out err => do
    IO.print out
    IO.eprint err
    return status
  | .waiting .. => return 0

/-- Runs the program with its arguments. -/
def run (arguments : List Bytes) : IO UInt32 := do
  let file ← match Settings.CommandLine.parse arguments with
    | .ok { config := some path, .. } => readText path
    | _ => pure (.ok [])
  match Settings.loadWith (fun _ => file) arguments with
  | .error stop => report (.ofLoadStop stop)
  | .ok settings =>
    IO.eprint (LogFilter.complaints settings.logLevel)
    let obstacle ← serve settings
    report (.failed "" (Service.diagnoseObstacle obstacle))

end UserVault.Daemon

/-- The service, as its arguments and the settings file tell it. -/
def main (arguments : List String) : IO UInt32 :=
  UserVault.Daemon.run (arguments.map UserVault.Utf8.ofString)
