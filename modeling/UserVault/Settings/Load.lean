import UserVault.Disk.Calls
import UserVault.Settings.CommandLine
import UserVault.Settings.File

/-!
# Loading settings

What the command line says comes before what the settings file says, and that before the defaults.
-/

namespace UserVault

/-- All that the service is told. -/
structure Settings where
  host : String
  port : UInt16
  workers : Option Nat
  baseDirectory : Bytes
  chunkSize : Nat
  atomic : Bool
  exclusive : Bool
  logLevel : String
  deriving DecidableEq, Repr

end UserVault

namespace UserVault.Settings

open Disk (Errno)

def merge (c : CommandLine) (f : File) : Settings where
  host := c.host.getD f.server.host
  port := c.port.getD f.server.port
  workers := c.workers <|> f.server.workers
  baseDirectory := c.baseDirectory.getD f.storage.baseDirectory
  chunkSize := f.storage.chunkSize
  atomic := f.storage.atomic
  exclusive := f.storage.exclusive
  logLevel := c.logLevel.getD f.logging.level

/-- The settings when nothing is said. -/
def default : Settings := merge {} {}

/-- Where the service listens, as text. -/
def address (s : Settings) : String := s!"{s.host}:{s.port}"

/-! ## Settings that cannot be used -/

inductive Unusable
  | noChunk
  | noWorkers
  deriving DecidableEq, Repr

def Unusable.message : Unusable → String
  | .noChunk => "chunk_size must be greater than zero"
  | .noWorkers => "workers must be greater than zero"

/-- The first thing that makes settings unusable. -/
def unusable? (s : Settings) : Option Unusable :=
  if s.chunkSize = 0 then some .noChunk
  else if s.workers = some 0 then some .noWorkers
  else none

/-! ## Loading -/

/-- Why a file cannot be read as text. -/
inductive ReadFault
  | system (e : Errno)
  | notText
  deriving DecidableEq, Repr

def ReadFault.message : ReadFault → String
  | .system e => e.message
  | .notText => "stream did not contain valid UTF-8"

/-- The text of a file. -/
def readText (d : Disk) (path : Bytes) : Except ReadFault (List Char) :=
  match d.openText path >>= d.readAll with
  | .error e => .error (.system e)
  | .ok content =>
    match Utf8.decode? content with
    | some text => .ok text
    | none => .error .notText

inductive LoadError
  | unreadable (path : Bytes) (fault : ReadFault)
  | unparsable (path : Bytes)
  | unusable (fault : Unusable)
  deriving DecidableEq, Repr

/-- What could not be done. -/
def LoadError.subject : LoadError → String
  | .unreadable path _ =>
    s!"Failed to read config file '{String.ofList (Utf8.repaired path)}': "
  | .unparsable path =>
    s!"Failed to parse config file '{String.ofList (Utf8.repaired path)}': "
  | .unusable _ => "Invalid configuration: "

/-- Why it could not be done. -/
def LoadError.reason : LoadError → String
  | .unreadable _ fault => fault.message
  | .unparsable _ => "not the TOML of a settings file"
  | .unusable fault => fault.message

def LoadError.message (e : LoadError) : String := e.subject ++ e.reason

/-- What the settings file says, if there is one; `read` gives the text of a file. -/
def loadFile (read : Bytes → Except ReadFault (List Char)) : Option Bytes → Except LoadError File
  | none => .ok {}
  | some path =>
    match read path with
    | .error fault => .error (.unreadable path fault)
    | .ok text =>
      match File.parse? text with
      | some file => .ok file
      | none => .error (.unparsable path)

/-- Why there are no settings to go on with. -/
inductive LoadStop
  | commandLine (stop : Stop)
  | file (e : LoadError)
  deriving DecidableEq, Repr

/-- The settings that arguments and the file they name give; `read` gives the text of a file. -/
def loadWith (read : Bytes → Except ReadFault (List Char)) (arguments : List Bytes) :
    Except LoadStop Settings :=
  match CommandLine.parse arguments with
  | .error stop => .error (.commandLine stop)
  | .ok c =>
    match loadFile read c.config with
    | .error e => .error (.file e)
    | .ok f =>
      let settings := merge c f
      match settings.unusable? with
      | some fault => .error (.file (.unusable fault))
      | none => .ok settings

/-- The settings that arguments and the file they name on a disk give. -/
def load (d : Disk) (arguments : List Bytes) : Except LoadStop Settings :=
  loadWith (readText d) arguments

end UserVault.Settings
