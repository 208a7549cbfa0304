import UserVault.Service.LogFilter
import UserVault.Service.Start
import UserVault.Text.Quoted

/-!
# The program

A run of the program either ends by itself, with a status and what it has printed, or comes to the
point where it waits for connections.  An error is printed in full detail, as a diagnosis.
-/

namespace UserVault.Service

open Disk Net

/-! ## Diagnoses -/

/-- A diagnosis with named parts. -/
def diagnosis (kind : String) (parts : List (String × String)) : String :=
  let shown := ", ".intercalate (parts.map fun (name, value) => s!"{name}: {value}")
  s!"{kind} \x7b {shown} \x7d"

def quotedText (text : String) : String := Quoted.quoted (Utf8.ofString text)

def diagnoseErrno (e : Errno) : String :=
  diagnosis "Os" [("code", toString e.code), ("kind", e.kindName), ("message", quotedText e.text)]

def diagnoseHost (fault : HostFault) : String :=
  match fault with
  | .nul => diagnosis "Error" [("kind", "InvalidInput"), ("message", quotedText fault.message)]
  | .unresolved =>
    diagnosis "Custom" [("kind", "Uncategorized"), ("error", quotedText fault.message)]

def diagnoseObstacle : Obstacle → String
  | .system e => diagnoseErrno e
  | .nul => diagnoseHost .nul
  | .host fault => diagnoseHost fault

def diagnoseRead (fault : Settings.ReadFault) : String :=
  match fault with
  | .system e => diagnoseErrno e
  | .notText => diagnosis "Error" [("kind", "InvalidData"), ("message", quotedText fault.message)]

def diagnoseLoad (e : Settings.LoadError) : String :=
  match e with
  | .unreadable path fault => s!"FileRead({Quoted.quoted path}, {diagnoseRead fault})"
  | .unparsable path => s!"TomlParse({Quoted.quoted path}, {e.reason})"
  | .unusable _ => s!"Invalid({quotedText e.reason})"

/-! ## Runs -/

/-- What a run comes to. -/
inductive Outcome
  | ended (status : UInt32) (out err : String)
  | waiting (vault : Vault) (address : Address) (disk : Disk) (err : String)

/-- An end with an error, after `complaints`. -/
def Outcome.failed (complaints diagnosis : String) : Outcome :=
  .ended 1 "" s!"{complaints}Error: {diagnosis}\n"

/-- An end because of what the command line says. -/
def Outcome.ofStop : Settings.Stop → Outcome
  | .asked q => .ended 0 q.answer ""
  | .wrong e => .ended 2 "" s!"{e.printed}\n\nFor more information, try '--help'.\n"

/-- An end because there are no settings to go on with. -/
def Outcome.ofLoadStop : Settings.LoadStop → Outcome
  | .commandLine stop => .ofStop stop
  | .file e => .failed "" (diagnoseLoad e)

/-- Starts the service with its settings. -/
def start (d : Disk) (n : Network) (s : Settings) : Outcome :=
  let complaints := LogFilter.complaints s.logLevel
  match prepare s d with
  | (.error obstacle, _) => .failed complaints (diagnoseObstacle obstacle)
  | (.ok vault, disk) =>
    match listen s n with
    | .error obstacle => .failed complaints (diagnoseObstacle obstacle)
    | .ok (address, _) => .waiting vault address disk complaints

/-- Runs the program with its arguments. -/
def run (d : Disk) (n : Network) (arguments : List Bytes) : Outcome :=
  match Settings.load d arguments with
  | .error stop => .ofLoadStop stop
  | .ok settings => start d n settings

end UserVault.Service
