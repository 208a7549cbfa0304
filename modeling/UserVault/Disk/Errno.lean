/-!
# System errors

The failures that a call on the file system or the network reports, each with its number, its
name as a class of errors, and its text.
-/

namespace UserVault.Disk

inductive Errno
  | noEntry
  | inputOutput
  | accessDenied
  | exists
  | noDevice
  | notDirectory
  | isDirectory
  | invalidArgument
  | noSpace
  | nameTooLong
  | notEmpty
  | loop
  | addressInUse
  | addressNotAvailable
  | networkUnreachable
  | connectionRefused
  deriving DecidableEq, Repr

namespace Errno

def all : List Errno :=
  [.noEntry, .inputOutput, .accessDenied, .exists, .noDevice, .notDirectory, .isDirectory,
   .invalidArgument, .noSpace, .nameTooLong, .notEmpty, .loop, .addressInUse, .addressNotAvailable,
   .networkUnreachable, .connectionRefused]

def code : Errno → Nat
  | .noEntry => 2
  | .inputOutput => 5
  | .accessDenied => 13
  | .exists => 17
  | .noDevice => 19
  | .notDirectory => 20
  | .isDirectory => 21
  | .invalidArgument => 22
  | .noSpace => 28
  | .nameTooLong => 36
  | .notEmpty => 39
  | .loop => 40
  | .addressInUse => 98
  | .addressNotAvailable => 99
  | .networkUnreachable => 101
  | .connectionRefused => 111

def ofCode? (code : Nat) : Option Errno := all.find? (·.code = code)

def text : Errno → String
  | .noEntry => "No such file or directory"
  | .inputOutput => "Input/output error"
  | .accessDenied => "Permission denied"
  | .exists => "File exists"
  | .noDevice => "No such device"
  | .notDirectory => "Not a directory"
  | .isDirectory => "Is a directory"
  | .invalidArgument => "Invalid argument"
  | .noSpace => "No space left on device"
  | .nameTooLong => "File name too long"
  | .notEmpty => "Directory not empty"
  | .loop => "Too many levels of symbolic links"
  | .addressInUse => "Address already in use"
  | .addressNotAvailable => "Cannot assign requested address"
  | .networkUnreachable => "Network is unreachable"
  | .connectionRefused => "Connection refused"

/-- The class of an error as diagnostics name it. -/
def kindName : Errno → String
  | .noEntry => "NotFound"
  | .inputOutput => "Uncategorized"
  | .accessDenied => "PermissionDenied"
  | .exists => "AlreadyExists"
  | .noDevice => "Uncategorized"
  | .notDirectory => "NotADirectory"
  | .isDirectory => "IsADirectory"
  | .invalidArgument => "InvalidInput"
  | .noSpace => "StorageFull"
  | .nameTooLong => "InvalidFilename"
  | .notEmpty => "DirectoryNotEmpty"
  | .loop => "FilesystemLoop"
  | .addressInUse => "AddrInUse"
  | .addressNotAvailable => "AddrNotAvailable"
  | .networkUnreachable => "NetworkUnreachable"
  | .connectionRefused => "ConnectionRefused"

def message (e : Errno) : String := s!"{e.text} (os error {e.code})"

end Errno

end UserVault.Disk
