import UserVault.Disk.Errno
import UserVault.Link.Fault
import UserVault.Vault.Name

/-!
# Failures of the vault

A store fails in two ways that leave the peer's stream in different states: a transport failure
means that the payload cannot be read any more, any other failure leaves a number of payload bytes
unread.
-/

namespace UserVault.Vault

open Disk Link

/-- A failure that the system reports, with the path it is about where the report names one. -/
structure SystemError where
  errno : Errno
  path : Option String := none
  deriving DecidableEq, Repr

def SystemError.message (e : SystemError) : String :=
  match e.path with
  | none => e.errno.message
  | some path => s!"{e.errno.message} at path \"{path}\""

/-- Why the vault did not do what was asked. -/
inductive VaultError
  | invalidName (fault : NameFault)
  /-- There is no regular file under the name. -/
  | notFound
  /-- The user has no file. -/
  | noFiles
  /-- The file is longer than a reply can say. -/
  | tooLarge (length : Nat)
  | system (e : SystemError)
  deriving DecidableEq, Repr

def VaultError.message : VaultError → String
  | .invalidName fault => s!"Invalid filename: {fault.message}"
  | .notFound => "File not found"
  | .noFiles => "No files stored for user"
  | .tooLarge length => s!"File too large: {length} bytes"
  | .system e => s!"Storage I/O error: {e.message}"

/-- An error of a call that looks for a file: nothing there means not found. -/
def VaultError.ofLookup : Errno → VaultError
  | .noEntry => .notFound
  | e => .system { errno := e }

/-- Why a store did not succeed. -/
inductive StoreError
  /-- The payload could not be read. -/
  | transport (fault : Fault)
  /-- The payload could not be kept; `unread` bytes of it are still to come from the peer. -/
  | vault (error : VaultError) (unread : Nat)
  deriving DecidableEq, Repr

def StoreError.message : StoreError → String
  | .transport fault => s!"Payload read failed: {fault.message}"
  | .vault error unread => s!"{error.message} ({unread} payload bytes unread)"

/-- What a removal found. -/
inductive Removed
  | deleted
  | absent
  deriving DecidableEq, Repr

end UserVault.Vault
