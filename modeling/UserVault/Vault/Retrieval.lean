import UserVault.Vault.State

/-!
# Retrievals

A retrieval opens the regular file that a name leads to, through links if there are any.  The
length is that of the moment of opening.
-/

namespace UserVault.Vault

open Disk

/-- A file opened for reading. -/
structure Opened where
  length : UInt32
  file : FileId
  deriving DecidableEq, Repr

/-- Opens a user's file. -/
def retrieve (v : Vault) (d : Disk) (user : UInt32) (name : Bytes) : Except VaultError Opened :=
  match v.resolve user name with
  | .error e => .error e
  | .ok path =>
    match d.openRead path with
    | .error e => .error (.ofLookup e)
    | .ok (.file file) =>
      let size := (d.contentOf file).size
      if size < UInt32.size then .ok { length := UInt32.ofNat size, file }
      else .error (.tooLarge size)
    | .ok _ => .error .notFound

end UserVault.Vault
