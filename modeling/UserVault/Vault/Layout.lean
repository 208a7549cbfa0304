import UserVault.Disk.Path
import UserVault.Text.Numeral
import UserVault.Vault.Error

/-!
# Layout

```text
base/.staging        files on their way in
base/user/name       the file that the user stored under the name
```

The user's directory is named by the decimal numeral of the user.
-/

namespace UserVault

open Disk

/-- How a vault works. -/
structure Vault.Options where
  /-- The most payload bytes moved at once; 0 counts as 1. -/
  chunkSize : Nat := 4096
  /-- Whether a file is written aside and renamed into place. -/
  atomic : Bool := true
  /-- Whether stores and removals of one path take turns. -/
  exclusive : Bool := false
  deriving DecidableEq, Repr

/-- A vault is a directory and a way of working in it. -/
structure Vault where
  base : Path
  options : Vault.Options := {}
  deriving DecidableEq, Repr

end UserVault

namespace UserVault.Vault

open Disk

/-- The name of the directory for files on their way in. -/
def stagingName : Name := Utf8.ofString ".staging"

/-- How the name of a file on its way in begins. -/
def stagedStem : Name := Utf8.ofString "upload-"

def chunkSize (v : Vault) : Nat := max 1 v.options.chunkSize

def stagingDirectory (v : Vault) : Path := v.base.join stagingName

/-- The directory of all files of a user. -/
def userDirectory (v : Vault) (user : UInt32) : Path :=
  v.base.join (Decimal.encode user.toNat)

/-- The path of a user's file.  The path must lie right inside the user's directory. -/
def resolve (v : Vault) (user : UInt32) (name : Bytes) : Except VaultError Path :=
  match checkName name with
  | .error fault => .error (.invalidName fault)
  | .ok text =>
    let path := (v.userDirectory user).join name
    if path.parent? = some (v.userDirectory user) ∧ path.fileName?.isSome then .ok path
    else .error (.invalidName (.outside text))

end UserVault.Vault
