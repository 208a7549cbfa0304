import UserVault.Vault.State

/-!
# Listings

A listing has the names of the regular files in a user's own directory, made well-formed text and
then sorted by their bytes.  Links are not followed, so they are not listed.
-/

namespace UserVault.Vault

open Disk

/-- Whether `a` comes before `b` in a listing, or is the same. -/
def byteOrder (a b : Bytes) : Bool := compare a b |>.isLE

/-- The names of regular files among the entries of a directory, in whatever order these come. -/
def fileNames (entries : List (Name × Node)) : List Bytes :=
  (entries.filterMap fun (name, node) =>
    match node with
    | .file _ => some (Utf8.repair name)
    | _ => none).mergeSort byteOrder

/-- The names of a user's files. -/
def listNames (v : Vault) (d : Disk) (user : UInt32) : Except VaultError (List Bytes) :=
  match d.readDirectory (v.userDirectory user) with
  | .error .noEntry => .error .noFiles
  | .error e => .error (.system { errno := e })
  | .ok entries =>
    match fileNames entries with
    | [] => .error .noFiles
    | names => .ok names

/-- The byte that ends a name in a listing. -/
def newline : UInt8 := 0x0A

/-- The text of a listing: each name with a line end. -/
def listingText (names : List Bytes) : Bytes :=
  names.flatMap (· ++ [newline])

def list (v : Vault) (d : Disk) (user : UInt32) : Except VaultError Bytes :=
  (v.listNames d user).map listingText

end UserVault.Vault
