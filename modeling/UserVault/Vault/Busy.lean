import UserVault.Vault.Upload
import UserVault.Vault.Removal

/-!
# A vault at work

While uploads are under way, a store or removal of a path that one of them holds waits until that
one is finished.  Everything else goes on beside them.
-/

namespace UserVault.Vault

open Disk Link

/-- A vault with uploads under way, whose payloads are all there. -/
structure Busy where
  state : State
  uploads : List Upload := []

namespace Busy

/-- Lets the chosen ones of some uploads come to their ends. -/
def finishSome (v : Vault) (chosen : Upload → Bool) (s : State) : List Upload → List Upload × State
  | [] => ([], s)
  | u :: rest =>
    let (u, s) := if chosen u then u.run v (fun _ => none) s else (u, s)
    let (rest, s) := finishSome v chosen s rest
    (u :: rest, s)

/-- Waits for the upload that holds the path of a user's file, if one does. -/
def await (v : Vault) (b : Busy) (user : UInt32) (name : Bytes) : Busy :=
  match v.resolve user name with
  | .error _ => b
  | .ok path =>
    if b.state.turns.isHeld path then
      let (uploads, state) := finishSome v (·.target = path) b.state b.uploads
      { state, uploads }
    else b

/-- Stores a payload, after an upload under way if need be. -/
def store (v : Vault) (b : Busy) (user : UInt32) (name : Bytes) (length : UInt32)
    (body : Source) : Stored × Busy :=
  let b := b.await v user name
  let stored := v.store b.state user name length body
  (stored, { b with state := stored.state })

/-- Removes a user's file, after an upload under way if need be. -/
def remove (v : Vault) (b : Busy) (user : UInt32) (name : Bytes) :
    Except VaultError Removed × Busy :=
  let b := b.await v user name
  let (result, state) := v.remove b.state user name
  (result, { b with state })

end Busy

end UserVault.Vault
