import UserVault.Disk.Calls
import UserVault.Vault.Layout
import UserVault.Vault.Turns

/-!
# The state of a vault

All that the parties at work in a vault share: the disk and the table of turns.
-/

namespace UserVault.Vault

open Disk

structure State where
  disk : Disk
  turns : Turns := {}

namespace State

/-- Takes the next step of a party's turn at a path. -/
def advance (s : State) (path : Path) (turn : Turn) : Turn × State :=
  let (turn, turns) := turn.next path s.turns
  (turn, { s with turns })

end State

/-- Makes the directories that a vault needs before it can be used. -/
def prepare (v : Vault) (d : Disk) : Except Errno Unit × Disk :=
  d.makeDirectories v.stagingDirectory

end UserVault.Vault
