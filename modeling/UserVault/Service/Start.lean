import UserVault.Net.Network
import UserVault.Settings.Load
import UserVault.Vault.State

/-!
# Starting the service

The service makes the directories of its vault, and then listens at its address.
-/

namespace UserVault.Service

open Disk Net

/-- What the system has against a step of the start. -/
inductive Obstacle
  | system (e : Errno)
  /-- A path that holds a NUL, which no path can. -/
  | nul
  | host (fault : HostFault)
  deriving DecidableEq, Repr

def Obstacle.message : Obstacle → String
  | .system e => e.message
  | .nul => HostFault.nul.message
  | .host fault => fault.message

/-- The vault that settings describe. -/
def vaultOf (s : Settings) : Vault where
  base := Path.parse s.baseDirectory
  options := { chunkSize := s.chunkSize, atomic := s.atomic, exclusive := s.exclusive }

/-- Makes the directories of the vault. -/
def prepare (s : Settings) (d : Disk) : Except Obstacle Vault × Disk :=
  if s.baseDirectory.contains 0 then (.error .nul, d)
  else
    match (vaultOf s).prepare d with
    | (.ok (), d) => (.ok (vaultOf s), d)
    | (.error e, d) => (.error (.system e), d)

/-- Listens at the address of the settings. -/
def listen (s : Settings) (n : Network) : Except Obstacle (Address × Network) :=
  match Address.resolve s.host s.port with
  | .error fault => .error (.host fault)
  | .ok address => (n.listen address).mapError .system

end UserVault.Service
