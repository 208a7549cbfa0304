import UserVault.Vault.State

/-!
# Removals

A removal takes its turn at the path, where writers take turns, and takes the name away.
-/

namespace UserVault.Vault

open Disk

namespace Removal

/-- Where a removal stands. -/
inductive Stage
  | takingTurn
  | unlinking
  | givingTurn (result : Except VaultError Removed)
  | finished (result : Except VaultError Removed)

end Removal

structure Removal where
  target : Path
  stage : Removal.Stage
  turn : Turn := .gone

namespace Removal

/-- A removal whose name has been looked at and nothing else done. -/
def start (v : Vault) (user : UInt32) (name : Bytes) : Removal :=
  match v.resolve user name with
  | .error e => { target := v.userDirectory user, stage := .finished (.error e) }
  | .ok target =>
    if v.options.exclusive then { target, stage := .takingTurn, turn := .coming }
    else { target, stage := .unlinking }

def result? (r : Removal) : Option (Except VaultError Removed) :=
  match r.stage with
  | .finished result => some result
  | _ => none

/-- What the outcome of an unlink means; that nothing was there is no error. -/
def outcome : Except Errno Unit → Except VaultError Removed
  | .ok () => .ok .deleted
  | .error .noEntry => .ok .absent
  | .error e => .error (.system { errno := e })

/-- The stage after the work on the path is over. -/
def settle (r : Removal) (result : Except VaultError Removed) : Removal :=
  { r with stage := if r.turn = .gone then .finished result else .givingTurn result }

/-- One step of a removal; `fault` is the failure of the system call of this step, if the system
makes it fail. -/
def step (fault : Option Errno) (r : Removal) (s : State) : Removal × State :=
  match r.stage with
  | .takingTurn =>
    let (turn, s) := s.advance r.target r.turn
    match turn with
    | .inside _ => ({ r with turn, stage := .unlinking }, s)
    | _ => ({ r with turn }, s)
  | .unlinking =>
    match attempt fault (s.disk.unlink r.target) with
    | .error e => (r.settle (outcome (.error e)), s)
    | .ok disk => (r.settle (outcome (.ok ())), { s with disk })
  | .givingTurn result =>
    let (turn, s) := s.advance r.target r.turn
    ({ r with turn, stage := if turn = .gone then .finished result else .givingTurn result }, s)
  | .finished _ => (r, s)

/-- Whether the next step can be taken now. -/
def ready (r : Removal) (s : State) : Bool :=
  match r.stage with
  | .takingTurn => r.turn.ready s.turns
  | _ => true

/-- An upper bound on the number of steps that a removal takes from here. -/
def stepsLeft (r : Removal) : Nat :=
  match r.stage with
  | .finished _ => 0
  | .givingTurn _ => r.turn.stepsLeft
  | .unlinking => 6
  | .takingTurn => 6 + r.turn.stepsLeft

/-- Takes steps until the removal is finished, at most `steps`.  As for an upload, no step is waited
for. -/
def runFor : (steps : Nat) → (faults : Nat → Option Errno) → Removal → State → Removal × State
  | 0, _, r, s => (r, s)
  | steps + 1, faults, r, s =>
    match r.stage with
    | .finished _ => (r, s)
    | _ =>
      let (r, s) := r.step (faults 0) s
      runFor steps (fun n => faults (n + 1)) r s

/-- Takes all the steps that are left. -/
def run (faults : Nat → Option Errno) (r : Removal) (s : State) : Removal × State :=
  r.runFor r.stepsLeft faults s

end Removal

/-- Removes a user's file while nobody else is at the path. -/
def remove (v : Vault) (s : State) (user : UInt32) (name : Bytes) :
    Except VaultError Removed × State :=
  let (r, s) := (Removal.start v user name).run (fun _ => none) s
  (r.result?.getD (.ok .absent), s)

end UserVault.Vault
