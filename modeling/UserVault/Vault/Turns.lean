import UserVault.Table
import UserVault.Disk.Path

/-!
# Taking turns

Those who write to one path may have to take turns.  The table of turns holds, for each path that
somebody is at, the lock of the path; a lock counts the parties that refer to it.  An entry is
made by the first party that comes and taken away by the last that leaves.

A party goes through the steps of `Turn.next`, one at a time and interleaved with the steps of
other parties; the only one that may have to wait is the step from `waiting` to `inside`.
-/

namespace UserVault.Vault

open Disk

/-- The identity of a lock. -/
abbrev LockId := Nat

structure Lock where
  /-- The parties that refer to the lock; the table's own reference is not counted. -/
  parties : Nat := 0
  held : Bool := false
  deriving DecidableEq, Repr

structure Turns where
  /-- The lock of each path that has one. -/
  entries : Table Path LockId := {}
  /-- Every lock that was ever made. -/
  locks : Table LockId Lock := {}
  /-- No lock has this identity or a greater one. -/
  nextLock : LockId := 0

/-- How far a party has come with its turn at a path. -/
inductive Turn
  | coming
  /-- It refers to a lock and waits for it. -/
  | waiting (lock : LockId)
  /-- It holds the lock. -/
  | inside (lock : LockId)
  /-- It has let the lock go and still refers to it. -/
  | released (lock : LockId)
  /-- It refers to no lock any more and has not yet looked whether to take the entry away. -/
  | leaving
  | gone
  deriving DecidableEq, Repr

namespace Turns

def lock? (t : Turns) (id : LockId) : Option Lock := t.locks.get? id

/-- Changes a lock. -/
def update (t : Turns) (id : LockId) (f : Lock → Lock) : Turns :=
  match t.lock? id with
  | some lock => { t with locks := t.locks.set id (f lock) }
  | none => t

/-- Refers to the lock of a path, which is made if the path has none. -/
def enter (t : Turns) (path : Path) : LockId × Turns :=
  match t.entries.get? path with
  | some id => (id, t.update id fun lock => { lock with parties := lock.parties + 1 })
  | none =>
    (t.nextLock,
      { entries := t.entries.set path t.nextLock
        locks := t.locks.set t.nextLock { parties := 1 }
        nextLock := t.nextLock + 1 })

/-- Whether nobody holds a lock. -/
def isFree (t : Turns) (id : LockId) : Bool :=
  match t.lock? id with
  | some lock => !lock.held
  | none => true

def acquire (t : Turns) (id : LockId) : Turns := t.update id ({ · with held := true })

def release (t : Turns) (id : LockId) : Turns := t.update id ({ · with held := false })

/-- Gives up a reference to a lock. -/
def leave (t : Turns) (id : LockId) : Turns :=
  t.update id fun lock => { lock with parties := lock.parties - 1 }

/-- Takes away the entry of a path whose lock no party refers to. -/
def sweep (t : Turns) (path : Path) : Turns :=
  match t.entries.get? path with
  | none => t
  | some id =>
    match t.lock? id with
    | some { parties := 0, .. } => { t with entries := t.entries.erase path }
    | _ => t

/-- Whether somebody holds the lock of a path. -/
def isHeld (t : Turns) (path : Path) : Bool :=
  match t.entries.get? path with
  | some id => !t.isFree id
  | none => false

end Turns

namespace Turn

/-- Whether the next step may be taken now. -/
def ready (turn : Turn) (t : Turns) : Bool :=
  match turn with
  | .waiting id => t.isFree id
  | _ => true

/-- The next step of a party's turn at `path`. -/
def next (path : Path) (turn : Turn) (t : Turns) : Turn × Turns :=
  match turn with
  | .coming => let (id, t) := t.enter path; (.waiting id, t)
  | .waiting id => (.inside id, t.acquire id)
  | .inside id => (.released id, t.release id)
  | .released id => (.leaving, t.leave id)
  | .leaving => (.gone, t.sweep path)
  | .gone => (.gone, t)

/-- How many steps are left. -/
def stepsLeft : Turn → Nat
  | .coming => 5
  | .waiting _ => 4
  | .inside _ => 3
  | .released _ => 2
  | .leaving => 1
  | .gone => 0

end Turn

end UserVault.Vault
