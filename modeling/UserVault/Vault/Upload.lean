import UserVault.Link.Source
import UserVault.Vault.State

/-!
# Uploads

A store copies exactly the declared number of payload bytes from a source to a user's file.  It is
a sequence of steps, so that several can be interleaved, each step with what the system makes of
it:

1. make the user's directory;
2. where writers take turns, come to hold the lock of the path;
3. open a new file aside, or the file itself, emptied;
4. read and write one chunk after the other;
5. flush, then sync, then put a file written aside in its place;
6. after a failure, remove the file aside, or whatever is at the path;
7. give the turn up.
-/

namespace UserVault.Vault

open Disk Link

/-- Where an upload stands. -/
inductive Stage
  | preparing
  | takingTurn
  | opening
  /-- The file is open; the path of a file written aside comes with it. -/
  | copying (file : Handle) (staged : Option Path)
  | flushing (file : Handle) (staged : Option Path)
  | syncing (file : Handle) (staged : Option Path)
  | publishing (staged : Path)
  | discarding (staged : Option Path) (cause : StoreError)
  | givingTurn (result : Except StoreError Unit)
  | finished (result : Except StoreError Unit)

structure Upload where
  user : UInt32
  /-- The path of the user's file. -/
  target : Path
  /-- Where the payload comes from. -/
  body : Source
  /-- The number of payload bytes not yet read. -/
  remaining : Nat
  stage : Stage
  turn : Turn := .gone

namespace Upload

/-- An upload whose name has been looked at and nothing else done. -/
def start (v : Vault) (user : UInt32) (name : Bytes) (length : UInt32) (body : Source) : Upload :=
  match v.resolve user name with
  | .error e =>
    { user, target := v.userDirectory user, body, remaining := length.toNat
      stage := .finished (.error (.vault e length.toNat)) }
  | .ok target =>
    { user, target, body, remaining := length.toNat, stage := .preparing }

/-- What a store comes to in the end, once it is known. -/
def result? (u : Upload) : Option (Except StoreError Unit) :=
  match u.stage with
  | .finished result => some result
  | _ => none

/-- A failure of the system while `unread` payload bytes are still to come. -/
def failure (e : Errno) (unread : Nat) : StoreError :=
  .vault (.system { errno := e }) unread

/-- The stage after the work on the path is over. -/
def settle (u : Upload) (result : Except StoreError Unit) : Upload :=
  { u with stage := if u.turn = .gone then .finished result else .givingTurn result }

/-- The number of the next file aside: the least whose name is not taken. -/
def freeNumber (v : Vault) (d : Disk) : Nat :=
  ((List.range (d.nodes.entries.length + 1)).find? fun n =>
    match d.locate (v.stagingDirectory.join (stagedStem ++ Decimal.encode n)) with
    | .ok (.node _ _) => false
    | _ => true).getD 0

/-- The path of the next file aside. -/
def stagedPath (v : Vault) (d : Disk) : Path :=
  v.stagingDirectory.join (stagedStem ++ Decimal.encode (freeNumber v d))

/-- The failure to make a file aside.  Its text gives the path with the number left open. -/
def stagingFailure (v : Vault) (e : Errno) (unread : Nat) : StoreError :=
  let path := (v.stagingDirectory.join (stagedStem ++ Utf8.ofString "*")).text
  let shown := (Utf8.decode? path).map String.ofList
  .vault (.system { errno := e, path := some (shown.getD "") }) unread

/-- Opens the file that the payload is written to. -/
def openFile (v : Vault) (fault : Option Errno) (u : Upload) (s : State) : Upload × State :=
  if v.options.atomic then
    let staged := stagedPath v s.disk
    match attempt fault (s.disk.createNew staged) with
    | .error e => (u.settle (.error (stagingFailure v e u.remaining)), s)
    | .ok (file, disk) => ({ u with stage := .copying file (some staged) }, { s with disk })
  else
    match attempt fault (s.disk.create u.target) with
    | .error e => (u.settle (.error (failure e u.remaining)), s)
    | .ok (file, disk) => ({ u with stage := .copying file none }, { s with disk })

/-- Reads one chunk and writes it. -/
def copyChunk (v : Vault) (fault : Option Errno) (file : Handle) (staged : Option Path)
    (u : Upload) (s : State) : Upload × State :=
  let want := min v.chunkSize u.remaining
  match Source.exactly want u.body with
  | (.error fault, body) => ({ u with body, stage := .discarding staged (.transport fault) }, s)
  | (.ok bytes, body) =>
    let u := { u with body, remaining := u.remaining - want }
    match s.disk.write file bytes fault with
    | (.error e, disk) =>
      ({ u with stage := .discarding staged (failure e u.remaining) }, { s with disk })
    | (.ok file, disk) => ({ u with stage := .copying file staged }, { s with disk })

/-- Takes away what a failed upload has written. -/
def discard (u : Upload) (staged : Option Path) (d : Disk) : Disk :=
  match d.unlink (staged.getD u.target) with
  | .ok d => d
  | .error _ => d

/-- One step of an upload; `fault` is the failure of the system call of this step, if the system
makes it fail. -/
def step (v : Vault) (fault : Option Errno) (u : Upload) (s : State) : Upload × State :=
  match u.stage with
  | .preparing =>
    match fault with
    | some e => (u.settle (.error (failure e u.remaining)), s)
    | none =>
      match s.disk.makeDirectories (v.userDirectory u.user) with
      | (.error e, disk) => (u.settle (.error (failure e u.remaining)), { s with disk })
      | (.ok (), disk) =>
        if v.options.exclusive then
          ({ u with stage := .takingTurn, turn := .coming }, { s with disk })
        else ({ u with stage := .opening }, { s with disk })
  | .takingTurn =>
    let (turn, s) := s.advance u.target u.turn
    match turn with
    | .inside _ => ({ u with turn, stage := .opening }, s)
    | _ => ({ u with turn }, s)
  | .opening => u.openFile v fault s
  | .copying file staged =>
    if u.remaining = 0 then ({ u with stage := .flushing file staged }, s)
    else u.copyChunk v fault file staged s
  | .flushing file staged =>
    match attempt fault file.flush with
    | .error e => ({ u with stage := .discarding staged (failure e 0) }, s)
    | .ok () => ({ u with stage := .syncing file staged }, s)
  | .syncing file staged =>
    match attempt fault file.sync with
    | .error e => ({ u with stage := .discarding staged (failure e 0) }, s)
    | .ok () =>
      match staged with
      | some staged => ({ u with stage := .publishing staged }, s)
      | none => (u.settle (.ok ()), s)
  | .publishing staged =>
    match attempt fault (s.disk.rename staged u.target) with
    | .error e => ({ u with stage := .discarding (some staged) (failure e 0) }, s)
    | .ok disk => (u.settle (.ok ()), { s with disk })
  | .discarding staged cause =>
    (u.settle (.error cause), { s with disk := u.discard staged s.disk })
  | .givingTurn result =>
    let (turn, s) := s.advance u.target u.turn
    ({ u with turn, stage := if turn = .gone then .finished result else .givingTurn result }, s)
  | .finished _ => (u, s)

/-- Whether the next step can be taken now. -/
def ready (u : Upload) (s : State) : Bool :=
  match u.stage with
  | .takingTurn => u.turn.ready s.turns
  | _ => true

/-- An upper bound on the number of steps that an upload takes from here. -/
def stepsLeft (u : Upload) : Nat :=
  match u.stage with
  | .finished _ => 0
  | .givingTurn _ => u.turn.stepsLeft
  | .discarding _ _ => 6
  | .publishing _ => 7
  | .syncing _ _ => 8
  | .flushing _ _ => 9
  | .copying _ _ => 10 + u.remaining
  | .opening => 11 + u.remaining
  | .takingTurn => 11 + u.remaining + u.turn.stepsLeft
  | .preparing => 17 + u.remaining

/-- Takes steps until the upload is finished, at most `steps`; the system's failures come from
`faults`, one for each step.  Nobody else takes a step in between, and no step is waited for: it is
not asked whether the upload is `ready`, so a lock that somebody holds at its path is taken over. -/
def runFor (v : Vault) : (steps : Nat) → (faults : Nat → Option Errno) → Upload → State →
    Upload × State
  | 0, _, u, s => (u, s)
  | steps + 1, faults, u, s =>
    match u.stage with
    | .finished _ => (u, s)
    | _ =>
      let (u, s) := u.step v (faults 0) s
      runFor v steps (fun n => faults (n + 1)) u s

/-- Whether an upload cannot go on until more of its payload is there. -/
def starved (v : Vault) (u : Upload) : Bool :=
  match u.stage with
  | .copying _ _ =>
    u.remaining ≠ 0 ∧ (u.body.fill (min v.chunkSize u.remaining)).stop = .ended
  | _ => false

/-- Takes steps until the upload is finished or starved, at most `steps`. -/
def runFed (v : Vault) : (steps : Nat) → Upload → State → Upload × State
  | 0, u, s => (u, s)
  | steps + 1, u, s =>
    if u.starved v then (u, s)
    else
      let (u, s) := u.step v none s
      runFed v steps u s

/-- Takes all the steps that are left. -/
def run (v : Vault) (faults : Nat → Option Errno) (u : Upload) (s : State) : Upload × State :=
  u.runFor v u.stepsLeft faults s

theorem load_body_copyChunk_le (v : Vault) (fault : Option Errno) (file : Handle)
    (staged : Option Path) (u : Upload) (s : State) :
    (u.copyChunk v fault file staged s).1.body.load ≤ u.body.load := by
  have h := Reading.shrinks_exactly (min v.chunkSize u.remaining) u.body
  dsimp only [copyChunk]
  split
  next hr => simpa [hr] using h
  next hr =>
    rw [hr] at h
    split <;> exact h

theorem load_body_step_le (v : Vault) (fault : Option Errno) (u : Upload) (s : State) :
    (u.step v fault s).1.body.load ≤ u.body.load := by
  dsimp only [step]
  split
  · split
    · exact Nat.le_refl _
    · split
      · exact Nat.le_refl _
      · split <;> exact Nat.le_refl _
  · split <;> exact Nat.le_refl _
  · dsimp only [openFile]
    split <;> split <;> exact Nat.le_refl _
  · split
    · exact Nat.le_refl _
    · exact load_body_copyChunk_le ..
  · split <;> exact Nat.le_refl _
  · split
    · exact Nat.le_refl _
    · split <;> exact Nat.le_refl _
  · split <;> exact Nat.le_refl _
  · exact Nat.le_refl _
  · exact Nat.le_refl _
  · exact Nat.le_refl _

theorem load_body_runFor_le (v : Vault) (steps : Nat) (faults : Nat → Option Errno) (u : Upload)
    (s : State) : (u.runFor v steps faults s).1.body.load ≤ u.body.load := by
  induction steps generalizing faults u s with
  | zero => exact Nat.le_refl _
  | succ steps ih =>
    unfold runFor
    split
    · exact Nat.le_refl _
    · exact Nat.le_trans (ih ..) (load_body_step_le ..)

end Upload

/-- The outcome of a store, the source after it, and the vault after it. -/
structure Stored where
  result : Except StoreError Unit
  body : Source
  state : State

/-- Stores a payload while nobody else is at the path.  Where somebody holds the lock there, it does
not wait for its turn but takes the lock over, as `Upload.runFor` does. -/
def storeWith (v : Vault) (faults : Nat → Option Errno) (s : State) (user : UInt32) (name : Bytes)
    (length : UInt32) (body : Source) : Stored :=
  let (u, s) := (Upload.start v user name length body).run v faults s
  { result := u.result?.getD (.ok ()), body := u.body, state := s }

/-- A store takes from its body and gives nothing back. -/
theorem load_body_storeWith_le (v : Vault) (faults : Nat → Option Errno) (s : State)
    (user : UInt32) (name : Bytes) (length : UInt32) (body : Source) :
    (v.storeWith faults s user name length body).body.load ≤ body.load := by
  have hrun := Upload.load_body_runFor_le v (Upload.start v user name length body).stepsLeft faults
    (Upload.start v user name length body) s
  have hstart : (Upload.start v user name length body).body = body := by
    dsimp only [Upload.start]
    split <;> rfl
  rw [hstart] at hrun
  exact hrun

/-- Stores a payload while nobody else is at the path, as `storeWith` does, and no call of the
system fails for reasons of its own. -/
def store (v : Vault) (s : State) (user : UInt32) (name : Bytes) (length : UInt32)
    (body : Source) : Stored :=
  v.storeWith (fun _ => none) s user name length body

end UserVault.Vault
