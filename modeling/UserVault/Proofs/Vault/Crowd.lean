import Mathlib.Logic.Function.Basic
import UserVault.Vault.Retrieval
import UserVault.Vault.Listing
import UserVault.Proofs.Vault.Removals

/-!
# Many parties at one vault

Any number of stores, removals, restores and listings work in a vault at the same time, one step
of one of them after the other, in whatever order.  A step that has to wait is not taken.  The
crowd also keeps what has happened to the names of files, for later reference: which payloads were
put in their places by a rename, and which names were taken away.

Whatever the parties do, the tree stays orderly.
-/

namespace UserVault.Vault

open Disk Link

/-! ## 1. Parties -/

/-- What somebody brings to a vault to be stored. -/
structure Order where
  user : UInt32
  name : Bytes
  length : UInt32
  body : Source

/-- The payload of an order: all of it, or as much of it as comes. -/
def Order.payload (o : Order) : Bytes := o.body.front.take o.length.toNat

/-- What has happened to the name of a user's file. -/
inductive Event
  /-- A rename has put the payload of an order in its place. -/
  | put (order : Order)
  /-- The name has been taken away. -/
  | gone (user : UInt32) (name : Bytes)

/-- The order whose payload was put in the place of a user's file last, if the name has not been
taken away since.  The latest event comes first. -/
def lastPut (user : UInt32) (name : Bytes) : List Event → Option Order
  | [] => none
  | .put order :: events =>
    if order.user = user ∧ order.name = name then some order else lastPut user name events
  | .gone user' name' :: events =>
    if user' = user ∧ name' = name then none else lastPut user name events

structure Storing where
  order : Order
  upload : Upload

structure Removing where
  user : UInt32
  name : Bytes
  removal : Removal

/-- A restore: what its opening came to, and what has been read of the file since. -/
structure Restoring where
  result : Except VaultError Opened
  sent : Bytes := []
  /-- Whether the file has ended before its length was reached. -/
  short : Bool := false

/-- Reads on, at most `count` bytes, up to the length that the file had when it was opened. -/
def Restoring.read (r : Restoring) (d : Disk) (count : Nat) : Restoring :=
  match r.result with
  | .error _ => r
  | .ok file =>
    if r.sent.length < file.length.toNat then
      match d.readAt file.file r.sent.length
          (min (max 1 count) (file.length.toNat - r.sent.length)) with
      | [] => { r with short := true }
      | bytes => { r with sent := r.sent ++ bytes }
    else r

structure Crowd where
  state : State
  stores : Nat → Option Storing := fun _ => none
  removals : Nat → Option Removing := fun _ => none
  restores : Nat → Option Restoring := fun _ => none
  /-- What has happened to names, the latest first. -/
  events : List Event := []

/-! ## 2. Steps -/

/-- Whether the next step of an upload renames a file into its place. -/
def Upload.renames (u : Upload) (fault : Option Errno) (d : Disk) : Bool :=
  match u.stage with
  | .publishing staged => (attempt fault (d.rename staged u.target)).isOk
  | _ => false

/-- Whether the next step of a removal takes a name away. -/
def Removal.unlinks (r : Removal) (fault : Option Errno) (d : Disk) : Bool :=
  match r.stage with
  | .unlinking => (attempt fault (d.unlink r.target)).isOk
  | _ => false

/-- What one of the parties does next. -/
inductive Action
  /-- Somebody comes with an order, to be the store with the number `i`. -/
  | store (i : Nat) (order : Order)
  | remove (i : Nat) (user : UInt32) (name : Bytes)
  /-- Somebody opens a user's file. -/
  | restore (i : Nat) (user : UInt32) (name : Bytes)
  | list (user : UInt32)
  /-- A store takes a step; `fault` is the failure of its system call, if there is one. -/
  | advanceStore (i : Nat) (fault : Option Errno)
  | advanceRemoval (i : Nat) (fault : Option Errno)
  /-- A restore reads on. -/
  | read (i : Nat) (count : Nat)

namespace Crowd

/-- A crowd before anybody has come, in a vault that has just been prepared. -/
def start (v : Vault) (d : Disk) : Crowd := { state := { disk := (v.prepare d).2 } }

def step (v : Vault) (c : Crowd) : Action → Crowd
  | .store i order =>
    match c.stores i with
    | some _ => c
    | none =>
      let upload := Upload.start v order.user order.name order.length order.body
      { c with stores := Function.update c.stores i (some { order, upload }) }
  | .remove i user name =>
    match c.removals i with
    | some _ => c
    | none =>
      let removal := Removal.start v user name
      { c with removals := Function.update c.removals i (some { user, name, removal }) }
  | .restore i user name =>
    match c.restores i with
    | some _ => c
    | none =>
      let result := v.retrieve c.state.disk user name
      { c with restores := Function.update c.restores i (some { result }) }
  | .list _ => c
  | .advanceStore i fault =>
    match c.stores i with
    | none => c
    | some p =>
      if p.upload.ready c.state then
        { c with
          state := (p.upload.step v fault c.state).2
          stores := Function.update c.stores i
            (some { p with upload := (p.upload.step v fault c.state).1 })
          events :=
            if p.upload.renames fault c.state.disk then .put p.order :: c.events else c.events }
      else c
  | .advanceRemoval i fault =>
    match c.removals i with
    | none => c
    | some p =>
      if p.removal.ready c.state then
        { c with
          state := (p.removal.step fault c.state).2
          removals := Function.update c.removals i
            (some { p with removal := (p.removal.step fault c.state).1 })
          events :=
            if p.removal.unlinks fault c.state.disk then .gone p.user p.name :: c.events
            else c.events }
      else c
  | .read i count =>
    match c.restores i with
    | none => c
    | some r =>
      { c with restores := Function.update c.restores i (some (r.read c.state.disk count)) }

/-- The crowd after some actions. -/
def run (v : Vault) (c : Crowd) (actions : List Action) : Crowd := actions.foldl (step v) c

-- What every step keeps holds after a run.
theorem run_induction {motive : Crowd → Prop} {v : Vault} (actions : List Action) {c : Crowd}
    (hstep : ∀ c action, motive c → motive (step v c action)) (h : motive c) :
    motive (run v c actions) := by
  induction actions generalizing c with
  | nil => exact h
  | cons action actions ih => exact ih (hstep c action h)

end Crowd

/-! ## 3. The tree of a crowd -/

variable {v : Vault} {root : Place} {d₀ : Disk} {c : Crowd}

/-- A store under a name that is not accepted is over before it begins; any other one keeps to its
spots. -/
def Storing.Tidy (v : Vault) (p : Storing) : Prop :=
  (∃ result, p.upload.stage = .finished result) ∨
    accepts p.order.name ∧ Placed v p.order.user p.order.name p.upload

def Removing.Tidy (v : Vault) (p : Removing) : Prop :=
  (∃ result, p.removal.stage = .finished result) ∨
    accepts p.name ∧ p.removal.target = v.pathOf (.file p.user p.name)

/-- The tree of a crowd is orderly, and all parties keep it so. -/
structure Crowd.Tidy (v : Vault) (root : Place) (d₀ : Disk) (c : Crowd) : Prop where
  tree : Orderly v root d₀ c.state.disk
  stores : ∀ i p, c.stores i = some p → p.Tidy v
  removals : ∀ i p, c.removals i = some p → p.Tidy v

theorem Removal.step_of_finished {r : Removal} {result : Except VaultError Removed}
    (h : r.stage = .finished result) (fault : Option Errno) (s : State) :
    r.step fault s = (r, s) := by
  simp only [Removal.step, h]

theorem tidy_start_store (v : Vault) (o : Order) :
    Storing.Tidy v ⟨o, Upload.start v o.user o.name o.length o.body⟩ := by
  by_cases hname : accepts o.name
  · exact .inr ⟨hname, placed_start v o.user hname o.length o.body⟩
  · obtain ⟨fault, hresolve⟩ := resolve_of_not_accepts v o.user hname
    refine .inl ⟨.error (.vault (.invalidName fault) o.length.toNat), ?_⟩
    simp only [Upload.start, hresolve]

theorem tidy_start_removal (v : Vault) (user : UInt32) (name : Bytes) :
    Removing.Tidy v ⟨user, name, Removal.start v user name⟩ := by
  by_cases hname : accepts name
  · refine .inr ⟨hname, ?_⟩
    simp only [Removal.start, resolve_of_accepts v user hname]
    split <;> rfl
  · obtain ⟨fault, hresolve⟩ := resolve_of_not_accepts v user hname
    refine .inl ⟨.error (.invalidName fault), ?_⟩
    simp only [Removal.start, hresolve]

/-- What a step of a store does to the tree and to the store. -/
theorem Storing.Tidy.step (hbase : EmptyBase v d₀ root) {p : Storing} (h : p.Tidy v) {s : State}
    (htree : Orderly v root d₀ s.disk) (fault : Option Errno) :
    Orderly v root d₀ (p.upload.step v fault s).2.disk ∧
      Storing.Tidy v { p with upload := (p.upload.step v fault s).1 } := by
  -- a store that is over does nothing, and any other one makes a move
  rcases h with ⟨result, hstage⟩ | ⟨hname, hplaced⟩
  · rw [Upload.step_of_finished hstage]
    exact ⟨htree, .inl ⟨result, hstage⟩⟩
  · have hmove := move_step hbase htree hname hplaced fault
    exact ⟨hmove.orderly hbase htree hname, .inr ⟨hname, hmove.placed hplaced⟩⟩

theorem Removing.Tidy.step (hbase : EmptyBase v d₀ root) {p : Removing} (h : p.Tidy v) {s : State}
    (htree : Orderly v root d₀ s.disk) (fault : Option Errno) :
    Orderly v root d₀ (p.removal.step fault s).2.disk ∧
      Removing.Tidy v { p with removal := (p.removal.step fault s).1 } := by
  rcases h with ⟨result, hstage⟩ | ⟨hname, htarget⟩
  · rw [Removal.step_of_finished hstage]
    exact ⟨htree, .inl ⟨result, hstage⟩⟩
  · have hmove := removal_step fault hbase htree hname htarget
    exact ⟨hmove.orderly htree, .inr ⟨hname, hmove.target_eq.trans htarget⟩⟩

-- A slot that has been given a party holds it, and the others are as they were.
theorem forall_update {α : Type} {slots : Nat → Option α} {P : α → Prop} {i : Nat} {a : α}
    (h : ∀ j b, slots j = some b → P b) (ha : P a) :
    ∀ j b, Function.update slots i (some a) j = some b → P b := by
  intro j b hb
  by_cases hj : j = i
  · rw [hj, Function.update_self] at hb
    exact Option.some.inj hb ▸ ha
  · rw [Function.update_of_ne hj] at hb
    exact h j b hb

namespace Crowd

theorem tidy_start (hbase : EmptyBase v d₀ root) : (start v d₀).Tidy v root d₀ :=
  ⟨orderly_prepare hbase, (fun _ _ h => nomatch h), (fun _ _ h => nomatch h)⟩

theorem Tidy.step (hbase : EmptyBase v d₀ root) (h : c.Tidy v root d₀) (action : Action) :
    (c.step v action).Tidy v root d₀ := by
  obtain ⟨htree, hstores, hremovals⟩ := h
  have hsame : c.Tidy v root d₀ := ⟨htree, hstores, hremovals⟩
  cases action with
  | store i order =>
    simp only [Crowd.step]
    split
    · exact hsame
    · exact ⟨htree, forall_update hstores (tidy_start_store v order), hremovals⟩
  | remove i user name =>
    simp only [Crowd.step]
    split
    · exact hsame
    · exact ⟨htree, hstores, forall_update hremovals (tidy_start_removal v user name)⟩
  | restore i user name =>
    simp only [Crowd.step]
    split
    · exact hsame
    · exact ⟨htree, hstores, hremovals⟩
  | list user => exact hsame
  | advanceStore i fault =>
    simp only [Crowd.step]
    split
    · exact hsame
    next p hp =>
      split
      · obtain ⟨htree', hp'⟩ := (hstores i p hp).step hbase htree fault
        exact ⟨htree', forall_update hstores hp', hremovals⟩
      · exact hsame
  | advanceRemoval i fault =>
    simp only [Crowd.step]
    split
    · exact hsame
    next p hp =>
      split
      · obtain ⟨htree', hp'⟩ := (hremovals i p hp).step hbase htree fault
        exact ⟨htree', hstores, forall_update hremovals hp'⟩
      · exact hsame
  | read i count =>
    simp only [Crowd.step]
    split
    · exact hsame
    · exact ⟨htree, hstores, hremovals⟩

theorem tidy_run (hbase : EmptyBase v d₀ root) (actions : List Action) :
    (run v (start v d₀) actions).Tidy v root d₀ :=
  run_induction actions (fun _ action h => h.step hbase action) (tidy_start hbase)

end Crowd

/-- A state that a vault can come to whose directory was empty on disk `d₀` at first, whoever works
in it. -/
def Reachable (v : Vault) (d₀ : Disk) (s : State) : Prop :=
  ∃ actions, s = (Crowd.run v (Crowd.start v d₀) actions).state

theorem Reachable.orderly (hbase : EmptyBase v d₀ root) {s : State} (h : Reachable v d₀ s) :
    Orderly v root d₀ s.disk := by
  obtain ⟨actions, rfl⟩ := h
  exact (Crowd.tidy_run hbase actions).tree

end UserVault.Vault
