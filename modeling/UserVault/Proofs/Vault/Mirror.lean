import UserVault.Proofs.Vault.Reserved
import UserVault.Proofs.Vault.Sight
import UserVault.Proofs.Vault.Visitors

/-!
# A crowd and what is left of it

Beside a crowd there is another one in which only the parties of one user have moved.  It mirrors
the crowd for the user: each party of the user has a twin in it, and the disks are alike at the
user's spots.  A step that is made for the user is made in both crowds and looks the same; a step
for somebody else is made in one of them and does not show.
-/

namespace UserVault.Vault

open Disk Link

variable {v : Vault} {root : Place} {d₀ d d' d₁ d₁' : Disk} {user : UInt32} {c c' : Crowd}
  {ρ ρ' : FileId → FileId → Prop}

/-! ## 1. Moments -/

/-- Who has come to open the file of each restore. -/
abbrev Readers := Nat → Option UInt32

/-- What is about to happen in a crowd. -/
structure Moment where
  crowd : Crowd
  readers : Readers
  action : Action

namespace Moment

/-- Whether an action is made for a user.  Who comes to a number that is taken does nothing. -/
def concerns (m : Moment) (user : UInt32) : Bool :=
  match m.action with
  | .store i order => order.user = user ∧ (m.crowd.stores i).isNone
  | .remove i user' _ => user' = user ∧ (m.crowd.removals i).isNone
  | .restore i user' _ => user' = user ∧ (m.crowd.restores i).isNone
  | .list user' => user' = user
  | .advanceStore i _ => (m.crowd.stores i).map (·.order.user) = some user
  | .advanceRemoval i _ => (m.crowd.removals i).map (·.user) = some user
  | .read i _ => m.readers i = some user

/-- The readers after an action. -/
def readersAfter (m : Moment) : Readers :=
  match m.action with
  | .restore i user _ =>
    if (m.crowd.restores i).isNone then Function.update m.readers i (some user) else m.readers
  | _ => m.readers

/-- The action with the failure of the system that it meets. -/
def given (v : Vault) (m : Moment) : Action :=
  match m.action with
  | .advanceStore i fault =>
    match m.crowd.stores i with
    | some p => .advanceStore i (p.upload.met v fault m.crowd.state.disk)
    | none => .advanceStore i fault
  | action => action

end Moment

/-- A store of a crowd and its twin. -/
structure Storing.Twin (v : Vault) (root : Place) (ρ : FileId → FileId → Prop) (d d' : Disk)
    (p p' : Storing) : Prop where
  order : p'.order = p.order
  upload : p.upload.Twin v root ρ d d' p'.upload

/-- A removal of a crowd and its twin. -/
structure Removing.Twin (p p' : Removing) : Prop where
  user : p'.user = p.user
  name : p'.name = p.name
  removal : p.removal.Twin p'.removal

section
variable {d₀ : Disk} {s s' : State} {W : Spot → Prop}

/-- A step of a store, which may have come to its end, and the same step of its twin. -/
theorem Storing.Twin.inStep {p p' : Storing} (h : p.Twin v root ρ s.disk s'.disk p')
    (hbase : EmptyBase v d₀ root) (htidy : p.Tidy v) (htree : Orderly v root d₀ s.disk)
    (htree' : Orderly v root d₀ s'.disk) (halike : Alike root W ρ s.disk s'.disk)
    (hstands : p.upload.Stands v root d₀ s.disk p.order.user)
    (hstands' : p'.upload.Stands v root d₀ s'.disk p'.order.user)
    (hfile : p.upload.stage = .opening → W (.file p.order.user p.order.name))
    (hstaged : ∀ n, ¬W (.staged n)) (fault : Option Errno)
    (hfits' : p.upload.met v fault s.disk = none → p.upload.stage = .opening →
      v.options.atomic = true → ¬TooLong v (Upload.freeNumber v s'.disk)) :
    Upload.InStep v root W ρ s.disk s'.disk (p.upload.step v fault s)
      (p'.upload.step v (p.upload.met v fault s.disk) s') := by
  obtain ⟨horder, htwin⟩ := h
  rcases htidy with ⟨result, hstage⟩ | ⟨hname, hplaced⟩
  · have hresult' : p'.upload.result? = some result := by
      rw [htwin.result?_eq, Upload.result?, hstage]
    rw [Upload.step_of_finished hstage,
      Upload.step_of_finished (Upload.stage_of_result? hresult')]
    exact Upload.inStep_of_same halike htwin
  · have hfolder' := hstands'.folder
    rw [horder] at hfolder'
    exact htwin.step hbase htree htree' halike hname hplaced hstands.folder hfolder' hfile hstaged
      fault hfits'

/-- A step of a removal, which may have come to its end, and the same step of its twin. -/
theorem Removing.Twin.step {p p' : Removing} (h : p.Twin p') (hbase : EmptyBase v d₀ root)
    (htidy : p.Tidy v) (htree : Orderly v root d₀ s.disk) (htree' : Orderly v root d₀ s'.disk)
    (halike : Alike root W ρ s.disk s'.disk)
    (hfile : p.removal.stage = .unlinking → W (.file p.user p.name)) (fault : Option Errno) :
    Alike root W ρ (p.removal.step fault s).2.disk (p'.removal.step fault s').2.disk ∧
      Removal.Twin (p.removal.step fault s).1 (p'.removal.step fault s').1 := by
  rcases htidy with ⟨result, hstage⟩ | ⟨hname, htarget⟩
  · rw [Removal.step_of_finished hstage,
      Removal.step_of_finished (h.removal.stage.trans hstage)]
    exact ⟨halike, h.removal⟩
  · exact h.removal.step hbase htree htree' halike hname htarget hfile fault

end

/-- What somebody notices of an action. -/
inductive Seen
  /-- The step has to wait. -/
  | waiting
  /-- What the store has come to so far, what is left of its body, and how much is to be read. -/
  | store (result : Option (Except StoreError Unit)) (body : Source) (remaining : Nat)
  | removal (result : Option (Except VaultError Removed))
  | restore (opened : Except VaultError UInt32) (sent : Bytes) (short : Bool)
  | listing (names : Except VaultError (List Bytes))
  /-- There is nobody of this number. -/
  | nobody

namespace Crowd

def seenOfStore (c : Crowd) (i : Nat) : Seen :=
  match c.stores i with
  | some p => .store p.upload.result? p.upload.body p.upload.remaining
  | none => .nobody

def seenOfRemoval (c : Crowd) (i : Nat) : Seen :=
  match c.removals i with
  | some p => .removal p.removal.result?
  | none => .nobody

def seenOfRestore (c : Crowd) (i : Nat) : Seen :=
  match c.restores i with
  | some r => .restore (r.result.map (·.length)) r.sent r.short
  | none => .nobody

/-- Whether the next step of a store can be taken now, if there is such a store. -/
def storeReady (c : Crowd) (i : Nat) : Bool :=
  match c.stores i with
  | some p => p.upload.ready c.state
  | none => true

def removalReady (c : Crowd) (i : Nat) : Bool :=
  match c.removals i with
  | some p => p.removal.ready c.state
  | none => true

/-- What is noticed of the next action. -/
def seen (v : Vault) (c : Crowd) (action : Action) : Seen :=
  match action with
  | .store i _ => (c.step v action).seenOfStore i
  | .remove i _ _ => (c.step v action).seenOfRemoval i
  | .restore i _ _ | .read i _ => (c.step v action).seenOfRestore i
  | .list user => .listing (v.listNames c.state.disk user)
  | .advanceStore i _ => if c.storeReady i then (c.step v action).seenOfStore i else .waiting
  | .advanceRemoval i _ => if c.removalReady i then (c.step v action).seenOfRemoval i else .waiting

/-! ## 2. Twin crowds -/

/-- Crowd `c'` mirrors crowd `c` for a user; `ρ` tells which of the files on the two disks
correspond. -/
structure Twin (v : Vault) (root : Place) (d₀ : Disk) (user : UInt32) (readers : Readers)
    (ρ : FileId → FileId → Prop) (c c' : Crowd) : Prop where
  standing : c.Standing v root d₀
  standing' : c'.Standing v root d₀
  fair : c.Fair v
  fair' : c'.Fair v
  alike : Alike root (Mine user) ρ c.state.disk c'.state.disk
  reserved : Reserved v root (Mine user) (fun i => ∃ p, c.stores i = some p ∧ p.order.user = user)
    (fun id => ∃ id', ρ id id') c.state.disk c.stores
  stores : ∀ i p, c.stores i = some p → p.order.user = user →
    ∃ p', c'.stores i = some p' ∧ p.Twin v root ρ c.state.disk c'.state.disk p'
  stores' : ∀ i p', c'.stores i = some p' → ∃ p, c.stores i = some p ∧ p.order.user = user
  removals : ∀ i p, c.removals i = some p → p.user = user →
    ∃ p', c'.removals i = some p' ∧ p.Twin p'
  removals' : ∀ i p', c'.removals i = some p' → ∃ p, c.removals i = some p ∧ p.user = user
  restores : ∀ i r, c.restores i = some r → readers i = some user →
    ∃ r', c'.restores i = some r' ∧ r.Twin ρ r'
  restores' : ∀ i r', c'.restores i = some r' → ∃ r, c.restores i = some r ∧ readers i = some user

section
variable {readers : Readers} (h : c.Twin v root d₀ user readers ρ c')
include h

/-! ## 3. Who has to wait -/

/-- A party of the user is inside at a path just when its twin is. -/
theorem Twin.inside_iff (name : Bytes) :
    (∃ x id, c'.turnOf x = some (v.pathOf (.file user name), .inside id)) ↔
      ∃ x id, c.turnOf x = some (v.pathOf (.file user name), .inside id) := by
  constructor
  · rintro ⟨x, id, hx⟩
    cases x with
    | store i =>
      rw [turnOf_store] at hx
      obtain ⟨p', hp', heq⟩ := Option.map_eq_some_iff.mp hx
      obtain ⟨p, hp, huser⟩ := h.stores' i p' hp'
      obtain ⟨q, hq, -, htwin⟩ := h.stores i p hp huser
      rw [hp'] at hq
      cases hq
      obtain ⟨htarget, hturn⟩ := Prod.mk.inj heq
      obtain ⟨id', hinside⟩ := (Turn.inside_iff htwin.turn).mp ⟨id, hturn⟩
      refine ⟨.store i, id', ?_⟩
      simp only [turnOf_store, hp, Option.map_some, ← htwin.target, htarget, hinside]
    | removal i =>
      rw [turnOf_removal] at hx
      obtain ⟨p', hp', heq⟩ := Option.map_eq_some_iff.mp hx
      obtain ⟨p, hp, huser⟩ := h.removals' i p' hp'
      obtain ⟨q, hq, -, -, htwin⟩ := h.removals i p hp huser
      rw [hp'] at hq
      cases hq
      obtain ⟨htarget, hturn⟩ := Prod.mk.inj heq
      obtain ⟨id', hinside⟩ := (Turn.inside_iff htwin.turn).mp ⟨id, hturn⟩
      refine ⟨.removal i, id', ?_⟩
      simp only [turnOf_removal, hp, Option.map_some, ← htwin.target, htarget, hinside]
  · rintro ⟨x, id, hx⟩
    cases x with
    | store i =>
      rw [turnOf_store] at hx
      obtain ⟨p, hp, heq⟩ := Option.map_eq_some_iff.mp hx
      obtain ⟨htarget, hturn⟩ := Prod.mk.inj heq
      -- whoever is inside at a path is at work on the file there
      have huser : p.order.user = user := by
        rcases h.standing.tidy.stores i p hp with ⟨result, hstage⟩ | ⟨-, hplaced⟩
        · have hfits := h.fair.stores i p hp
          simp only [Upload.TurnFits, hstage] at hfits
          cases hfits.symm.trans hturn
        · have hspot := pathOf_injective (hplaced.target_eq.symm.trans htarget)
          cases hspot
          rfl
      obtain ⟨p', hp', -, htwin⟩ := h.stores i p hp huser
      obtain ⟨id', hinside⟩ := (Turn.inside_iff htwin.turn).mpr ⟨id, hturn⟩
      refine ⟨.store i, id', ?_⟩
      simp only [turnOf_store, hp', Option.map_some, htwin.target, htarget, hinside]
    | removal i =>
      rw [turnOf_removal] at hx
      obtain ⟨p, hp, heq⟩ := Option.map_eq_some_iff.mp hx
      obtain ⟨htarget, hturn⟩ := Prod.mk.inj heq
      have huser : p.user = user := by
        rcases h.standing.tidy.removals i p hp with ⟨result, hstage⟩ | ⟨-, hplaced⟩
        · have hfits := h.fair.removals i p hp
          simp only [Removal.TurnFits, hstage] at hfits
          cases hfits.symm.trans hturn
        · have hspot := pathOf_injective (hplaced.symm.trans htarget)
          cases hspot
          rfl
      obtain ⟨p', hp', -, -, htwin⟩ := h.removals i p hp huser
      obtain ⟨id', hinside⟩ := (Turn.inside_iff htwin.turn).mpr ⟨id, hturn⟩
      refine ⟨.removal i, id', ?_⟩
      simp only [turnOf_removal, hp', Option.map_some, htwin.target, htarget, hinside]

end

/-- A party that waits is ready just when nobody is inside at its path. -/
theorem Fair.ready_iff (h : c.Fair v) {x : Visitor} {path : Path} {id : LockId}
    (hx : c.turnOf x = some (path, .waiting id)) :
    c.state.turns.isFree id = true ↔ ¬∃ y id', c.turnOf y = some (path, .inside id') :=
  h.turns.isFree_iff_of_waiting hx

section
variable {readers : Readers} (h : c.Twin v root d₀ user readers ρ c')
include h

/-- Of two turns at a user's path that have the same form, one has to wait just when the other one
has. -/
theorem Twin.turn_ready_eq {x : Visitor} (name : Bytes) {turn turn' : Turn}
    (hform : turn'.form = turn.form)
    (hx : c.turnOf x = some (v.pathOf (.file user name), turn))
    (hx' : c'.turnOf x = some (v.pathOf (.file user name), turn')) :
    turn'.ready c'.state.turns = turn.ready c.state.turns := by
  cases turn <;> cases turn' <;> first | rfl | cases hform
  rw [Bool.eq_iff_iff]
  show c'.state.turns.isFree _ = true ↔ c.state.turns.isFree _ = true
  rw [h.fair.ready_iff hx, h.fair'.ready_iff hx', h.inside_iff name]

theorem Twin.storeReady_eq {i : Nat} {p : Storing} (hp : c.stores i = some p)
    (huser : p.order.user = user) : c'.storeReady i = c.storeReady i := by
  obtain ⟨p', hp', -, htwin⟩ := h.stores i p hp huser
  simp only [storeReady, hp, hp', Upload.ready]
  have hstages := htwin.stage
  generalize hstage : p.upload.stage = stage at hstages ⊢
  generalize p'.upload.stage = stage' at hstages ⊢
  cases hstages with
  | takingTurn =>
    rcases h.standing.tidy.stores i p hp with ⟨result, hfinished⟩ | ⟨-, hplaced⟩
    · cases hstage.symm.trans hfinished
    · refine h.turn_ready_eq (x := .store i) p.order.name htwin.turn ?_ ?_
      · simp only [turnOf_store, hp, Option.map_some, hplaced.target_eq, huser]
      · simp only [turnOf_store, hp', Option.map_some, htwin.target, hplaced.target_eq, huser]
  | _ => rfl

theorem Twin.removalReady_eq {i : Nat} {p : Removing} (hp : c.removals i = some p)
    (huser : p.user = user) : c'.removalReady i = c.removalReady i := by
  obtain ⟨p', hp', -, -, htwin⟩ := h.removals i p hp huser
  simp only [removalReady, hp, hp', Removal.ready, htwin.stage]
  cases hstage : p.removal.stage with
  | takingTurn =>
    rcases h.standing.tidy.removals i p hp with ⟨result, hfinished⟩ | ⟨-, htarget⟩
    · cases hstage.symm.trans hfinished
    · refine h.turn_ready_eq (x := .removal i) p.name htwin.turn ?_ ?_
      · simp only [turnOf_removal, hp, Option.map_some, htarget, huser]
      · simp only [turnOf_removal, hp', Option.map_some, htwin.target, htarget, huser]
  | _ => rfl

/-- Numbers for files aside have not run out for the twin either. -/
theorem Twin.freeNumber_fits (hbase : EmptyBase v d₀ root)
    (hfits : ¬TooLong v (Upload.freeNumber v c.state.disk)) :
    ¬TooLong v (Upload.freeNumber v c'.state.disk) := by
  let R (m k : Nat) : Prop := ∃ i p p', c.stores i = some p ∧ c'.stores i = some p' ∧
    p'.upload.opened? = some (some (v.pathOf (.staged m))) ∧
    p.upload.opened? = some (some (v.pathOf (.staged k)))
  refine Vault.freeNumber_fits hbase h.standing.tidy.tree h.standing'.tidy.tree (R := R) ?_ ?_ hfits
  · intro m htaken
    obtain ⟨node, hnode⟩ := Option.ne_none_iff_exists'.mp htaken
    obtain ⟨i, p', hp', hopened'⟩ := h.standing'.owned m node hnode
    obtain ⟨p, hp, huser⟩ := h.stores' i p' hp'
    obtain ⟨q, hq, -, htwin⟩ := h.stores i p hp huser
    rw [hp'] at hq
    cases hq
    obtain ⟨k, hopened, htaken', hshort⟩ := htwin.exists_staged hopened'
    exact ⟨k, ⟨i, p, p', hp, hp', hopened', hopened⟩, htaken', hshort⟩
  · rintro m m' k ⟨i, p, p', hp, hp', hm, hk⟩ ⟨j, q, q', hq, hq', hm', hk'⟩
    have hij : i = j := by
      by_contra hne
      exact h.standing.distinct i j p q _ hne hp hq hk hk'
    subst hij
    rw [hp'] at hq'
    cases hq'
    exact Spot.staged.inj (pathOf_injective
      (Option.some.inj (Option.some.inj (hm.symm.trans hm'))))

end

/-! ## 4. Steps for others -/

section
variable {α β : Type} {slots : Nat → Option α} {slots' : Nat → Option β} (mine : Nat → α → Prop)
  (T : α → β → Prop) {i : Nat} {a : α} {b : β}

/-- A party and its twin are given the same number. -/
theorem forall_update_twin (hself : T a b)
    (hother : ∀ j x, j ≠ i → slots j = some x → mine j x → ∃ y, slots' j = some y ∧ T x y) :
    ∀ j x, Function.update slots i (some a) j = some x → mine j x →
      ∃ y, Function.update slots' i (some b) j = some y ∧ T x y := by
  intro j x hx hmine
  rcases eq_some_update hx with ⟨rfl, rfl⟩ | ⟨hj, hx⟩
  · exact ⟨b, Function.update_self .., hself⟩
  · obtain ⟨y, hy, htwin⟩ := hother j x hj hx hmine
    exact ⟨y, update_self_of_ne hj hy, htwin⟩

theorem forall_update_origin (hself : mine i a)
    (hother : ∀ j y, slots' j = some y → ∃ x, slots j = some x ∧ mine j x) :
    ∀ j y, Function.update slots' i (some b) j = some y →
      ∃ x, Function.update slots i (some a) j = some x ∧ mine j x := by
  intro j y hy
  rcases eq_some_update hy with ⟨rfl, -⟩ | ⟨hj, hy⟩
  · exact ⟨a, Function.update_self .., hself⟩
  · obtain ⟨x, hx, hmine⟩ := hother j y hy
    exact ⟨x, update_self_of_ne hj hx, hmine⟩

-- A party that is not the user's needs no twin.

theorem forall_update_twin_other (hself : ¬mine i a)
    (hother : ∀ j x, slots j = some x → mine j x → ∃ y, slots' j = some y ∧ T x y) :
    ∀ j x, Function.update slots i (some a) j = some x → mine j x →
      ∃ y, slots' j = some y ∧ T x y := by
  intro j x hx hmine
  rcases eq_some_update hx with ⟨rfl, rfl⟩ | ⟨-, hx⟩
  · exact absurd hmine hself
  · exact hother j x hx hmine

theorem forall_update_origin_other (hself : ∀ x, slots i = some x → ¬mine i x)
    (hother : ∀ j y, slots' j = some y → ∃ x, slots j = some x ∧ mine j x) :
    ∀ j y, slots' j = some y → ∃ x, Function.update slots i (some a) j = some x ∧ mine j x := by
  intro j y hy
  obtain ⟨x, hx, hmine⟩ := hother j y hy
  refine ⟨x, update_self_of_ne ?_ hx, hmine⟩
  rintro rfl
  exact hself x hx hmine

end

theorem Twin.orderly (h : c.Twin v root d₀ user readers ρ c') :
    Orderly v root d₀ c.state.disk :=
  h.standing.tidy.tree

-- Whose a store is does not change when it takes a step.
theorem owner_update {stores : Nat → Option Storing} {i : Nat} {p : Storing}
    (hp : stores i = some p) (u : Upload) (user : UInt32) :
    (fun j => ∃ q, Function.update stores i (some { p with upload := u }) j = some q ∧
      q.order.user = user) = fun j => ∃ q, stores j = some q ∧ q.order.user = user := by
  funext j
  refine propext ⟨?_, ?_⟩
  · rintro ⟨q, hq, huser⟩
    rcases eq_some_update hq with ⟨rfl, rfl⟩ | ⟨-, hq⟩
    · exact ⟨p, hp, huser⟩
    · exact ⟨q, hq, huser⟩
  · rintro ⟨q, hq, huser⟩
    by_cases hj : j = i
    · subst hj
      rw [hp] at hq
      cases hq
      exact ⟨_, Function.update_self .., huser⟩
    · exact ⟨q, update_self_of_ne hj hq, huser⟩

section
variable {readers : Readers} {i : Nat}

/-- Somebody comes with an order that is not the user's. -/
theorem Twin.enter_other (h : c.Twin v root d₀ user readers ρ c')
    (hfree : c.stores i = none) {order : Order} (huser : order.user ≠ user) {p : Storing}
    (hp : p = ⟨order, Upload.start v order.user order.name order.length order.body⟩)
    (hstanding : Standing v root d₀ { c with stores := Function.update c.stores i (some p) })
    (hfair : Fair v { c with stores := Function.update c.stores i (some p) }) :
    Twin v root d₀ user readers ρ { c with stores := Function.update c.stores i (some p) }
      c' := by
  have hstill {j : Nat} {q : Storing} (hq : c.stores j = some q) : j ≠ i := by
    rintro rfl
    rw [hfree] at hq
    cases hq
  refine
    { h with standing := hstanding, fair := hfair, reserved := ?_, stores := ?_, stores' := ?_ }
  · refine h.reserved.mono ?_ ?_
    · rintro j q path ⟨q', hq', huser'⟩ hq -
      rw [hq] at hq'
      cases hq'
      have hq' := update_self_of_ne (a := p) (hstill hq) hq
      exact ⟨⟨q, hq', huser'⟩, hq'⟩
    · intro j q file hwatched hq hfile
      rcases eq_some_update hq with ⟨rfl, rfl⟩ | ⟨hj, hq⟩
      · rw [hp, Upload.handle?_start] at hfile
        cases hfile
      · refine ⟨fun ⟨q', hq', huser'⟩ => hwatched ⟨q', ?_, huser'⟩, hq⟩
        exact update_self_of_ne hj hq'
  · exact forall_update_twin_other (fun _ (q : Storing) => q.order.user = user)
      (Storing.Twin v root ρ c.state.disk c'.state.disk) (by rwa [hp]) h.stores
  · exact forall_update_origin_other (fun _ (q : Storing) => q.order.user = user)
      (fun _ hq => absurd rfl (hstill hq)) h.stores'

/-- A store that is not the user's takes a step. -/
theorem Twin.advance_other (h : c.Twin v root d₀ user readers ρ c') {p : Storing}
    (hp : c.stores i = some p) (huser : p.order.user ≠ user) {u : Upload} {s : State}
    (hadvances : p.Advances v root d₀ c.state.disk u s.disk) {events : List Event} {c₁ : Crowd}
    (hc₁ : c₁ = { c with
      state := s, stores := Function.update c.stores i (some { p with upload := u }), events })
    (hstanding : c₁.Standing v root d₀) (hfair : c₁.Fair v) :
    c₁.Twin v root d₀ user readers ρ c' := by
  have htree' : Orderly v root d₀ s.disk := by
    have htree := hstanding.tidy.tree
    rwa [hc₁] at htree
  have hwatched : ¬∃ q, c.stores i = some q ∧ q.order.user = user := by
    rintro ⟨q, hq, huser'⟩
    rw [hp] at hq
    cases hq
    exact huser huser'
  have hspots (spot : Spot) (hspot : Mine user spot) :
      ¬p.upload.Touches v root p.order.user p.order.name c.state.disk spot := by
    cases spot with
    | staging | staged => cases hspot
    | folder user' => exact fun htouches => huser (htouches.1.symm.trans hspot)
    | file user' name' => exact fun htouches => huser (htouches.1.1.symm.trans hspot)
  have hfiles (id id' : FileId) (hid : ρ id id') :
      ¬p.upload.Writes root p.order.user p.order.name c.state.disk id :=
    h.reserved.not_writes hwatched hp hspots ⟨id', hid⟩
  subst hc₁
  refine { h with
    standing := hstanding, fair := hfair, alike := ?_, reserved := ?_, stores := ?_, stores' := ?_ }
  · exact h.alike.beside hadvances.recordsKept (htree'.bound.trans h.orderly.bound.symm)
      (htree'.umask.trans h.orderly.umask.symm) hspots hfiles
  · rw [owner_update hp u user]
    refine h.reserved.beside_store hwatched hp hadvances hspots fun j q n hj hq hopened => ?_
    exact h.standing.apart hp (fun heq => hwatched (heq ▸ hj)) hq hopened
  · intro j q hq huser'
    rcases eq_some_update hq with ⟨rfl, rfl⟩ | ⟨hj, hq⟩
    · exact absurd huser' huser
    · obtain ⟨q', hq', horder, htwin⟩ := h.stores j q hq huser'
      refine ⟨q', hq', horder, htwin.mono (fun _ _ hid => hid) (fun n hopened => ?_) fun _ _ => rfl⟩
      exact hadvances.recordsKept.node _ (h.standing.apart hp hj hq hopened)
  · exact forall_update_origin_other (fun _ (q : Storing) => q.order.user = user)
      (fun q hq huser' => hwatched ⟨q, hq, huser'⟩) h.stores'

/-- A removal that is not the user's takes a step. -/
theorem Twin.advanceRemoval_other (hbase : EmptyBase v d₀ root)
    (h : c.Twin v root d₀ user readers ρ c') {p : Removing} (hp : c.removals i = some p)
    (huser : p.user ≠ user) (fault : Option Errno) {events : List Event} {c₁ : Crowd}
    (hc₁ : c₁ = { c with
      state := (p.removal.step fault c.state).2
      removals := Function.update c.removals i
        (some { p with removal := (p.removal.step fault c.state).1 })
      events })
    (hstanding : c₁.Standing v root d₀) (hfair : c₁.Fair v) :
    c₁.Twin v root d₀ user readers ρ c' := by
  obtain ⟨r, hrecords⟩ := (h.standing.tidy.removals i p hp).recordsKept hbase h.orderly fault
  have htree' : Orderly v root d₀ (p.removal.step fault c.state).2.disk := by
    have htree := hstanding.tidy.tree
    rwa [hc₁] at htree
  have hspots (spot : Spot) (hspot : Mine user spot) : ¬(spot = .file p.user p.name ∧ r) := by
    rintro ⟨rfl, -⟩
    exact huser hspot
  subst hc₁
  refine { h with
    standing := hstanding, fair := hfair, alike := ?_, reserved := ?_, stores := ?_, removals := ?_
    removals' := ?_ }
  · exact h.alike.beside hrecords (htree'.bound.trans h.orderly.bound.symm)
      (htree'.umask.trans h.orderly.umask.symm) hspots fun _ _ _ hfalse => hfalse
  · exact h.reserved.beside hrecords (fun _ hP => ⟨_, _, hP.1⟩)
      (.inr fun spot hP hmine => hspots spot hmine hP)
  · intro j q hq huser'
    obtain ⟨q', hq', horder, htwin⟩ := h.stores j q hq huser'
    refine ⟨q', hq', horder, htwin.mono (fun _ _ hid => hid) (fun n _ => ?_) fun _ _ => rfl⟩
    exact hrecords.node _ (by simp)
  · exact forall_update_twin_other (fun _ (q : Removing) => q.user = user) Removing.Twin huser
      h.removals
  · refine forall_update_origin_other (fun _ (q : Removing) => q.user = user) (fun q hq => ?_)
      h.removals'
    cases hp.symm.trans hq
    exact huser

/-- What is done for others does not show in a mirror. -/
theorem Twin.step_other (hbase : EmptyBase v d₀ root)
    (h : c.Twin v root d₀ user readers ρ c') (action : Action)
    (hother : Moment.concerns ⟨c, readers, action⟩ user = false) :
    (c.step v action).Twin v root d₀ user (Moment.readersAfter ⟨c, readers, action⟩) ρ c' := by
  have hstanding := h.standing.step hbase action
  have hfair := h.fair.step action
  cases action with
  | store i order =>
    simp only [Moment.readersAfter]
    cases hfree : c.stores i with
    | some p =>
      simp only [Crowd.step, hfree]
      exact h
    | none =>
      have huser : order.user ≠ user := by simpa [Moment.concerns, hfree] using hother
      simp only [Crowd.step, hfree] at hstanding hfair ⊢
      exact h.enter_other hfree huser rfl hstanding hfair
  | remove i user' name =>
    simp only [Moment.readersAfter]
    cases hfree : c.removals i with
    | some p =>
      simp only [Crowd.step, hfree]
      exact h
    | none =>
      have huser : user' ≠ user := by simpa [Moment.concerns, hfree] using hother
      simp only [Crowd.step, hfree] at hstanding hfair ⊢
      refine { h with standing := hstanding, fair := hfair, removals := ?_, removals' := ?_ }
      · exact forall_update_twin_other (fun _ (q : Removing) => q.user = user) Removing.Twin huser
          h.removals
      · refine forall_update_origin_other (fun _ (q : Removing) => q.user = user) (fun q hq => ?_)
          h.removals'
        cases hfree.symm.trans hq
  | restore i user' name =>
    cases hfree : c.restores i with
    | some r =>
      simp only [Crowd.step, Moment.readersAfter, hfree]
      exact h
    | none =>
      have huser : user' ≠ user := by simpa [Moment.concerns, hfree] using hother
      simp only [Crowd.step, Moment.readersAfter, hfree] at hstanding hfair ⊢
      refine { h with standing := hstanding, fair := hfair, restores := ?_, restores' := ?_ }
      · intro j r hr hreader
        by_cases hj : j = i
        · subst hj
          simp [huser] at hreader
        · simp only [Option.isNone_none, if_true, Function.update_of_ne hj] at hr hreader
          exact h.restores j r hr hreader
      · intro j r' hr'
        obtain ⟨r, hr, hreader⟩ := h.restores' j r' hr'
        have hj : j ≠ i := by
          rintro rfl
          cases hfree.symm.trans hr
        simp only [Option.isNone_none, if_true, Function.update_of_ne hj]
        exact ⟨r, hr, hreader⟩
  | list user' => exact h
  | advanceStore i fault =>
    simp only [Moment.readersAfter]
    cases hp : c.stores i with
    | none =>
      simp only [Crowd.step, hp]
      exact h
    | some p =>
      have huser : p.order.user ≠ user := by simpa [Moment.concerns, hp] using hother
      by_cases hready : p.upload.ready c.state
      · simp only [Crowd.step, hp, if_pos hready] at hstanding hfair ⊢
        exact h.advance_other hp huser ((h.standing.tidy.stores i p hp).advances hbase
          h.orderly h.standing.fresh (h.standing.stores i p hp) fault) rfl hstanding hfair
      · simp only [Crowd.step, hp, if_neg hready]
        exact h
  | advanceRemoval i fault =>
    simp only [Moment.readersAfter]
    cases hp : c.removals i with
    | none =>
      simp only [Crowd.step, hp]
      exact h
    | some p =>
      have huser : p.user ≠ user := by simpa [Moment.concerns, hp] using hother
      by_cases hready : p.removal.ready c.state
      · simp only [Crowd.step, hp, if_pos hready] at hstanding hfair ⊢
        exact h.advanceRemoval_other hbase hp huser fault rfl hstanding hfair
      · simp only [Crowd.step, hp, if_neg hready]
        exact h
  | read i count =>
    have hreader : readers i ≠ some user := by simpa [Moment.concerns] using hother
    simp only [Moment.readersAfter]
    cases hr : c.restores i with
    | none =>
      simp only [Crowd.step, hr]
      exact h
    | some r =>
      simp only [Crowd.step, hr] at hstanding hfair ⊢
      refine { h with standing := hstanding, fair := hfair, restores := ?_, restores' := ?_ }
      · exact forall_update_twin_other (fun j (_ : Restoring) => readers j = some user)
          (Restoring.Twin ρ) hreader h.restores
      · exact forall_update_origin_other (fun j (_ : Restoring) => readers j = some user)
          (fun _ _ => hreader) h.restores'

end

/-! ## 5. Steps for the user -/

theorem twin_start (v : Vault) (root : Place) (ρ : FileId → FileId → Prop) (d d' : Disk)
    (o : Order) : Upload.Twin v root ρ d d' (Upload.start v o.user o.name o.length o.body)
      (Upload.start v o.user o.name o.length o.body) := by
  refine ⟨rfl, rfl, rfl, rfl, rfl, ?_⟩
  unfold Upload.start
  split
  · exact .finished _
  · exact .preparing

section
variable {readers : Readers} {i : Nat}

/-- The user comes with an order. -/
theorem Twin.enter_own (h : c.Twin v root d₀ user readers ρ c')
    (hfree : c.stores i = none) {order : Order} (huser : order.user = user) {p : Storing}
    (hp : p = ⟨order, Upload.start v order.user order.name order.length order.body⟩)
    {c₁ c₁' : Crowd} (hc₁ : c₁ = { c with stores := Function.update c.stores i (some p) })
    (hc₁' : c₁' = { c' with stores := Function.update c'.stores i (some p) })
    (hstanding : c₁.Standing v root d₀) (hstanding' : c₁'.Standing v root d₀)
    (hfair : c₁.Fair v) (hfair' : c₁'.Fair v) :
    c₁.Twin v root d₀ user readers ρ c₁' := by
  have hmine : p.order.user = user := by rw [hp, huser]
  subst hc₁ hc₁'
  refine { h with
    standing := hstanding, standing' := hstanding', fair := hfair, fair' := hfair'
    reserved := ?_, stores := ?_, stores' := ?_ }
  · refine h.reserved.mono ?_ ?_
    · rintro j q path ⟨q', hq', huser'⟩ hq -
      rw [hq] at hq'
      cases hq'
      have hj : j ≠ i := by
        rintro rfl
        cases hfree.symm.trans hq
      have hq' := update_self_of_ne (a := p) hj hq
      exact ⟨⟨q, hq', huser'⟩, hq'⟩
    · intro j q file hwatched hq hfile
      rcases eq_some_update hq with ⟨rfl, rfl⟩ | ⟨hj, hq⟩
      · exact absurd ⟨_, Function.update_self .., hmine⟩ hwatched
      · refine ⟨fun ⟨q', hq', huser'⟩ => hwatched ⟨q', ?_, huser'⟩, hq⟩
        exact update_self_of_ne hj hq'
  · refine forall_update_twin (fun _ (q : Storing) => q.order.user = user)
      (Storing.Twin v root ρ c.state.disk c'.state.disk) ⟨rfl, ?_⟩
      fun j q _ hq huser' => h.stores j q hq huser'
    rw [hp]
    exact twin_start ..
  · exact forall_update_origin (fun _ (q : Storing) => q.order.user = user) hmine h.stores'

/-- A step of a store of the user and the same step of its twin. -/
theorem Twin.inStep (hbase : EmptyBase v d₀ root) (h : c.Twin v root d₀ user readers ρ c')
    {p p' : Storing} (hp : c.stores i = some p) (hp' : c'.stores i = some p')
    (horder : p'.order = p.order) (huser : p.order.user = user)
    (htwin : p.upload.Twin v root ρ c.state.disk c'.state.disk p'.upload)
    (fault : Option Errno) :
    Upload.InStep v root (Mine user) ρ c.state.disk c'.state.disk (p.upload.step v fault c.state)
      (p'.upload.step v (p.upload.met v fault c.state.disk) c'.state) := by
  refine Storing.Twin.inStep ⟨horder, htwin⟩ hbase (h.standing.tidy.stores i p hp) h.orderly
    h.standing'.tidy.tree h.alike (h.standing.stores i p hp) (h.standing'.stores i p' hp')
    (fun _ => huser) (fun _ hfalse => hfalse) fault ?_
  intro hmet hstage hatomic
  refine h.freeNumber_fits hbase fun hlong => ?_
  unfold Upload.met at hmet
  cases fault with
  | some e => cases hmet
  | none => simp [hstage, hatomic, hlong] at hmet

theorem Twin.advance_own (h : c.Twin v root d₀ user readers ρ c') {p p' : Storing}
    (hp : c.stores i = some p) (hp' : c'.stores i = some p') (horder : p'.order = p.order)
    (huser : p.order.user = user) {u u' : Upload} {s s' : State}
    (hadvances : p.Advances v root d₀ c.state.disk u s.disk)
    (hadvances' : p'.Advances v root d₀ c'.state.disk u' s'.disk)
    (hstep : Upload.InStep v root (Mine user) ρ c.state.disk c'.state.disk (u, s) (u', s'))
    {events events' : List Event} {c₁ c₁' : Crowd}
    (hc₁ : c₁ = { c with
      state := s, stores := Function.update c.stores i (some { p with upload := u }), events })
    (hc₁' : c₁' = { c' with
      state := s', stores := Function.update c'.stores i (some { p' with upload := u' })
      events := events' })
    (hstanding : c₁.Standing v root d₀) (hstanding' : c₁'.Standing v root d₀)
    (hfair : c₁.Fair v) (hfair' : c₁'.Fair v) :
    ∃ ρ', c₁.Twin v root d₀ user readers ρ' c₁' := by
  obtain ⟨ρ', hgrows, halike, htwin⟩ := hstep
  have htree' : Orderly v root d₀ s.disk := by
    have htree := hstanding.tidy.tree
    rwa [hc₁] at htree
  subst hc₁ hc₁'
  refine ⟨ρ', ?_⟩
  refine { h with
    standing := hstanding, standing' := hstanding', fair := hfair, fair' := hfair'
    alike := halike, reserved := ?_, stores := ?_, stores' := ?_, restores := ?_ }
  · rw [owner_update hp u user]
    refine h.reserved.own_store ⟨p, hp, huser⟩ hp h.orderly htree' hadvances huser
      (fun id hid => ?_) h.standing.stores
    obtain ⟨id', hid⟩ := hid
    have hlt := (halike.lt id id' hid).1
    rcases hgrows.new id id' hid with hold | ⟨rfl, -⟩
    · exact .inl ⟨id', hold⟩
    · exact .inr ⟨rfl, hlt⟩
  · refine forall_update_twin (fun _ (q : Storing) => q.order.user = user)
      (Storing.Twin v root ρ' s.disk s'.disk) ⟨horder, htwin⟩ fun j q hj hq huser' => ?_
    -- the files aside of the other stores are not touched in either crowd
    obtain ⟨q', hq', horder', htwin'⟩ := h.stores j q hq huser'
    exact ⟨q', hq', horder', htwin'.mono hgrows.old
      (fun n hopened => hadvances.recordsKept.node _ (h.standing.apart hp hj hq hopened))
      fun n hopened => hadvances'.recordsKept.node _ (h.standing'.apart hp' hj hq' hopened)⟩
  · exact forall_update_origin (fun _ (q : Storing) => q.order.user = user) huser h.stores'
  · intro j r hr hreader
    obtain ⟨r', hr', htwin'⟩ := h.restores j r hr hreader
    exact ⟨r', hr', htwin'.mono hgrows.old⟩

/-- A step of a removal of the user and the same step of its twin. -/
theorem Twin.advanceRemoval_own (hbase : EmptyBase v d₀ root)
    (h : c.Twin v root d₀ user readers ρ c') {p p' : Removing} (hp : c.removals i = some p)
    (hp' : c'.removals i = some p') (hname' : p'.user = p.user ∧ p'.name = p.name)
    (huser : p.user = user) (htwin : p.removal.Twin p'.removal) (fault : Option Errno)
    {events events' : List Event} {c₁ c₁' : Crowd}
    (hc₁ : c₁ = { c with
      state := (p.removal.step fault c.state).2
      removals := Function.update c.removals i
        (some { p with removal := (p.removal.step fault c.state).1 })
      events })
    (hc₁' : c₁' = { c' with
      state := (p'.removal.step fault c'.state).2
      removals := Function.update c'.removals i
        (some { p' with removal := (p'.removal.step fault c'.state).1 })
      events := events' })
    (hstanding : c₁.Standing v root d₀) (hstanding' : c₁'.Standing v root d₀)
    (hfair : c₁.Fair v) (hfair' : c₁'.Fair v) :
    c₁.Twin v root d₀ user readers ρ c₁' := by
  obtain ⟨r, hrecords⟩ := (h.standing.tidy.removals i p hp).recordsKept hbase h.orderly fault
  obtain ⟨r', hrecords'⟩ :=
    (h.standing'.tidy.removals i p' hp').recordsKept hbase h.standing'.tidy.tree fault
  have hboth : Alike root (Mine user) ρ (p.removal.step fault c.state).2.disk
      (p'.removal.step fault c'.state).2.disk ∧
        Removal.Twin (p.removal.step fault c.state).1 (p'.removal.step fault c'.state).1 :=
    Removing.Twin.step ⟨hname'.1, hname'.2, htwin⟩ hbase (h.standing.tidy.removals i p hp)
      h.orderly h.standing'.tidy.tree h.alike (fun _ => huser) fault
  subst hc₁ hc₁'
  refine { h with
    standing := hstanding, standing' := hstanding', fair := hfair, fair' := hfair'
    alike := hboth.1, reserved := ?_, stores := ?_, removals := ?_, removals' := ?_ }
  · refine h.reserved.beside hrecords (fun _ hP => ⟨_, _, hP.1⟩) (.inl fun spot hP => ?_)
    rw [hP.1]
    exact huser
  · intro j q hq huser'
    obtain ⟨q', hq', horder, htwin'⟩ := h.stores j q hq huser'
    exact ⟨q', hq', horder, htwin'.mono (fun _ _ hid => hid)
      (fun n _ => hrecords.node _ (by simp)) fun n _ => hrecords'.node _ (by simp)⟩
  · exact forall_update_twin (fun _ (q : Removing) => q.user = user) Removing.Twin
      ⟨hname'.1, hname'.2, hboth.2⟩ fun j q _ hq huser' => h.removals j q hq huser'
  · exact forall_update_origin (fun _ (q : Removing) => q.user = user) huser h.removals'

/-- What is done for the user is done in the mirror too. -/
theorem Twin.step_own (hbase : EmptyBase v d₀ root)
    (h : c.Twin v root d₀ user readers ρ c') (action : Action)
    (hown : Moment.concerns ⟨c, readers, action⟩ user = true) :
    ∃ ρ', (c.step v action).Twin v root d₀ user (Moment.readersAfter ⟨c, readers, action⟩) ρ'
      (c'.step v (Moment.given v ⟨c, readers, action⟩)) := by
  have hstanding := h.standing.step hbase action
  have hfair := h.fair.step action
  have hstanding' := h.standing'.step hbase (Moment.given v ⟨c, readers, action⟩)
  have hfair' := h.fair'.step (Moment.given v ⟨c, readers, action⟩)
  cases action with
  | store i order =>
    simp only [Moment.concerns, decide_eq_true_eq, Option.isNone_iff_eq_none] at hown
    obtain ⟨huser, hfree⟩ := hown
    have hfree' : c'.stores i = none := by
      cases hp' : c'.stores i with
      | none => rfl
      | some p' =>
        obtain ⟨p, hp, -⟩ := h.stores' i p' hp'
        cases hfree.symm.trans hp
    simp only [Moment.given, Moment.readersAfter, Crowd.step, hfree, hfree']
      at hstanding hfair hstanding' hfair' ⊢
    exact ⟨ρ, h.enter_own hfree huser rfl rfl rfl hstanding hstanding' hfair hfair'⟩
  | remove i user' name =>
    simp only [Moment.concerns, decide_eq_true_eq, Option.isNone_iff_eq_none] at hown
    obtain ⟨huser, hfree⟩ := hown
    have hfree' : c'.removals i = none := by
      cases hp' : c'.removals i with
      | none => rfl
      | some p' =>
        obtain ⟨p, hp, -⟩ := h.removals' i p' hp'
        cases hfree.symm.trans hp
    simp only [Moment.given, Moment.readersAfter, Crowd.step, hfree, hfree']
      at hstanding hfair hstanding' hfair' ⊢
    refine ⟨ρ, { h with
      standing := hstanding, standing' := hstanding', fair := hfair, fair' := hfair'
      removals := ?_, removals' := ?_ }⟩
    · exact forall_update_twin (fun _ (q : Removing) => q.user = user) Removing.Twin
        ⟨rfl, rfl, rfl, rfl, rfl⟩ fun j q _ hq huser' => h.removals j q hq huser'
    · exact forall_update_origin (fun _ (q : Removing) => q.user = user) huser h.removals'
  | restore i user' name =>
    simp only [Moment.concerns, decide_eq_true_eq, Option.isNone_iff_eq_none] at hown
    obtain ⟨rfl, hfree⟩ := hown
    have hfree' : c'.restores i = none := by
      cases hr' : c'.restores i with
      | none => rfl
      | some r' =>
        obtain ⟨r, hr, -⟩ := h.restores' i r' hr'
        cases hfree.symm.trans hr
    have htwin := h.alike.retrieve hbase h.orderly h.standing'.tidy.tree name
    simp only [Moment.given, Moment.readersAfter, Crowd.step, hfree, hfree',
      Option.isNone_none, if_true] at hstanding hfair hstanding' hfair' ⊢
    refine ⟨ρ, { h with
      standing := hstanding, standing' := hstanding', fair := hfair, fair' := hfair'
      restores := ?_, restores' := ?_ }⟩
    · refine forall_update_twin
        (fun j _ => Function.update readers i (some user') j = some user') _ ⟨htwin, rfl, rfl⟩
        fun j r hj hr hreader => ?_
      rw [Function.update_of_ne hj] at hreader
      exact h.restores j r hr hreader
    · intro j r' hr'
      rcases eq_some_update hr' with ⟨rfl, -⟩ | ⟨hj, hr'⟩
      · exact ⟨_, Function.update_self .., Function.update_self ..⟩
      · obtain ⟨r, hr, hreader⟩ := h.restores' j r' hr'
        exact ⟨r, update_self_of_ne hj hr, by rw [Function.update_of_ne hj, hreader]⟩
  | list user' => exact ⟨ρ, h⟩
  | advanceStore i fault =>
    simp only [Moment.concerns, decide_eq_true_eq, Option.map_eq_some_iff] at hown
    obtain ⟨p, hp, huser⟩ := hown
    obtain ⟨p', hp', horder, htwin⟩ := h.stores i p hp huser
    have hready := h.storeReady_eq hp huser
    simp only [storeReady, hp, hp'] at hready
    simp only [Moment.given, hp, Moment.readersAfter] at hstanding' hfair' ⊢
    by_cases hnow : p.upload.ready c.state
    · simp only [Crowd.step, hp, hp', hready, if_pos hnow] at hstanding hfair hstanding' hfair' ⊢
      exact h.advance_own hp hp' horder huser
        ((h.standing.tidy.stores i p hp).advances hbase h.orderly h.standing.fresh
          (h.standing.stores i p hp) fault)
        ((h.standing'.tidy.stores i p' hp').advances hbase h.standing'.tidy.tree
          h.standing'.fresh (h.standing'.stores i p' hp') _)
        (h.inStep hbase hp hp' horder huser htwin fault) rfl rfl hstanding hstanding' hfair hfair'
    · simp only [Crowd.step, hp, hp', hready, if_neg hnow]
      exact ⟨ρ, h⟩
  | advanceRemoval i fault =>
    simp only [Moment.concerns, decide_eq_true_eq, Option.map_eq_some_iff] at hown
    obtain ⟨p, hp, huser⟩ := hown
    obtain ⟨p', hp', huser', hname', htwin⟩ := h.removals i p hp huser
    have hready := h.removalReady_eq hp huser
    simp only [removalReady, hp, hp'] at hready
    simp only [Moment.given, Moment.readersAfter] at hstanding' hfair' ⊢
    by_cases hnow : p.removal.ready c.state
    · simp only [Crowd.step, hp, hp', hready, if_pos hnow] at hstanding hfair hstanding' hfair' ⊢
      exact ⟨ρ, h.advanceRemoval_own hbase hp hp' ⟨huser', hname'⟩ huser htwin fault rfl rfl
        hstanding hstanding' hfair hfair'⟩
    · simp only [Crowd.step, hp, hp', hready, if_neg hnow]
      exact ⟨ρ, h⟩
  | read i count =>
    simp only [Moment.concerns, decide_eq_true_eq] at hown
    simp only [Moment.given, Moment.readersAfter] at hstanding' hfair' ⊢
    cases hr : c.restores i with
    | none =>
      have hr' : c'.restores i = none := by
        cases hr' : c'.restores i with
        | none => rfl
        | some r' =>
          obtain ⟨r, hsome, -⟩ := h.restores' i r' hr'
          cases hr.symm.trans hsome
      simp only [Crowd.step, hr, hr']
      exact ⟨ρ, h⟩
    | some r =>
      obtain ⟨r', hr', htwin⟩ := h.restores i r hr hown
      simp only [Crowd.step, hr, hr'] at hstanding hfair hstanding' hfair' ⊢
      refine ⟨ρ, { h with
        standing := hstanding, standing' := hstanding', fair := hfair, fair' := hfair'
        restores := ?_, restores' := ?_ }⟩
      · exact forall_update_twin (fun j _ => readers j = some user) _
          (htwin.read h.alike count) fun j r _ hr hreader => h.restores j r hr hreader
      · exact forall_update_origin (fun j _ => readers j = some user) hown h.restores'

end

end Crowd

end UserVault.Vault
