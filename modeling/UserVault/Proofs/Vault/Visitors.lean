import UserVault.Proofs.Vault.Crowd
import UserVault.Proofs.Vault.Turns

/-!
# The turns of a crowd

Stores and removals are the parties that take turns.  Where a party stands with its work tells
where it is with its turn: it touches its file only while it is inside.  So the table of turns is
right about all parties of a crowd at any time.
-/

namespace UserVault.Vault

open Disk Link

variable {v : Vault} {u : Upload} {r : Removal} {s : State} {fault : Option Errno} {c : Crowd}

/-! ## 1. Stores -/

namespace Upload

/-- Where an upload stands with its turn follows from its stage. -/
def TurnFits (v : Vault) (u : Upload) : Prop :=
  match u.stage with
  | .preparing | .finished _ => u.turn = .gone
  | .takingTurn => v.options.exclusive = true ∧ (u.turn = .coming ∨ ∃ id, u.turn = .waiting id)
  | .givingTurn _ =>
    (∃ id, u.turn = .inside id) ∨ (∃ id, u.turn = .released id) ∨ u.turn = .leaving
  | _ => if v.options.exclusive then ∃ id, u.turn = .inside id else u.turn = .gone

theorem turnFits_start (v : Vault) (user : UInt32) (name : Bytes) (length : UInt32)
    (body : Source) : (start v user name length body).TurnFits v := by
  unfold start
  split <;> rfl

/-- At work an upload is inside, or there are no turns. -/
def Inside (v : Vault) (u : Upload) : Prop :=
  if v.options.exclusive then ∃ id, u.turn = .inside id else u.turn = .gone

theorem turnFits_settle (h : u.Inside v) (result : Except StoreError Unit) :
    (u.settle result).TurnFits v := by
  unfold Inside at h
  unfold settle
  by_cases hturn : u.turn = .gone
  · simp [TurnFits, hturn]
  · simp only [hturn, if_false, TurnFits]
    split at h
    · exact .inl h
    · exact absurd h hturn

/-- What a step of an upload does to its turn and to the table of turns. -/
structure Turning (u : Upload) (s : State) (u' : Upload) (s' : State) : Prop where
  target : u'.target = u.target
  turn : (u'.turn, s'.turns) = u.turn.next u.target s.turns ∨
    s'.turns = s.turns ∧ (u'.turn = u.turn ∨ u.turn = .gone ∧ u'.turn = .coming)

theorem turning_of_same {u' : Upload} {s' : State} (htarget : u'.target = u.target)
    (hturn : u'.turn = u.turn) (hturns : s'.turns = s.turns) : u.Turning s u' s' :=
  ⟨htarget, .inr ⟨hturns, .inl hturn⟩⟩

theorem openFile_turns (v : Vault) (fault : Option Errno) (u : Upload) (s : State) :
    u.Turning s (u.openFile v fault s).1 (u.openFile v fault s).2 ∧
      (u.Inside v → (u.openFile v fault s).1.TurnFits v) := by
  dsimp only [openFile]
  split <;> split
  all_goals first
    | exact ⟨turning_of_same rfl rfl rfl, fun h => turnFits_settle h _⟩
    | exact ⟨turning_of_same rfl rfl rfl, fun h => h⟩

theorem copyChunk_turns (v : Vault) (fault : Option Errno) (file : Handle)
    (staged : Option Path) (u : Upload) (s : State) :
    u.Turning s (u.copyChunk v fault file staged s).1 (u.copyChunk v fault file staged s).2 ∧
      (u.Inside v → (u.copyChunk v fault file staged s).1.TurnFits v) := by
  dsimp only [copyChunk]
  split
  · exact ⟨turning_of_same rfl rfl rfl, fun h => h⟩
  · split
    · exact ⟨turning_of_same rfl rfl rfl, fun h => h⟩
    · exact ⟨turning_of_same rfl rfl rfl, fun h => h⟩

theorem step_turns (v : Vault) (fault : Option Errno) (s : State) (h : u.TurnFits v) :
    u.Turning s (u.step v fault s).1 (u.step v fault s).2 ∧
      (u.step v fault s).1.TurnFits v := by
  cases hstage : u.stage with
  | preparing =>
    simp only [TurnFits, hstage] at h
    have hsettle (result : Except StoreError Unit) : (u.settle result).TurnFits v := by
      simp [settle, TurnFits, h]
    simp only [step, hstage]
    split
    · exact ⟨turning_of_same rfl rfl rfl, hsettle _⟩
    · split
      · exact ⟨turning_of_same rfl rfl rfl, hsettle _⟩
      · by_cases hexclusive : v.options.exclusive
        · rw [if_pos hexclusive]
          exact ⟨⟨rfl, .inr ⟨rfl, .inr ⟨h, rfl⟩⟩⟩, hexclusive, .inl rfl⟩
        · rw [if_neg hexclusive]
          refine ⟨turning_of_same rfl rfl rfl, ?_⟩
          simp [TurnFits, hexclusive, h]
  | takingTurn =>
    simp only [TurnFits, hstage] at h
    obtain ⟨hexclusive, hturn | ⟨id, hturn⟩⟩ := h
    · simp only [step, hstage, State.advance, hturn, Turn.next]
      exact ⟨⟨rfl, .inl (by simp [hturn, Turn.next])⟩, by simp [TurnFits, hexclusive]⟩
    · simp only [step, hstage, State.advance, hturn, Turn.next]
      exact ⟨⟨rfl, .inl (by simp [hturn, Turn.next])⟩, by simp [TurnFits, hexclusive]⟩
  | opening =>
    simp only [TurnFits, hstage] at h
    simp only [step, hstage]
    exact ⟨(openFile_turns v fault u s).1, (openFile_turns v fault u s).2 h⟩
  | copying file staged =>
    simp only [TurnFits, hstage] at h
    simp only [step, hstage]
    split
    · exact ⟨turning_of_same rfl rfl rfl, h⟩
    · exact ⟨(copyChunk_turns v fault file staged u s).1,
        (copyChunk_turns v fault file staged u s).2 h⟩
  | flushing file staged =>
    simp only [TurnFits, hstage] at h
    simp only [step, hstage]
    split
    · exact ⟨turning_of_same rfl rfl rfl, h⟩
    · exact ⟨turning_of_same rfl rfl rfl, h⟩
  | syncing file staged =>
    simp only [TurnFits, hstage] at h
    simp only [step, hstage]
    split
    · exact ⟨turning_of_same rfl rfl rfl, h⟩
    · split
      · exact ⟨turning_of_same rfl rfl rfl, h⟩
      · exact ⟨turning_of_same rfl rfl rfl, turnFits_settle h _⟩
  | publishing staged =>
    simp only [TurnFits, hstage] at h
    simp only [step, hstage]
    split
    · exact ⟨turning_of_same rfl rfl rfl, h⟩
    · exact ⟨turning_of_same rfl rfl rfl, turnFits_settle h _⟩
  | discarding staged cause =>
    simp only [TurnFits, hstage] at h
    simp only [step, hstage]
    exact ⟨turning_of_same rfl rfl rfl, turnFits_settle h _⟩
  | givingTurn result =>
    simp only [TurnFits, hstage] at h
    simp only [step, hstage, State.advance]
    refine ⟨⟨rfl, .inl rfl⟩, ?_⟩
    rcases h with ⟨id, hturn⟩ | ⟨id, hturn⟩ | hturn <;> simp [TurnFits, hturn, Turn.next]
  | finished result =>
    simp only [step, hstage]
    exact ⟨turning_of_same rfl rfl rfl, h⟩

end Upload

/-! ## 2. Removals -/

namespace Removal

def TurnFits (v : Vault) (r : Removal) : Prop :=
  match r.stage with
  | .finished _ => r.turn = .gone
  | .takingTurn => v.options.exclusive = true ∧ (r.turn = .coming ∨ ∃ id, r.turn = .waiting id)
  | .givingTurn _ =>
    (∃ id, r.turn = .inside id) ∨ (∃ id, r.turn = .released id) ∨ r.turn = .leaving
  | .unlinking => if v.options.exclusive then ∃ id, r.turn = .inside id else r.turn = .gone

theorem turnFits_start (v : Vault) (user : UInt32) (name : Bytes) :
    (start v user name).TurnFits v := by
  unfold start
  split
  · rfl
  · by_cases hexclusive : v.options.exclusive
    · rw [if_pos hexclusive]
      exact ⟨hexclusive, .inl rfl⟩
    · rw [if_neg hexclusive]
      simp [TurnFits, hexclusive]

/-- What a step of a removal does to its turn and to the table of turns. -/
structure Turning (r : Removal) (s : State) (r' : Removal) (s' : State) : Prop where
  target : r'.target = r.target
  turn : (r'.turn, s'.turns) = r.turn.next r.target s.turns ∨
    s'.turns = s.turns ∧ r'.turn = r.turn

theorem step_turns (v : Vault) (fault : Option Errno) (s : State) (h : r.TurnFits v) :
    r.Turning s (r.step fault s).1 (r.step fault s).2 ∧ (r.step fault s).1.TurnFits v := by
  cases hstage : r.stage with
  | takingTurn =>
    simp only [TurnFits, hstage] at h
    obtain ⟨hexclusive, hturn | ⟨id, hturn⟩⟩ := h
    · simp only [step, hstage, State.advance, hturn, Turn.next]
      exact ⟨⟨rfl, .inl (by simp [hturn, Turn.next])⟩, by simp [TurnFits, hexclusive]⟩
    · simp only [step, hstage, State.advance, hturn, Turn.next]
      exact ⟨⟨rfl, .inl (by simp [hturn, Turn.next])⟩, by simp [TurnFits, hexclusive]⟩
  | unlinking =>
    simp only [TurnFits, hstage] at h
    have hsettle (result : Except VaultError Removed) : (r.settle result).TurnFits v := by
      unfold settle
      by_cases hturn : r.turn = .gone
      · simp [TurnFits, hturn]
      · simp only [hturn, if_false, TurnFits]
        split at h
        · exact .inl h
        · exact absurd h hturn
    simp only [step, hstage]
    split
    · exact ⟨⟨rfl, .inr ⟨rfl, rfl⟩⟩, hsettle _⟩
    · exact ⟨⟨rfl, .inr ⟨rfl, rfl⟩⟩, hsettle _⟩
  | givingTurn result =>
    simp only [TurnFits, hstage] at h
    simp only [step, hstage, State.advance]
    refine ⟨⟨rfl, .inl rfl⟩, ?_⟩
    rcases h with ⟨id, hturn⟩ | ⟨id, hturn⟩ | hturn <;> simp [TurnFits, hturn, Turn.next]
  | finished result =>
    simp only [step, hstage]
    exact ⟨⟨rfl, .inr ⟨rfl, rfl⟩⟩, h⟩

end Removal

/-! ## 3. Crowds -/

/-- A party that may take turns. -/
inductive Visitor
  | store (i : Nat)
  | removal (i : Nat)
  deriving DecidableEq

/-- What somebody has come for who may have to take turns, and how far it has come. -/
inductive Job
  | store (p : Storing)
  | removal (p : Removing)

namespace Job

def target : Job → Path
  | store p => p.upload.target
  | removal p => p.removal.target

def turn : Job → Turn
  | store p => p.upload.turn
  | removal p => p.removal.turn

end Job

/-- The job of one of the parties of a crowd. -/
def Crowd.job? (c : Crowd) : Visitor → Option Job
  | .store i => (c.stores i).map .store
  | .removal i => (c.removals i).map .removal

/-- Where a party of a crowd is with its turn, and at which path. -/
def Crowd.turnOf (c : Crowd) (x : Visitor) : Option (Path × Turn) :=
  (c.job? x).map fun job => (job.target, job.turn)

theorem Crowd.turnOf_store (c : Crowd) (i : Nat) :
    c.turnOf (.store i) = (c.stores i).map fun p => (p.upload.target, p.upload.turn) :=
  Option.map_map ..

theorem Crowd.turnOf_removal (c : Crowd) (i : Nat) :
    c.turnOf (.removal i) = (c.removals i).map fun p => (p.removal.target, p.removal.turn) :=
  Option.map_map ..

/-- The table of turns is right about all parties of a crowd. -/
structure Crowd.Fair (v : Vault) (c : Crowd) : Prop where
  turns : c.state.turns.Fair c.turnOf
  stores : ∀ i p, c.stores i = some p → p.upload.TurnFits v
  removals : ∀ i p, c.removals i = some p → p.removal.TurnFits v

/-- One party is given a job, and all others keep theirs. -/
inductive Crowd.Gives (c : Crowd) : Crowd → Visitor → Job → Prop
  | store (i : Nat) (p : Storing) (s : State) (events : List Event) :
    Gives c { c with state := s, stores := Function.update c.stores i (some p), events }
      (.store i) (.store p)
  | removal (i : Nat) (p : Removing) (s : State) (events : List Event) :
    Gives c { c with state := s, removals := Function.update c.removals i (some p), events }
      (.removal i) (.removal p)

section
variable {c' : Crowd} {x : Visitor} {job : Job}

theorem Crowd.Gives.job?_eq (h : c.Gives c' x job) :
    c'.job? = Function.update c.job? x (some job) := by
  refine Function.eq_update_iff.mpr ⟨?_, fun y hy => ?_⟩
  · cases h <;> simp only [job?, Function.update_self, Option.map_some]
  -- parties of the other kind are in another table
  · cases h with
    | store i p =>
      cases y with
      | store j => simp only [job?, Function.update_of_ne fun heq : j = i => hy (heq ▸ rfl)]
      | removal j => rfl
    | removal i p =>
      cases y with
      | store j => rfl
      | removal j => simp only [job?, Function.update_of_ne fun heq : j = i => hy (heq ▸ rfl)]

theorem Crowd.Gives.turnOf_eq (h : c.Gives c' x job) :
    c'.turnOf = Function.update c.turnOf x (some (job.target, job.turn)) := by
  show Option.map (fun job : Job => (job.target, job.turn)) ∘ c'.job? = _
  rw [h.job?_eq, Function.comp_update]
  rfl

end

/-- A party takes a step of its turn, or none, or begins one. -/
theorem Turns.Fair.turning {t t' : Turns} {turnOf : Visitor → Option (Path × Turn)} {x : Visitor}
    {path : Path} {turn turn' : Turn} (h : t.Fair turnOf) (hx : turnOf x = some (path, turn))
    (hready : turn.ready t = true)
    (hturn : (turn', t') = turn.next path t ∨
      t' = t ∧ (turn' = turn ∨ turn = .gone ∧ turn' = .coming)) :
    t'.Fair (Function.update turnOf x (some (path, turn'))) := by
  rcases hturn with hnext | ⟨rfl, rfl | ⟨rfl, rfl⟩⟩
  · have hfair := h.next hx hready
    rw [← hnext] at hfair
    exact hfair
  · rw [← hx, Function.update_eq_self]
    exact h
  · exact h.idle (fun _ _ heq => by cases hx.symm.trans heq; rfl) rfl

theorem Upload.turn_ready (h : u.TurnFits v) (hready : u.ready s = true) :
    u.turn.ready s.turns = true := by
  -- only who waits may have to wait, and that is at the stage that looks at it
  cases hstage : u.stage with
  | takingTurn =>
    simp only [Upload.ready, hstage] at hready
    exact hready
  | preparing | finished =>
    simp only [Upload.TurnFits, hstage] at h
    rw [h]
    rfl
  | givingTurn result =>
    simp only [Upload.TurnFits, hstage] at h
    rcases h with ⟨id, hturn⟩ | ⟨id, hturn⟩ | hturn <;> rw [hturn] <;> rfl
  | _ =>
    simp only [Upload.TurnFits, hstage] at h
    split at h
    · obtain ⟨id, hturn⟩ := h
      rw [hturn]
      rfl
    · rw [h]
      rfl

theorem Removal.turn_ready (h : r.TurnFits v) (hready : r.ready s = true) :
    r.turn.ready s.turns = true := by
  cases hstage : r.stage with
  | takingTurn =>
    simp only [Removal.ready, hstage] at hready
    exact hready
  | finished =>
    simp only [Removal.TurnFits, hstage] at h
    rw [h]
    rfl
  | givingTurn result =>
    simp only [Removal.TurnFits, hstage] at h
    rcases h with ⟨id, hturn⟩ | ⟨id, hturn⟩ | hturn <;> rw [hturn] <;> rfl
  | unlinking =>
    simp only [Removal.TurnFits, hstage] at h
    split at h
    · obtain ⟨id, hturn⟩ := h
      rw [hturn]
      rfl
    · rw [h]
      rfl

namespace Crowd

theorem fair_start (v : Vault) (d : Disk) : (start v d).Fair v := by
  refine ⟨?_, fun _ _ h => (nomatch h), fun _ _ h => (nomatch h)⟩
  refine Turns.fair_empty.congr fun x path turn _ => ?_
  cases x <;> exact ⟨fun h => (nomatch h), fun h => (nomatch h)⟩

theorem Fair.step (h : c.Fair v) (action : Action) : (c.step v action).Fair v := by
  obtain ⟨hturns, hstores, hremovals⟩ := h
  have hsame : c.Fair v := ⟨hturns, hstores, hremovals⟩
  cases action with
  | store i order =>
    simp only [Crowd.step]
    split
    · exact hsame
    next hfree =>
      have hturn : (Upload.start v order.user order.name order.length order.body).turn = .gone := by
        unfold Upload.start
        split <;> rfl
      refine ⟨?_, forall_update hstores (Upload.turnFits_start ..), hremovals⟩
      show Turns.Fair c.state.turns _
      rw [(Gives.store ..).turnOf_eq]
      refine hturns.idle (fun path turn heq => ?_) (by rw [Job.turn, hturn]; rfl)
      simp [turnOf_store, hfree] at heq
  | remove i user name =>
    simp only [Crowd.step]
    split
    · exact hsame
    next hfree =>
      have hturn : (Removal.start v user name).turn.lock? = none := by
        unfold Removal.start
        split
        · rfl
        · split <;> rfl
      refine ⟨?_, hstores, forall_update hremovals (Removal.turnFits_start ..)⟩
      show Turns.Fair c.state.turns _
      rw [(Gives.removal ..).turnOf_eq]
      refine hturns.idle (fun path turn heq => ?_) hturn
      simp [turnOf_removal, hfree] at heq
  | advanceStore i fault =>
    simp only [Crowd.step]
    split
    · exact hsame
    next p hp =>
      split
      next hready =>
        obtain ⟨⟨htarget, hturn⟩, hfits⟩ :=
          Upload.step_turns v fault c.state (hstores i p hp)
        have hx : c.turnOf (.store i) = some (p.upload.target, p.upload.turn) := by
          rw [turnOf_store, hp, Option.map_some]
        refine ⟨?_, forall_update hstores hfits, hremovals⟩
        rw [(Gives.store ..).turnOf_eq, Job.target, htarget]
        exact hturns.turning hx (Upload.turn_ready (hstores i p hp) hready) hturn
      next => exact hsame
  | advanceRemoval i fault =>
    simp only [Crowd.step]
    split
    · exact hsame
    next p hp =>
      split
      next hready =>
        obtain ⟨⟨htarget, hturn⟩, hfits⟩ :=
          Removal.step_turns v fault c.state (hremovals i p hp)
        have hx : c.turnOf (.removal i) = some (p.removal.target, p.removal.turn) := by
          rw [turnOf_removal, hp, Option.map_some]
        refine ⟨?_, hstores, forall_update hremovals hfits⟩
        rw [(Gives.removal ..).turnOf_eq, Job.target, htarget]
        exact hturns.turning hx (Removal.turn_ready (hremovals i p hp) hready)
          (hturn.imp_right fun hsame => ⟨hsame.1, .inl hsame.2⟩)
      next => exact hsame
  | restore i user name | read i count =>
    simp only [Crowd.step]
    split
    · exact hsame
    · exact ⟨hturns, hstores, hremovals⟩
  | list user => exact hsame

theorem fair_run (v : Vault) (d : Disk) (actions : List Action) :
    (run v (start v d) actions).Fair v :=
  run_induction actions (fun _ action h => h.step action) (fair_start v d)

end Crowd

end UserVault.Vault
