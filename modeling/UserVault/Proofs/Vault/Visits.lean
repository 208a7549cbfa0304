import UserVault.Proofs.Vault.Jobs

/-!
# Jobs in a crowd and jobs one after the other

The record of a run says which failures of the system the steps of each party met and in which
order the parties came to hold the lock of each path.  With these, the same jobs can be done again
one after the other, each from its beginning to its end.
-/

namespace UserVault.Vault

open Disk Link

variable {v : Vault} {job : Job} {verdict : Verdict}

/-! ## 1. One after the other -/

namespace Job

/-- Does a job from its beginning to its end while nobody else is in the vault: what it comes to,
and the disk after it.  The steps meet the faults in turn, and none when these have run out. -/
def perform (v : Vault) (faults : List (Option Errno)) (job : Job) (d : Disk) : Verdict × Disk :=
  match job with
  | store p =>
    let stored := v.storeWith (fun n => faults.getD n none) { disk := d } p.order.user p.order.name
      p.order.length p.order.body
    (.stored stored.result, stored.state.disk)
  | removal p =>
    let (r, s) := (Removal.start v p.user p.name).run (fun n => faults.getD n none) { disk := d }
    (.removed (r.result?.getD (.ok .absent)), s.disk)

/-- Takes a step for each of the faults. -/
def walk (v : Vault) (faults : List (Option Errno)) (job : Job) (s : State) : Job × State :=
  faults.foldl (fun r fault => r.1.step v fault r.2) (job, s)

theorem walk_concat (v : Vault) (faults : List (Option Errno)) (fault : Option Errno) (job : Job)
    (s : State) : job.walk v (faults ++ [fault]) s =
      (job.walk v faults s).1.step v fault (job.walk v faults s).2 := by
  rw [walk, List.foldl_append]
  rfl

end Job

/-- Does jobs one after the other, each with its faults: what they come to, and the disk after
them. -/
def serially (v : Vault) : List (Job × List (Option Errno)) → Disk → List Verdict × Disk
  | [], d => ([], d)
  | (job, faults) :: jobs, d =>
    let (verdict, d) := job.perform v faults d
    let (verdicts, d) := serially v jobs d
    (verdict :: verdicts, d)

theorem serially_concat (v : Vault) (jobs : List (Job × List (Option Errno))) (job : Job)
    (faults : List (Option Errno)) (d : Disk) :
    serially v (jobs ++ [(job, faults)]) d =
      ((serially v jobs d).1 ++ [(job.perform v faults (serially v jobs d).2).1],
        (job.perform v faults (serially v jobs d).2).2) := by
  induction jobs generalizing d with
  | nil => rfl
  | cons first jobs ih =>
    obtain ⟨job', faults'⟩ := first
    simp only [List.cons_append, serially, ih]

namespace Removal

variable {r : Removal} {s : State} {fault : Option Errno}

/-- A turn is under way exactly where the stage says so. -/
def Steady (r : Removal) : Prop :=
  match r.stage with
  | .takingTurn => r.turn = .coming ∨ ∃ id, r.turn = .waiting id
  | .givingTurn _ => r.turn ≠ .gone
  | _ => True

theorem steady_start (v : Vault) (user : UInt32) (name : Bytes) :
    (start v user name).Steady := by
  unfold start
  split
  · trivial
  · split
    · exact .inl rfl
    · trivial

theorem steady_settle (r : Removal) (result : Except VaultError Removed) :
    (r.settle result).Steady := by
  unfold settle Steady
  by_cases h : r.turn = .gone <;> simp [h]

theorem stepsLeft_settle_le (r : Removal) (result : Except VaultError Removed) :
    (r.settle result).stepsLeft ≤ 5 := by
  unfold settle stepsLeft
  by_cases h : r.turn = .gone
  · simp [h]
  · simp only [h, if_false]
    cases r.turn <;> simp [Turn.stepsLeft]

theorem steady_step (h : r.Steady) : (r.step fault s).1.Steady := by
  cases hstage : r.stage with
  | takingTurn =>
    simp only [Steady, hstage] at h
    simp only [step, hstage, State.advance]
    rcases h with h | ⟨id, h⟩
    · rw [h]
      exact .inr ⟨_, rfl⟩
    · rw [h]
      trivial
  | unlinking =>
    simp only [step, hstage]
    split <;> exact steady_settle ..
  | givingTurn result =>
    simp only [step, hstage, State.advance]
    by_cases hgone : (r.turn.next r.target s.turns).1 = .gone <;> simp [Steady, hgone]
  | finished result =>
    simp only [step, hstage]
    exact h

/-- Every step brings a steady removal nearer to its end. -/
theorem stepsLeft_step_lt (fault : Option Errno) (s : State) (h : r.Steady)
    (hresult : r.result? = none) :
    (r.step fault s).1.stepsLeft < r.stepsLeft := by
  cases hstage : r.stage with
  | takingTurn =>
    simp only [Steady, hstage] at h
    have hbound : r.stepsLeft = 6 + r.turn.stepsLeft := by simp only [stepsLeft, hstage]
    rw [hbound]
    simp only [step, hstage, State.advance]
    rcases h with h | ⟨id, h⟩ <;> rw [h] <;> simp [Turn.next, stepsLeft, Turn.stepsLeft]
  | unlinking =>
    have hbound : r.stepsLeft = 6 := by simp only [stepsLeft, hstage]
    rw [hbound]
    simp only [step, hstage]
    split <;> exact Nat.lt_succ_of_le (stepsLeft_settle_le ..)
  | givingTurn result =>
    simp only [Steady, hstage] at h
    have hbound : r.stepsLeft = r.turn.stepsLeft := by simp only [stepsLeft, hstage]
    rw [hbound]
    simp only [step, hstage, State.advance]
    cases hturn : r.turn with
    | gone => exact absurd hturn h
    | _ => simp [Turn.next, stepsLeft, Turn.stepsLeft]
  | finished result => simp [result?, hstage] at hresult

theorem runFor_succ (steps : Nat) (faults : Nat → Option Errno) (s : State)
    (h : r.result? = none) :
    r.runFor (steps + 1) faults s =
      (r.step (faults 0) s).1.runFor steps (fun n => faults (n + 1)) (r.step (faults 0) s).2 := by
  cases hstage : r.stage with
  | finished result => simp [result?, hstage] at h
  | _ => simp only [runFor, hstage]

theorem runFor_of_finished (steps : Nat) (faults : Nat → Option Errno) (s : State)
    {result : Except VaultError Removed} (h : r.stage = .finished result) :
    r.runFor steps faults s = (r, s) := by
  cases steps with
  | zero => rfl
  | succ steps => simp only [runFor, h]

end Removal

/-- A job that is over stays as it is. -/
theorem Job.walk_of_verdict? (v : Vault) (faults : List (Option Errno)) (s : State)
    (h : job.verdict? = some verdict) : job.walk v faults s = (job, s) := by
  induction faults with
  | nil => rfl
  | cons fault faults ih =>
    rw [walk, List.foldl_cons, step_of_verdict? h]
    exact ih

theorem getD_cons_succ (fault : Option Errno) (faults : List (Option Errno)) :
    (fun n => (fault :: faults).getD (n + 1) none) = fun n => faults.getD n none := by
  funext n
  rw [List.getD_cons_succ]

namespace Job

variable {s : State} {fault : Option Errno}

/-- Takes steps until a job is over, at most `steps`. -/
def runFor (v : Vault) (steps : Nat) (faults : Nat → Option Errno) (job : Job) (s : State) :
    Job × State :=
  match job with
  | store p =>
    (store { p with upload := (p.upload.runFor v steps faults s).1 },
      (p.upload.runFor v steps faults s).2)
  | removal p =>
    (removal { p with removal := (p.removal.runFor steps faults s).1 },
      (p.removal.runFor steps faults s).2)

def stepsLeft : Job → Nat
  | store p => p.upload.stepsLeft
  | removal p => p.removal.stepsLeft

def Steady : Job → Prop
  | store p => p.upload.Steady
  | removal p => p.removal.Steady

theorem steady_anew (v : Vault) (job : Job) : (job.anew v).Steady := by
  cases job with
  | store p => exact Upload.steady_start ..
  | removal p => exact Removal.steady_start ..

theorem steady_step (h : job.Steady) : (job.step v fault s).1.Steady := by
  cases job with
  | store p => exact Upload.steady_step h
  | removal p => exact Removal.steady_step h

theorem stepsLeft_step_lt (v : Vault) (fault : Option Errno) (s : State) (h : job.Steady)
    (hverdict : job.verdict? = none) : (job.step v fault s).1.stepsLeft < job.stepsLeft := by
  cases job with
  | store p => exact Upload.stepsLeft_step_lt v fault s h (Option.map_eq_none_iff.mp hverdict)
  | removal p => exact Removal.stepsLeft_step_lt fault s h (Option.map_eq_none_iff.mp hverdict)

theorem runFor_succ (steps : Nat) (faults : Nat → Option Errno) (s : State)
    (h : job.verdict? = none) :
    job.runFor v (steps + 1) faults s =
      (job.step v (faults 0) s).1.runFor v steps (fun n => faults (n + 1))
        (job.step v (faults 0) s).2 := by
  cases job with
  | store p =>
    simp only [runFor, step, Upload.runFor_succ v steps faults s (Option.map_eq_none_iff.mp h)]
  | removal p =>
    simp only [runFor, step, Removal.runFor_succ steps faults s (Option.map_eq_none_iff.mp h)]

theorem runFor_of_verdict? (steps : Nat) (faults : Nat → Option Errno) (s : State)
    (h : job.verdict? = some verdict) : job.runFor v steps faults s = (job, s) := by
  cases job with
  | store p =>
    obtain ⟨result, hresult, -⟩ := Option.map_eq_some_iff.mp h
    simp only [runFor, Upload.runFor_of_finished v steps faults s (Upload.stage_of_result? hresult)]
  | removal p =>
    obtain ⟨result, hresult, -⟩ := Option.map_eq_some_iff.mp h
    simp only [runFor, Removal.runFor_of_finished steps faults s (Removal.stage_of_result? hresult)]

/-- A job that has been walked to its end has been run. -/
theorem runFor_of_walk (faults : List (Option Errno)) {steps : Nat} (hsteady : job.Steady)
    (hsteps : job.stepsLeft ≤ steps) (hend : (job.walk v faults s).1.verdict? = some verdict) :
    job.walk v faults s = job.runFor v steps (fun n => faults.getD n none) s := by
  induction faults generalizing job s steps with
  | nil => exact (runFor_of_verdict? steps _ s hend).symm
  | cons fault faults ih =>
    cases hverdict : job.verdict? with
    | some verdict' =>
      rw [runFor_of_verdict? steps _ s hverdict]
      exact walk_of_verdict? v _ s hverdict
    | none =>
      have hlt := stepsLeft_step_lt v fault s hsteady hverdict
      obtain ⟨steps, rfl⟩ : ∃ k, steps = k + 1 := ⟨steps - 1, by omega⟩
      rw [runFor_succ steps _ s hverdict, getD_cons_succ]
      exact ih (steady_step hsteady) (Nat.le_of_lt_succ (Nat.lt_of_lt_of_le hlt hsteps)) hend

theorem perform_eq (v : Vault) (faults : List (Option Errno)) (job : Job) (d : Disk)
    (hend : ((job.anew v).runFor v (job.anew v).stepsLeft (fun n => faults.getD n none)
      { disk := d }).1.verdict? = some verdict) :
    job.perform v faults d = (verdict, ((job.anew v).runFor v (job.anew v).stepsLeft
      (fun n => faults.getD n none) { disk := d }).2.disk) := by
  cases job with
  | store p =>
    obtain ⟨result, hresult, rfl⟩ := Option.map_eq_some_iff.mp hend
    replace hresult : ((Upload.start v p.order.user p.order.name p.order.length p.order.body).run v
      (fun n => faults.getD n none) { disk := d }).1.result? = some result := hresult
    simp only [perform, storeWith, hresult, Option.getD_some]
    rfl
  | removal p =>
    obtain ⟨result, hresult, rfl⟩ := Option.map_eq_some_iff.mp hend
    replace hresult : ((Removal.start v p.user p.name).run (fun n => faults.getD n none)
      { disk := d }).1.result? = some result := hresult
    simp only [perform, hresult, Option.getD_some]
    rfl

/-- Who walks to the end has done the job. -/
theorem perform_of_walk (v : Vault) (faults : List (Option Errno)) (job : Job) (d : Disk)
    (hend : ((job.anew v).walk v faults { disk := d }).1.verdict? = some verdict) :
    job.perform v faults d = (verdict, ((job.anew v).walk v faults { disk := d }).2.disk) := by
  have hwalk := runFor_of_walk faults (steady_anew v job) (Nat.le_refl _) hend
  rw [hwalk] at hend ⊢
  exact perform_eq v faults job d hend

end Job

/-! ## 2. The record of a run -/

/-- Who takes a step by an action, and the failure of the system that comes from outside. -/
def Action.mover? : Action → Option (Visitor × Option Errno)
  | .advanceStore i fault => some (.store i, fault)
  | .advanceRemoval i fault => some (.removal i, fault)
  | _ => none

/-- Who comes by an action. -/
def Action.comer? : Action → Option Visitor
  | .store i _ => some (.store i)
  | .remove i _ _ => some (.removal i)
  | _ => none

/-- A crowd, with what is remembered of the steps of its parties. -/
structure Record where
  crowd : Crowd
  /-- What the steps of each party have met, in order. -/
  faults : Visitor → List (Option Errno) := fun _ => []
  /-- Who has come to hold the lock of each path, in order. -/
  entered : Path → List Visitor := fun _ => []

namespace Record

def start (v : Vault) (d : Disk) : Record := { crowd := .start v d }

def step (v : Vault) (r : Record) (action : Action) : Record :=
  let crowd := r.crowd.step v action
  match action.mover? with
  | none => { r with crowd }
  | some (x, fault) =>
    match r.crowd.job? x with
    | none => { r with crowd }
    | some job =>
      if job.ready r.crowd.state then
        { crowd
          faults := Function.update r.faults x
            (r.faults x ++ [job.met v fault r.crowd.state.disk])
          entered :=
            match job.turn with
            -- who waits and need not wait any more takes the lock
            | .waiting _ =>
              Function.update r.entered job.target (r.entered job.target ++ [x])
            | _ => r.entered }
      else { r with crowd }

/-- The record after some actions. -/
def run (v : Vault) (r : Record) (actions : List Action) : Record := actions.foldl (step v) r

/-- What has been done at a path, in the order in which the lock was taken. -/
def visits (r : Record) (path : Path) : List (Job × List (Option Errno)) :=
  (r.entered path).filterMap fun x => (r.crowd.job? x).map (·, r.faults x)

theorem crowd_step (v : Vault) (r : Record) (action : Action) :
    (r.step v action).crowd = r.crowd.step v action := by
  unfold step
  split
  · rfl
  · split
    · rfl
    · split <;> rfl

theorem crowd_run (v : Vault) (r : Record) (actions : List Action) :
    (r.run v actions).crowd = r.crowd.run v actions := by
  induction actions generalizing r with
  | nil => rfl
  | cons action actions ih =>
    rw [run, List.foldl_cons, Crowd.run, List.foldl_cons, ← crowd_step]
    exact ih _

theorem run_induction {motive : Record → Prop} {v : Vault} (actions : List Action) {r : Record}
    (hstep : ∀ r action, motive r → motive (step v r action)) (h : motive r) :
    motive (run v r actions) := by
  induction actions generalizing r with
  | nil => exact h
  | cons action actions ih => exact ih (hstep r action h)

end Record

/-- The party `x` takes a step of its job, and that is put on record. -/
structure Record.Moves (v : Vault) (fault : Option Errno) (x : Visitor) (job : Job)
    (r r' : Record) : Prop where
  here : r.crowd.job? x = some job
  ready : job.ready r.crowd.state = true
  state : r'.crowd.state = (job.step v fault r.crowd.state).2
  jobs : r'.crowd.job? = Function.update r.crowd.job? x (some (job.step v fault r.crowd.state).1)
  faults : r'.faults =
    Function.update r.faults x (r.faults x ++ [job.met v fault r.crowd.state.disk])
  entered : r'.entered = match job.turn with
    | .waiting _ => Function.update r.entered job.target (r.entered job.target ++ [x])
    | _ => r.entered

/-- What may happen to a record by an action. -/
inductive Record.Goes (v : Vault) (action : Action) (r r' : Record) : Prop
  | stays (hstate : r'.crowd.state = r.crowd.state) (hjobs : r'.crowd.job? = r.crowd.job?)
    (hfaults : r'.faults = r.faults) (hentered : r'.entered = r.entered)
  | comes (x : Visitor) (job : Job) (hcomer : action.comer? = some x)
    (hfree : r.crowd.job? x = none) (hanew : job.anew v = job)
    (hstate : r'.crowd.state = r.crowd.state)
    (hjobs : r'.crowd.job? = Function.update r.crowd.job? x (some job))
    (hfaults : r'.faults = r.faults) (hentered : r'.entered = r.entered)
  | moves (x : Visitor) (job : Job) (fault : Option Errno) (h : Moves v fault x job r r')

theorem Record.goes (v : Vault) (r : Record) (action : Action) :
    Goes v action r (r.step v action) := by
  cases action with
  | store i order =>
    simp only [step, Action.mover?, Crowd.step]
    split
    · exact .stays rfl rfl rfl rfl
    next hfree =>
      refine .comes (.store i) (.store
        ⟨order, Upload.start v order.user order.name order.length order.body⟩) rfl ?_ rfl rfl ?_
        rfl rfl
      · simp only [Crowd.job?, hfree, Option.map_none]
      · exact (Crowd.Gives.store ..).job?_eq
  | remove i user name =>
    simp only [step, Action.mover?, Crowd.step]
    split
    · exact .stays rfl rfl rfl rfl
    next hfree =>
      refine .comes (.removal i) (.removal ⟨user, name, Removal.start v user name⟩) rfl ?_ rfl rfl
        ?_ rfl rfl
      · simp only [Crowd.job?, hfree, Option.map_none]
      · exact (Crowd.Gives.removal ..).job?_eq
  | restore i user name | read i count =>
    simp only [step, Action.mover?, Crowd.step]
    split <;> exact .stays rfl rfl rfl rfl
  | list user => exact .stays rfl rfl rfl rfl
  | advanceStore i fault =>
    cases hp : r.crowd.stores i with
    | none =>
      simp only [step, Action.mover?, Crowd.job?, Crowd.step, hp, Option.map_none]
      exact .stays rfl rfl rfl rfl
    | some p =>
      simp only [step, Action.mover?, Crowd.job?, Crowd.step, hp, Option.map_some]
      by_cases hready : p.upload.ready r.crowd.state
      · have hjob : r.crowd.job? (.store i) = some (.store p) := by
          simp only [Crowd.job?, hp, Option.map_some]
        simp only [Job.ready, hready, if_true]
        exact .moves (.store i) (.store p) fault ⟨hjob, hready, rfl,
          (Crowd.Gives.store ..).job?_eq, rfl, rfl⟩
      · simp only [Job.ready, hready]
        exact .stays rfl rfl rfl rfl
  | advanceRemoval i fault =>
    cases hp : r.crowd.removals i with
    | none =>
      simp only [step, Action.mover?, Crowd.job?, Crowd.step, hp, Option.map_none]
      exact .stays rfl rfl rfl rfl
    | some p =>
      simp only [step, Action.mover?, Crowd.job?, Crowd.step, hp, Option.map_some]
      by_cases hready : p.removal.ready r.crowd.state
      · have hjob : r.crowd.job? (.removal i) = some (.removal p) := by
          simp only [Crowd.job?, hp, Option.map_some]
        simp only [Job.ready, hready, if_true]
        exact .moves (.removal i) (.removal p) fault ⟨hjob, hready, rfl,
          (Crowd.Gives.removal ..).job?_eq, rfl, rfl⟩
      · simp only [Job.ready, hready]
        exact .stays rfl rfl rfl rfl

theorem Record.job?_start (v : Vault) (d : Disk) (x : Visitor) :
    (start v d).crowd.job? x = none := by
  cases x <;> rfl

/-- Whoever is there has come. -/
theorem Record.mem_comers {v : Vault} {r : Record} {x : Visitor} (actions : List Action)
    (hfree : r.crowd.job? x = none) (h : (r.run v actions).crowd.job? x ≠ none) :
    x ∈ actions.filterMap Action.comer? := by
  induction actions generalizing r with
  | nil => exact absurd hfree h
  | cons action actions ih =>
    rw [List.filterMap_cons]
    by_cases hcomer : action.comer? = some x
    · rw [hcomer]
      exact List.mem_cons_self
    · have hfree' : (r.step v action).crowd.job? x = none := by
        cases goes v r action with
        | stays hstate hjobs => rw [hjobs, hfree]
        | comes y job hcomer' hfree' hanew hstate hjobs =>
          rw [hjobs, Function.update_of_ne, hfree]
          exact fun heq => hcomer (heq ▸ hcomer')
        | moves y job fault hmoves =>
          rw [hmoves.jobs, Function.update_of_ne, hfree]
          rintro rfl
          cases hfree.symm.trans hmoves.here
      have hmem := ih hfree' h
      split
      · exact hmem
      · exact List.mem_cons_of_mem _ hmem

end UserVault.Vault
