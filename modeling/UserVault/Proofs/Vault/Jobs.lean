import UserVault.Proofs.Vault.Mirror

/-!
# Jobs

Stores and removals are alike in how they go about their work: they wait until nobody else is at
the path, do what they have come for and settle, and give their turn up.  A job is either of them,
so that what is true of both need be said only once.
-/

namespace UserVault.Vault

open Disk Link

variable {v : Vault} {root : Place} {d₀ d d' : Disk} {job job' : Job} {s s' : State}
  {fault : Option Errno} {W : Spot → Prop} {ρ ρ' : FileId → FileId → Prop} {c : Crowd}

/-- What a job has come to. -/
inductive Verdict
  | stored (result : Except StoreError Unit)
  | removed (result : Except VaultError Removed)

/-- The outcome of a removal that has nothing more to do on the disk. -/
def Removal.settled? (r : Removal) : Option (Except VaultError Removed) :=
  match r.stage with
  | .givingTurn result | .finished result => some result
  | _ => none

theorem Upload.step_of_settled {u : Upload} {result : Except StoreError Unit}
    (h : u.settled? = some result) (v : Vault) (fault : Option Errno) (s : State) :
    (u.step v fault s).1.settled? = some result ∧ (u.step v fault s).2.disk = s.disk := by
  unfold Upload.settled? at h
  split at h
  next hstage =>
    cases h
    simp only [Upload.step, hstage]
    refine ⟨?_, by trivial⟩
    by_cases hgone : (u.turn.next u.target s.turns).1 = .gone
    · simp [Upload.settled?, State.advance, hgone]
    · simp [Upload.settled?, State.advance, hgone]
  next hstage =>
    cases h
    rw [Upload.step_of_finished hstage, Upload.settled?, hstage]
    exact ⟨rfl, rfl⟩
  next => cases h

theorem Removal.step_of_settled {r : Removal} {result : Except VaultError Removed}
    (h : r.settled? = some result) (fault : Option Errno) (s : State) :
    (r.step fault s).1.settled? = some result ∧ (r.step fault s).2.disk = s.disk := by
  unfold Removal.settled? at h
  split at h
  next hstage =>
    cases h
    simp only [Removal.step, hstage]
    refine ⟨?_, by trivial⟩
    by_cases hgone : (r.turn.next r.target s.turns).1 = .gone
    · simp [Removal.settled?, State.advance, hgone]
    · simp [Removal.settled?, State.advance, hgone]
  next hstage =>
    cases h
    rw [Removal.step_of_finished hstage, Removal.settled?, hstage]
    exact ⟨rfl, rfl⟩
  next => cases h

theorem Removal.stage_of_result? {r : Removal} {result : Except VaultError Removed}
    (h : r.result? = some result) : r.stage = .finished result := by
  unfold Removal.result? at h
  split at h
  next hstage => rw [hstage, Option.some.inj h]
  next => cases h

namespace Job

/-- The spot of the file that the job is about. -/
def spot : Job → Spot
  | store p => .file p.order.user p.order.name
  | removal p => .file p.user p.name

/-- The job as it was when it was brought. -/
def anew (v : Vault) : Job → Job
  | store p =>
    store { p with
      upload := Upload.start v p.order.user p.order.name p.order.length p.order.body }
  | removal p => removal { p with removal := Removal.start v p.user p.name }

def ready (s : State) : Job → Bool
  | store p => p.upload.ready s
  | removal p => p.removal.ready s

def step (v : Vault) (fault : Option Errno) (job : Job) (s : State) : Job × State :=
  match job with
  | store p =>
    (store { p with upload := (p.upload.step v fault s).1 }, (p.upload.step v fault s).2)
  | removal p =>
    (removal { p with removal := (p.removal.step fault s).1 }, (p.removal.step fault s).2)

/-- The failure of the system that the next step meets. -/
def met (v : Vault) (fault : Option Errno) (d : Disk) : Job → Option Errno
  | store p => p.upload.met v fault d
  | removal _ => fault

/-- What a job comes to in the end, once it is over. -/
def verdict? : Job → Option Verdict
  | store p => p.upload.result?.map .stored
  | removal p => p.removal.result?.map .removed

/-- What a job comes to, once it has nothing more to do on the disk. -/
def settled? : Job → Option Verdict
  | store p => p.upload.settled?.map .stored
  | removal p => p.removal.settled?.map .removed

/-- Whether a job has not yet got its turn. -/
def Pending : Job → Prop
  | store p => p.upload.stage = .preparing ∨ p.upload.stage = .takingTurn
  | removal p => p.removal.stage = .takingTurn

/-- Whether a job may change the file that it is about. -/
def AtWork : Job → Prop
  | store p => p.upload.AtWork
  | removal p => p.removal.stage = .unlinking

def opened? : Job → Option (Option Path)
  | store p => p.upload.opened?
  | removal _ => none

def Tidy (v : Vault) : Job → Prop
  | store p => p.Tidy v
  | removal p => p.Tidy v

def TurnFits (v : Vault) : Job → Prop
  | store p => p.upload.TurnFits v
  | removal p => p.removal.TurnFits v

def Stands (v : Vault) (root : Place) (d₀ d : Disk) : Job → Prop
  | store p => p.upload.Stands v root d₀ d p.order.user
  | removal _ => True

/-! ## 1. Phases -/

theorem spot_step (v : Vault) (fault : Option Errno) (job : Job) (s : State) :
    (job.step v fault s).1.spot = job.spot := by
  cases job <;> rfl

theorem anew_step (v : Vault) (fault : Option Errno) (job : Job) (s : State) :
    (job.step v fault s).1.anew v = job.anew v := by
  cases job <;> rfl

/-- A job under a name that is accepted is begun without its turn. -/
theorem pending_anew (hexclusive : v.options.exclusive = true) {user : UInt32} {name : Bytes}
    (hname : accepts name) (hspot : job.spot = .file user name) : (job.anew v).Pending := by
  cases job with
  | store p =>
    cases hspot
    refine .inl ?_
    simp only [Upload.start, resolve_of_accepts v _ hname]
  | removal p =>
    cases hspot
    simp only [anew, Pending, Removal.start, resolve_of_accepts v _ hname, hexclusive, if_true]

theorem phases (job : Job) : job.Pending ∨ job.AtWork ∨ ∃ verdict, job.settled? = some verdict := by
  cases job with
  | store p =>
    simp only [Pending, AtWork, Upload.AtWork, settled?, Upload.opened?, Upload.settled?]
    cases p.upload.stage <;> simp
  | removal p =>
    simp only [Pending, AtWork, settled?, Removal.settled?]
    cases p.removal.stage <;> simp

theorem not_atWork_of_settled {verdict : Verdict} (h : job.settled? = some verdict) :
    ¬job.AtWork ∧ ¬job.Pending ∧ job.opened? = none := by
  cases job with
  | store p =>
    simp only [Pending, AtWork, Upload.AtWork, settled?, opened?, Upload.opened?,
      Upload.settled?] at h ⊢
    cases hstage : p.upload.stage <;> simp [hstage] at h ⊢
  | removal p =>
    simp only [Pending, AtWork, settled?, opened?, Removal.settled?] at h ⊢
    cases hstage : p.removal.stage <;> simp [hstage] at h ⊢

theorem settled?_of_atWork (h : job.AtWork) : job.settled? = none := by
  cases hsettled : job.settled? with
  | none => rfl
  | some verdict => exact absurd h (not_atWork_of_settled hsettled).1

theorem of_pending (h : job.Pending) : ¬job.AtWork ∧ job.opened? = none ∧ job.settled? = none := by
  cases job with
  | store p =>
    simp only [AtWork, Upload.AtWork, opened?, Upload.opened?, settled?, Upload.settled?]
    rcases h with h | h <;> simp [h]
  | removal p =>
    simp only [Pending] at h
    simp [AtWork, opened?, settled?, Removal.settled?, h]

/-- A job that is over is settled. -/
theorem settled?_of_verdict? {verdict : Verdict} (h : job.verdict? = some verdict) :
    job.settled? = some verdict := by
  cases job with
  | store p =>
    obtain ⟨result, hresult, rfl⟩ := Option.map_eq_some_iff.mp h
    simp only [settled?, Upload.settled?, Upload.stage_of_result? hresult, Option.map_some]
  | removal p =>
    obtain ⟨result, hresult, rfl⟩ := Option.map_eq_some_iff.mp h
    simp only [settled?, Removal.settled?, Removal.stage_of_result? hresult, Option.map_some]

/-- A job that is over stays as it is. -/
theorem step_of_verdict? {verdict : Verdict} (h : job.verdict? = some verdict) (v : Vault)
    (fault : Option Errno) (s : State) : job.step v fault s = (job, s) := by
  cases job with
  | store p =>
    obtain ⟨result, hresult, -⟩ := Option.map_eq_some_iff.mp h
    simp only [step, Upload.step_of_finished (Upload.stage_of_result? hresult)]
  | removal p =>
    obtain ⟨result, hresult, -⟩ := Option.map_eq_some_iff.mp h
    simp only [step, Removal.step_of_finished (Removal.stage_of_result? hresult)]

/-- Once a job has settled, all that is left to it is to give its turn up. -/
theorem step_of_settled {verdict : Verdict} (h : job.settled? = some verdict) (v : Vault)
    (fault : Option Errno) (s : State) :
    (job.step v fault s).1.settled? = some verdict ∧ (job.step v fault s).2.disk = s.disk := by
  cases job with
  | store p =>
    obtain ⟨result, hresult, rfl⟩ := Option.map_eq_some_iff.mp h
    obtain ⟨hsettled, hdisk⟩ := Upload.step_of_settled hresult v fault s
    exact ⟨congrArg (Option.map Verdict.stored) hsettled, hdisk⟩
  | removal p =>
    obtain ⟨result, hresult, rfl⟩ := Option.map_eq_some_iff.mp h
    obtain ⟨hsettled, hdisk⟩ := Removal.step_of_settled hresult fault s
    exact ⟨congrArg (Option.map Verdict.removed) hsettled, hdisk⟩

/-! ## 2. Turns -/

section
variable (hfits : job.TurnFits v)
include hfits

/-- Where writers take turns, a job is at work only while it is inside. -/
theorem inside_of_atWork (hexclusive : v.options.exclusive = true) (h : job.AtWork) :
    ∃ id, job.turn = .inside id := by
  cases job with
  | store p =>
    simp only [AtWork, Upload.AtWork, Upload.opened?] at h
    simp only [TurnFits, Upload.TurnFits, hexclusive, if_true] at hfits
    cases hstage : p.upload.stage <;> simp [hstage] at h hfits <;> exact hfits
  | removal p =>
    simp only [AtWork] at h
    simp only [TurnFits, Removal.TurnFits, h, hexclusive, if_true] at hfits
    exact hfits

/-- A job that waits is pending, and after its next step it is at work. -/
theorem of_waiting {id : LockId} (hwaiting : job.turn = .waiting id) (fault : Option Errno)
    (s : State) : job.Pending ∧ (job.step v fault s).1.AtWork := by
  cases job with
  | store p =>
    replace hwaiting : p.upload.turn = .waiting id := hwaiting
    simp only [TurnFits, Upload.TurnFits, hwaiting] at hfits
    cases hstage : p.upload.stage with
    | takingTurn =>
      refine ⟨.inr hstage, .inl ?_⟩
      simp only [Upload.step, hstage, State.advance, hwaiting, Turn.next]
    | _ => simp [hstage] at hfits
  | removal p =>
    replace hwaiting : p.removal.turn = .waiting id := hwaiting
    simp only [TurnFits, Removal.TurnFits, hwaiting] at hfits
    cases hstage : p.removal.stage with
    | takingTurn =>
      refine ⟨hstage, ?_⟩
      simp only [AtWork, step, Removal.step, hstage, State.advance, hwaiting, Turn.next]
    | _ => simp [hstage] at hfits

end

/-- At work a job is inside, and so it is after its next step or has let the lock go. -/
theorem not_pending_step (hfits : job.TurnFits v) (hexclusive : v.options.exclusive = true)
    (h : job.AtWork) (fault : Option Errno) (s : State) : ¬(job.step v fault s).1.Pending := by
  obtain ⟨id, hturn⟩ := inside_of_atWork hfits hexclusive h
  cases job with
  | store p =>
    replace hturn : p.upload.turn = .inside id := hturn
    obtain ⟨⟨-, hturn'⟩, hfits'⟩ := Upload.step_turns v fault s hfits
    have hafter : (p.upload.step v fault s).1.turn = .inside id ∨
        (p.upload.step v fault s).1.turn = .released id := by
      rw [hturn] at hturn'
      rcases hturn' with hnext | ⟨-, hsame | ⟨hgone, -⟩⟩
      · exact .inr (Prod.mk.inj hnext).1
      · exact .inl hsame
      · cases hgone
    intro hpending
    replace hpending : (p.upload.step v fault s).1.stage = .preparing ∨
      (p.upload.step v fault s).1.stage = .takingTurn := hpending
    rcases hpending with hstage | hstage <;> simp only [Upload.TurnFits, hstage] at hfits' <;>
      rcases hafter with hafter | hafter <;> simp [hafter] at hfits'
  | removal p =>
    replace hturn : p.removal.turn = .inside id := hturn
    replace h : p.removal.stage = .unlinking := h
    intro hstage
    replace hstage : (p.removal.step fault s).1.stage = .takingTurn := hstage
    simp only [Removal.step, h] at hstage
    split at hstage <;> simp [Removal.settle, hturn] at hstage

theorem target_eq (htidy : job.Tidy v) (h : job.settled? = none) :
    job.target = v.pathOf job.spot := by
  cases job with
  | store p =>
    rcases htidy with ⟨result, hstage⟩ | ⟨-, hplaced⟩
    · simp [settled?, Upload.settled?, hstage] at h
    · exact hplaced.target_eq
  | removal p =>
    rcases htidy with ⟨result, hstage⟩ | ⟨-, htarget⟩
    · simp [settled?, Removal.settled?, hstage] at h
    · exact htarget

/-- Who waits can go on only when the lock is free. -/
theorem isFree_of_ready (hfits : job.TurnFits v) {id : LockId} (hwaiting : job.turn = .waiting id)
    (h : job.ready s = true) : s.turns.isFree id = true := by
  have hready : job.turn.ready s.turns = true := by
    cases job with
    | store p => exact Upload.turn_ready hfits h
    | removal p => exact Removal.turn_ready hfits h
  rw [hwaiting] at hready
  exact hready

/-- The only job that ends without having had its turn is a store that could not make sure of its
user's directory. -/
inductive Refuses (job : Job) (fault : Option Errno) (job' : Job) : Prop
  | store (p : Storing) (e : Errno) (hjob : job = .store p) (hstage : p.upload.stage = .preparing)
    (hfault : fault = some e)
    (hjob' : job' = .store { p with
      upload := p.upload.settle (.error (Upload.failure e p.upload.remaining)) })

/-- A pending job that does not wait stays pending, and will wait soon, or is refused. -/
theorem step_of_pending (hbase : EmptyBase v d₀ root) (htree : Orderly v root d₀ s.disk)
    (htidy : job.Tidy v) (hfits : job.TurnFits v) (hexclusive : v.options.exclusive = true)
    (h : job.Pending) (hwaiting : ∀ id, job.turn ≠ .waiting id) (fault : Option Errno) :
    (job.step v fault s).1.Pending ∧
        (∀ p, (job.step v fault s).1 = .store p → p.upload.stage ≠ .preparing) ∨
      Refuses job fault (job.step v fault s).1 := by
  have hstore {p : Storing} (hstage : p.upload.stage = .takingTurn) : (store p).Pending ∧
      ∀ q, store p = .store q → q.upload.stage ≠ .preparing := by
    refine ⟨.inr hstage, fun q heq => ?_⟩
    rw [← Job.store.inj heq, hstage]
    intro h
    cases h
  cases job with
  | store p =>
    rcases h with hstage | hstage
    · cases fault with
      | some e =>
        refine .inr (.store p e rfl hstage rfl ?_)
        simp only [step, Upload.step, hstage]
      | none =>
        have hplaced : Placed v p.order.user p.order.name p.upload := by
          rcases htidy with ⟨result, hfinished⟩ | ⟨-, hplaced⟩
          · cases hstage.symm.trans hfinished
          · exact hplaced
        have hcall : s.disk.makeDirectories (v.userDirectory p.upload.user) =
            (.ok (), withFolder s.disk root p.order.user) := by
          rw [hplaced.user_eq, htree.makeDirectories_folder hbase]
        refine .inl (hstore ?_)
        simp only [Upload.step, hstage, hcall, hexclusive, if_true]
    · simp only [TurnFits, Upload.TurnFits, hstage] at hfits
      obtain ⟨-, hturn | ⟨id, hturn⟩⟩ := hfits
      · refine .inl (hstore ?_)
        simp only [Upload.step, hstage, State.advance, hturn, Turn.next]
      · exact absurd hturn (hwaiting id)
  | removal p =>
    simp only [Pending] at h
    simp only [TurnFits, Removal.TurnFits, h] at hfits
    obtain ⟨-, hturn | ⟨id, hturn⟩⟩ := hfits
    · refine .inl ⟨?_, fun _ heq => by cases heq⟩
      simp only [Pending, step, Removal.step, h, State.advance, hturn, Turn.next]
    · exact absurd hturn (hwaiting id)

/-! ## 3. How far a step reaches -/

/-- The spots at which the next step of a job may change what stands there. -/
def Touches (v : Vault) (root : Place) (d : Disk) : Job → Spot → Prop
  | store p => p.upload.Touches v root p.order.user p.order.name d
  | removal p => fun spot => spot = .file p.user p.name ∧ p.removal.stage = .unlinking

/-- The files that the next step of a job may write to. -/
def Writes (root : Place) (d : Disk) : Job → FileId → Prop
  | store p => p.upload.Writes root p.order.user p.order.name d
  | removal _ => fun _ => False

theorem recordsKept (hbase : EmptyBase v d₀ root) (htree : Orderly v root d₀ s.disk)
    (hfresh : Fresh root d₀ s.disk) (htidy : job.Tidy v) (hstands : job.Stands v root d₀ s.disk)
    (fault : Option Errno) :
    RecordsKept root (job.Touches v root s.disk) (job.Writes root s.disk) s.disk
      (job.step v fault s).2.disk := by
  cases job with
  | store p => exact (Storing.Tidy.advances hbase htidy htree hfresh hstands fault).recordsKept
  | removal p =>
    rcases htidy with ⟨result, hstage⟩ | ⟨hname, htarget⟩
    · simp only [step, Removal.step_of_finished hstage]
      exact recordsKept_refl root _ _ _
    · exact (removal_step fault hbase htree hname htarget).recordsKept

/-- A user's file is changed only by jobs that are about it and at work. -/
theorem not_touches {spot : Spot} (hspot : ∃ user name, spot = .file user name)
    (h : job.spot = spot → ¬job.AtWork) (v : Vault) (root : Place) (d : Disk) :
    ¬job.Touches v root d spot := by
  obtain ⟨user, name, rfl⟩ := hspot
  cases job with
  | store p =>
    rintro ⟨⟨rfl, rfl⟩, hwork⟩
    exact h rfl hwork
  | removal p =>
    rintro ⟨heq, hwork⟩
    exact h heq.symm hwork

theorem not_writes (h : ¬job.AtWork) (root : Place) (d : Disk) (id : FileId) :
    ¬job.Writes root d id := by
  cases job with
  | store p =>
    rintro (⟨file, hfile, -⟩ | ⟨hstage, -⟩)
    · refine h (.inr fun hnone => ?_)
      rw [Upload.handle?_eq_none hnone] at hfile
      cases hfile
    · exact h (.inl hstage)
  | removal p => exact fun hfalse => hfalse

end Job

/-! ## 4. Jobs that nobody disturbs -/

/-- A disk of a vault in which no file is on its way in. -/
structure Calm (v : Vault) (root : Place) (d₀ d : Disk) : Prop where
  tree : Orderly v root d₀ d
  fresh : Fresh root d₀ d
  vacant : ∀ number, d.node? (Spot.under (.staged number) root) = none

/-- A job has what it relies on, and no file but its own is on its way in. -/
structure Job.Alone (v : Vault) (root : Place) (d₀ : Disk) (job : Job) (d : Disk) : Prop where
  tree : Orderly v root d₀ d
  fresh : Fresh root d₀ d
  tidy : job.Tidy v
  stands : job.Stands v root d₀ d
  aside : ∀ number node, d.node? (Spot.under (.staged number) root) = some node →
    job.opened? = some (some (v.pathOf (.staged number)))

theorem calm_prepare (hbase : EmptyBase v d₀ root) : Calm v root d₀ (v.prepare d₀).2 :=
  ⟨orderly_prepare hbase, (Crowd.standing_start hbase).fresh,
    fun _ => Crowd.node?_prepare hbase (by simp)⟩

theorem Job.alone_anew (h : Calm v root d₀ d) (job : Job) : (job.anew v).Alone v root d₀ d := by
  have haside (number : Nat) (node : Node)
      (hnode : d.node? (Spot.under (.staged number) root) = some node) :
      (job.anew v).opened? = some (some (v.pathOf (.staged number))) := by
    cases (h.vacant number).symm.trans hnode
  cases job with
  | store p => exact ⟨h.tree, h.fresh, tidy_start_store v p.order, stands_start .., haside⟩
  | removal p => exact ⟨h.tree, h.fresh, tidy_start_removal v p.user p.name, trivial, haside⟩

theorem Job.Alone.calm (h : job.Alone v root d₀ d) (hopened : job.opened? = none) :
    Calm v root d₀ d := by
  refine ⟨h.tree, h.fresh, fun number => ?_⟩
  cases hnode : d.node? (Spot.under (.staged number) root) with
  | none => rfl
  | some node => cases hopened.symm.trans (h.aside number node hnode)

theorem Job.Alone.step (hbase : EmptyBase v d₀ root) (h : job.Alone v root d₀ s.disk)
    (fault : Option Errno) :
    (job.step v fault s).1.Alone v root d₀ (job.step v fault s).2.disk := by
  obtain ⟨htree, hfresh, htidy, hstands, haside⟩ := h
  cases job with
  | store p =>
    have hadvances := Storing.Tidy.advances hbase htidy htree hfresh hstands fault
    obtain ⟨htree', htidy'⟩ := Storing.Tidy.step hbase htidy htree fault
    refine ⟨htree', hfresh.recordsKept hadvances.recordsKept fun _ hid => hstands.writes hfresh hid,
      htidy', hadvances.stands, fun number node hnode => ?_⟩
    rcases hadvances.staged number node hnode with hopened | ⟨hold, hne⟩
    · exact hopened
    · exact absurd (haside number node hold) hne
  | removal p =>
    obtain ⟨htree', htidy'⟩ := Removing.Tidy.step hbase htidy htree fault
    obtain ⟨r, hrecords⟩ := Removing.Tidy.recordsKept hbase htidy htree fault
    refine ⟨htree', hfresh.recordsKept hrecords fun _ hfalse => hfalse.elim, htidy', trivial,
      fun number node hnode => ?_⟩
    have hnode' : (p.removal.step fault s).2.disk.node? (Spot.under (.staged number) root) =
        some node := hnode
    rw [hrecords.node _ (by simp)] at hnode'
    cases haside number node hnode'

/-- Where nobody else is on the way in, numbers do not run out. -/
theorem Job.Alone.fits (hbase : EmptyBase v d₀ root) (h : job.Alone v root d₀ d)
    (hopened : job.opened? = none) : ¬TooLong v (Upload.freeNumber v d) := by
  rw [freeNumber_eq_zero hbase h.tree (h.calm hopened).vacant]
  exact not_tooLong_zero hbase

/-! ## 5. Twins -/

/-- A job on disk `d` and its twin on disk `d'`. -/
inductive Job.Twin (v : Vault) (root : Place) (ρ : FileId → FileId → Prop) (d d' : Disk) :
    Job → Job → Prop
  | store (p p' : Storing) (h : p.Twin v root ρ d d' p') :
    Job.Twin v root ρ d d' (.store p) (.store p')
  | removal (p p' : Removing) (h : p.Twin p') : Job.Twin v root ρ d d' (.removal p) (.removal p')

theorem Job.twin_anew (v : Vault) (root : Place) (ρ : FileId → FileId → Prop) (d d' : Disk)
    (job : Job) : Job.Twin v root ρ d d' (job.anew v) (job.anew v) := by
  cases job with
  | store p => exact .store _ _ ⟨rfl, Crowd.twin_start v root ρ d d' p.order⟩
  | removal p => exact .removal _ _ ⟨rfl, rfl, rfl, rfl, rfl⟩

/-- What twins come to is the same. -/
theorem Job.Twin.settled?_eq (h : Job.Twin v root ρ d d' job job') :
    job'.settled? = job.settled? := by
  cases h with
  | store p p' h => exact congrArg (Option.map Verdict.stored) h.upload.settled?_eq
  | removal p p' h =>
    refine congrArg (Option.map Verdict.removed) ?_
    rw [Removal.settled?, Removal.settled?, h.removal.stage]

theorem Job.Twin.verdict?_eq (h : Job.Twin v root ρ d d' job job') :
    job'.verdict? = job.verdict? := by
  cases h with
  | store p p' h => exact congrArg (Option.map Verdict.stored) h.upload.result?_eq
  | removal p p' h => exact congrArg (Option.map Verdict.removed) h.removal.result?_eq

theorem Job.Twin.pending (h : Job.Twin v root ρ d d' job job') (hpending : job.Pending) :
    job'.Pending := by
  cases h with
  | removal p p' h => exact h.removal.stage.trans hpending
  | store p p' h =>
    have hstage := h.upload.stage
    simp only [Job.Pending] at hpending ⊢
    generalize p.upload.stage = st at hstage hpending
    generalize p'.upload.stage = st' at hstage ⊢
    rcases hpending with rfl | rfl <;> cases hstage
    · exact .inl rfl
    · exact .inr rfl

/-- Twins have a file open or not. -/
theorem Job.Twin.opened?_eq_none (h : Job.Twin v root ρ d d' job job')
    (hopened : job.opened? = none) : job'.opened? = none := by
  cases h with
  | removal => rfl
  | store p p' h =>
    have hstage := h.upload.stage
    simp only [Job.opened?, Upload.opened?] at hopened ⊢
    generalize p.upload.stage = st at hstage hopened
    generalize p'.upload.stage = st' at hstage ⊢
    cases hstage <;> first | rfl | cases hopened

/-- Twins that have no file open are twins whatever happens. -/
theorem Job.Twin.mono_of_none (h : Job.Twin v root ρ d d' job job') (hopened : job.opened? = none)
    (ρ' : FileId → FileId → Prop) (d₁ d₁' : Disk) : Job.Twin v root ρ' d₁ d₁' job job' := by
  cases h with
  | removal p p' h => exact .removal p p' h
  | store p p' h =>
    refine .store p p' ⟨h.order, { h.upload with stage := ?_ }⟩
    have hstage := h.upload.stage
    simp only [Job.opened?, Upload.opened?] at hopened
    generalize p.upload.stage = st at hstage hopened ⊢
    generalize p'.upload.stage = st' at hstage ⊢
    cases hstage with
    | preparing => exact .preparing
    | takingTurn => exact .takingTurn
    | opening => exact .opening
    | givingTurn result => exact .givingTurn result
    | finished result => exact .finished result
    | copying | flushing | syncing | publishing | discarding => cases hopened

theorem Job.Twin.mono {d₁ d₁' : Disk} (h : Job.Twin v root ρ d d' job job')
    (hρ : ∀ id id', ρ id id' → ρ' id id')
    (hnode : ∀ n, job.opened? = some (some (v.pathOf (.staged n))) →
      d₁.node? (Spot.under (.staged n) root) = d.node? (Spot.under (.staged n) root))
    (hnode' : ∀ n, job'.opened? = some (some (v.pathOf (.staged n))) →
      d₁'.node? (Spot.under (.staged n) root) = d'.node? (Spot.under (.staged n) root)) :
    Job.Twin v root ρ' d₁ d₁' job job' := by
  cases h with
  | store p p' h => exact .store p p' ⟨h.order, h.upload.mono hρ hnode hnode'⟩
  | removal p p' h => exact .removal p p' h

/-- A step of a job among others and the same step of its twin, which nobody disturbs. -/
theorem Job.Twin.step (hbase : EmptyBase v d₀ root) (htree : Orderly v root d₀ s.disk)
    (htidy : job.Tidy v) (hstands : job.Stands v root d₀ s.disk)
    (halone : job'.Alone v root d₀ s'.disk) (halike : Alike root W ρ s.disk s'.disk)
    (htwin : Job.Twin v root ρ s.disk s'.disk job job') (hfile : job.AtWork → W job.spot)
    (hstaged : ∀ n, ¬W (.staged n)) (fault : Option Errno) :
    ∃ ρ', Grows s.disk s'.disk ρ ρ' ∧
      Alike root W ρ' (job.step v fault s).2.disk
        (job'.step v (job.met v fault s.disk) s').2.disk ∧
      Job.Twin v root ρ' (job.step v fault s).2.disk
        (job'.step v (job.met v fault s.disk) s').2.disk (job.step v fault s).1
        (job'.step v (job.met v fault s.disk) s').1 := by
  cases htwin with
  | store p p' h =>
    obtain ⟨ρ', hgrows, halike', htwin'⟩ := h.inStep hbase htidy htree halone.tree halike hstands
      halone.stands (fun hstage => hfile (.inl hstage)) hstaged fault fun _ hstage _ => by
        refine halone.fits hbase ((Job.Twin.store p p' h).opened?_eq_none ?_)
        simp only [opened?, Upload.opened?, hstage]
    exact ⟨ρ', hgrows, halike', .store _ _ ⟨h.order, htwin'⟩⟩
  | removal p p' h =>
    have hboth := h.step hbase htidy htree halone.tree halike (fun hstage => hfile hstage) fault
    exact ⟨ρ, Grows.refl _ _ ρ, hboth.1, .removal _ _ ⟨h.user, h.name, hboth.2⟩⟩

end UserVault.Vault
