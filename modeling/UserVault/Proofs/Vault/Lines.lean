import UserVault.Proofs.Vault.Visits

/-!
# Who is in line at a path

Where writers take turns, the stores and removals of a user's file are done one after the other.
Each of those that have had their turn has left the file as it would have done on its own, after
the ones before it; at most one is at work, and that one is a twin of itself working alone; all
others have done nothing to the file yet.  Every step of every party keeps it so.
-/

namespace UserVault.Vault

open Disk Link

variable {v : Vault} {root : Place} {d₀ d d' : Disk} {user : UInt32} {name : Bytes}
  {r r' : Record} {x y : Visitor} {job job' : Job} {fault : Option Errno} {xs : List Visitor}
  {ρ ρ' : FileId → FileId → Prop} {c c' : Crowd}

/-! ## 1. Jobs of a crowd -/

namespace Crowd

theorem Standing.of_job (h : c.Standing v root d₀) (hjob : c.job? x = some job) :
    job.Tidy v ∧ job.Stands v root d₀ c.state.disk := by
  cases x with
  | store i =>
    obtain ⟨p, hp, rfl⟩ := Option.map_eq_some_iff.mp hjob
    exact ⟨h.tidy.stores i p hp, h.stores i p hp⟩
  | removal i =>
    obtain ⟨p, hp, rfl⟩ := Option.map_eq_some_iff.mp hjob
    exact ⟨h.tidy.removals i p hp, trivial⟩

theorem Fair.of_job (h : c.Fair v) (hjob : c.job? x = some job) :
    job.TurnFits v ∧ c.turnOf x = some (job.target, job.turn) := by
  cases x with
  | store i =>
    obtain ⟨p, hp, rfl⟩ := Option.map_eq_some_iff.mp hjob
    exact ⟨h.stores i p hp, congrArg (Option.map _) hjob⟩
  | removal i =>
    obtain ⟨p, hp, rfl⟩ := Option.map_eq_some_iff.mp hjob
    exact ⟨h.removals i p hp, congrArg (Option.map _) hjob⟩

/-- No step is taken where another job has its file aside. -/
theorem Standing.apart_job (h : c.Standing v root d₀) (hjob : c.job? x = some job) (hne : y ≠ x)
    (hjob' : c.job? y = some job') {n : Nat}
    (hopened : job'.opened? = some (some (v.pathOf (.staged n)))) :
    ¬job.Touches v root c.state.disk (.staged n) := by
  cases x with
  | removal i =>
    obtain ⟨p, hp, rfl⟩ := Option.map_eq_some_iff.mp hjob
    rintro ⟨heq, -⟩
    cases heq
  | store i =>
    obtain ⟨p, hp, rfl⟩ := Option.map_eq_some_iff.mp hjob
    cases y with
    | removal j =>
      obtain ⟨q, hq, rfl⟩ := Option.map_eq_some_iff.mp hjob'
      cases hopened
    | store j =>
      obtain ⟨q, hq, rfl⟩ := Option.map_eq_some_iff.mp hjob'
      exact h.apart hp (fun heq => hne (congrArg _ heq)) hq hopened

theorem stores_of_job? (h : c'.job? = c.job?) : c'.stores = c.stores := by
  funext i
  have hi := congrFun h (.store i)
  exact Option.map_injective (fun _ _ heq => Job.store.inj heq) hi

theorem stores_of_update {i : Nat} {p : Storing}
    (h : c'.job? = Function.update c.job? (.store i) (some (.store p))) :
    c'.stores = Function.update c.stores i (some p) := by
  refine stores_of_job? (c := { c with stores := Function.update c.stores i (some p) }) ?_
  rw [h]
  exact (Gives.store i p c.state c.events).job?_eq.symm

theorem stores_of_update_removal {i : Nat} {p : Removing}
    (h : c'.job? = Function.update c.job? (.removal i) (some (.removal p))) :
    c'.stores = c.stores := by
  refine stores_of_job? (c := { c with removals := Function.update c.removals i (some p) }) ?_
  rw [h]
  exact (Gives.removal i p c.state c.events).job?_eq.symm

end Crowd

/-- What a step of a job leaves as it was: all that is alike to a disk at the user's file, if the
job is not at work there, and what is reserved for it. -/
theorem Record.Moves.beside (hbase : EmptyBase v d₀ root) (hmoves : Moves v fault x job r r')
    (h : r.crowd.Standing v root d₀) {watched : Nat → Prop} (hx : ∀ i, x = .store i → ¬watched i)
    (hwork : job.spot = .file user name → ¬job.AtWork)
    (halike : Alike root (· = .file user name) ρ r.crowd.state.disk d')
    (hreserved : Reserved v root (· = .file user name) watched (fun id => ∃ id', ρ id id')
      r.crowd.state.disk r.crowd.stores) :
    Alike root (· = .file user name) ρ r'.crowd.state.disk d' ∧
      Reserved v root (· = .file user name) watched (fun id => ∃ id', ρ id id')
        r'.crowd.state.disk r'.crowd.stores := by
  obtain ⟨htidy, hstands⟩ := h.of_job hmoves.here
  have hspots (spot : Spot) (heq : spot = .file user name) :
      ¬job.Touches v root r.crowd.state.disk spot := by
    subst heq
    exact Job.not_touches ⟨user, name, rfl⟩ hwork v root _
  have hrecords := Job.recordsKept hbase h.tidy.tree h.fresh htidy hstands fault
  rw [hmoves.state]
  cases x with
  | store i =>
    obtain ⟨p, hp, rfl⟩ := Option.map_eq_some_iff.mp hmoves.here
    have hadvances := Storing.Tidy.advances hbase htidy h.tidy.tree h.fresh hstands fault
    have htree' := (Storing.Tidy.step hbase htidy h.tidy.tree fault).1
    rw [Crowd.stores_of_update hmoves.jobs]
    refine ⟨halike.beside hrecords (htree'.bound.trans h.tidy.tree.bound.symm)
      (htree'.umask.trans h.tidy.tree.umask.symm) hspots fun id id' hid => ?_, ?_⟩
    · exact hreserved.not_writes (hx i rfl) hp hspots ⟨id', hid⟩
    · refine hreserved.beside_store (hx i rfl) hp hadvances hspots fun j q n hj hq hopened => ?_
      exact h.apart hp (fun heq => hx i rfl (heq ▸ hj)) hq hopened
  | removal i =>
    obtain ⟨p, hp, rfl⟩ := Option.map_eq_some_iff.mp hmoves.here
    have htree' := (Removing.Tidy.step hbase htidy h.tidy.tree fault).1
    rw [Crowd.stores_of_update_removal hmoves.jobs]
    refine ⟨halike.beside hrecords (htree'.bound.trans h.tidy.tree.bound.symm)
      (htree'.umask.trans h.tidy.tree.umask.symm) hspots fun _ _ _ hfalse => hfalse, ?_⟩
    exact hreserved.beside hrecords (fun _ hP => ⟨_, _, hP.1⟩)
      (.inr fun spot hP heq => hspots spot heq hP)

/-! ## 2. Where the parties are -/

/-- Where files do not correspond. -/
abbrev noFiles : FileId → FileId → Prop := fun _ _ => False

namespace Record

/-- The job of a party done alone, from its beginning on disk `d` and as far as the party has
come. -/
def solo (v : Vault) (r : Record) (x : Visitor) (job : Job) (d : Disk) : Job × State :=
  (job.anew v).walk v (r.faults x) { disk := d }

/-- Done alone, the job of a party comes as far as among the others. -/
structure Tracks (v : Vault) (root : Place) (d₀ : Disk) (r : Record) (ρ : FileId → FileId → Prop)
    (x : Visitor) (job : Job) (d : Disk) : Prop where
  alone : (r.solo v x job d).1.Alone v root d₀ (r.solo v x job d).2.disk
  twin : Job.Twin v root ρ r.crowd.state.disk (r.solo v x job d).2.disk job (r.solo v x job d).1

/-- A party has not had its turn: wherever its job is begun, it has not changed the file so far. -/
structure Awaits (v : Vault) (root : Place) (d₀ : Disk) (user : UInt32) (name : Bytes) (r : Record)
    (x : Visitor) (job : Job) : Prop where
  pending : job.Pending
  begun : ∀ p, job = .store p → p.upload.stage = .preparing → r.faults x = [] ∧ job.anew v = job
  tracks : ∀ d, Calm v root d₀ d → r.Tracks v root d₀ noFiles x job d ∧
    ∀ ρ d', Alike root (· = .file user name) ρ d' d →
      Alike root (· = .file user name) ρ d' (r.solo v x job d).2.disk

/-- The first step of a store has met a failure of the system, and that was the end of it. -/
def Refused (r : Record) (x : Visitor) (job : Job) : Prop :=
  ∃ p e, job = .store p ∧ (r.faults x).head? = some (some e) ∧
    job.verdict? = some (.stored (.error (Upload.failure e p.order.length.toNat)))

/-- The parties have had their turns and have settled, one after the other, and left disk `d`. -/
inductive Served (v : Vault) (root : Place) (d₀ : Disk) (user : UInt32) (name : Bytes)
    (r : Record) : List Visitor → Disk → Prop
  | nobody : Served v root d₀ user name r [] (v.prepare d₀).2
  | next (xs : List Visitor) (x : Visitor) (job : Job) (verdict : Verdict) (d : Disk)
    (hserved : Served v root d₀ user name r xs d) (hjob : r.crowd.job? x = some job)
    (hspot : job.spot = .file user name) (hsettled : job.settled? = some verdict)
    (htracks : r.Tracks v root d₀ noFiles x job d) :
    Served v root d₀ user name r (xs ++ [x]) (r.solo v x job d).2.disk

/-- What those who have had their turns at a path have made of the file there is what they would
have made of it one after the other; the last of them may still be at work. -/
inductive Line (v : Vault) (root : Place) (d₀ : Disk) (user : UInt32) (name : Bytes)
    (r : Record) : Prop
  | idle (d : Disk) (ρ : FileId → FileId → Prop)
    (hserved : Served v root d₀ user name r (r.entered (v.pathOf (.file user name))) d)
    (halike : Alike root (· = .file user name) ρ r.crowd.state.disk d)
    (hreserved : Reserved v root (· = .file user name) (fun _ => False) (fun id => ∃ id', ρ id id')
      r.crowd.state.disk r.crowd.stores)
  | busy (xs : List Visitor) (x : Visitor) (job : Job) (d : Disk) (ρ : FileId → FileId → Prop)
    (hentered : r.entered (v.pathOf (.file user name)) = xs ++ [x])
    (hserved : Served v root d₀ user name r xs d) (hjob : r.crowd.job? x = some job)
    (hspot : job.spot = .file user name) (hwork : job.AtWork)
    (htracks : r.Tracks v root d₀ ρ x job d)
    (halike : Alike root (· = .file user name) ρ r.crowd.state.disk (r.solo v x job d).2.disk)
    (hreserved : Reserved v root (· = .file user name) (fun i => x = .store i)
      (fun id => ∃ id', ρ id id') r.crowd.state.disk r.crowd.stores)

/-- Everybody who comes to a path is in line there. -/
structure InLine (v : Vault) (root : Place) (d₀ : Disk) (user : UInt32) (name : Bytes)
    (r : Record) : Prop where
  standing : r.crowd.Standing v root d₀
  fair : r.crowd.Fair v
  absent : ∀ x, r.crowd.job? x = none → r.faults x = []
  parties : ∀ x job, r.crowd.job? x = some job → job.spot = .file user name →
    x ∈ r.entered (v.pathOf (.file user name)) ∨ r.Awaits v root d₀ user name x job ∨
      r.Refused x job
  entered : ∀ x, x ∈ r.entered (v.pathOf (.file user name)) → ∃ job, r.crowd.job? x = some job ∧
    job.spot = .file user name ∧ ¬job.Pending
  nodup : (r.entered (v.pathOf (.file user name))).Nodup
  line : r.Line v root d₀ user name

theorem Served.calm (hbase : EmptyBase v d₀ root) (h : r.Served v root d₀ user name xs d) :
    Calm v root d₀ d := by
  cases h with
  | nobody => exact calm_prepare hbase
  | next xs x job verdict d hserved hjob hspot hsettled htracks =>
    exact htracks.alone.calm
      (htracks.twin.opened?_eq_none (Job.not_atWork_of_settled hsettled).2.2)

theorem Served.settled (h : r.Served v root d₀ user name xs d) (hx : x ∈ xs) :
    ∃ job verdict, r.crowd.job? x = some job ∧ job.spot = .file user name ∧
      job.settled? = some verdict := by
  induction h with
  | nobody => cases hx
  | next xs y job verdict d hserved hjob hspot hsettled htracks ih =>
    rcases List.mem_append.mp hx with hx | hx
    · exact ih hx
    · cases List.mem_singleton.mp hx
      exact ⟨job, verdict, hjob, hspot, hsettled⟩

/-- Those who have settled are left as they are, or go on giving their turns up. -/
theorem Served.congr (h : r.Served v root d₀ user name xs d)
    (hkeep : ∀ x job verdict d, x ∈ xs → r.crowd.job? x = some job →
      job.spot = .file user name → job.settled? = some verdict →
      r.Tracks v root d₀ noFiles x job d → ∃ job', r'.crowd.job? x = some job' ∧
        job'.spot = .file user name ∧ job'.settled? = some verdict ∧
        r'.Tracks v root d₀ noFiles x job' d ∧
        (r'.solo v x job' d).2.disk = (r.solo v x job d).2.disk) :
    r'.Served v root d₀ user name xs d := by
  induction h with
  | nobody => exact .nobody
  | next xs x job verdict d hserved hjob hspot hsettled htracks ih =>
    obtain ⟨job', hjob', hspot', hsettled', htracks', hdisk⟩ := hkeep x job verdict d
      (List.mem_append_right xs (List.mem_singleton_self x)) hjob hspot hsettled htracks
    rw [← hdisk]
    exact .next xs x job' verdict d
      (ih fun y job verdict d hy => hkeep y job verdict d (List.mem_append_left _ hy)) hjob' hspot'
      hsettled' htracks'

/-! ## 3. One step of a party -/

section
variable (hmoves : Moves v fault x job r r')
include hmoves

/-- The party that takes a step takes it alone as well. -/
theorem Moves.solo_eq (d : Disk) :
    r'.solo v x (job.step v fault r.crowd.state).1 d =
      (r.solo v x job d).1.step v (job.met v fault r.crowd.state.disk) (r.solo v x job d).2 := by
  rw [solo, solo, hmoves.faults, Function.update_self, Job.anew_step, Job.walk_concat]

theorem Moves.solo_of_ne (hne : y ≠ x) (job' : Job) (d : Disk) :
    r'.solo v y job' d = r.solo v y job' d := by
  rw [solo, solo, hmoves.faults, Function.update_of_ne hne]

variable (hbase : EmptyBase v d₀ root) (hstanding : r.crowd.Standing v root d₀)
include hbase hstanding

/-- The others are where they were. -/
theorem Tracks.other (hne : y ≠ x) (hjob' : r.crowd.job? y = some job')
    (h : r.Tracks v root d₀ ρ y job' d) : r'.Tracks v root d₀ ρ y job' d := by
  obtain ⟨htidy, hstands⟩ := hstanding.of_job hmoves.here
  have hrecords := Job.recordsKept hbase hstanding.tidy.tree hstanding.fresh htidy hstands fault
  have hsolo := hmoves.solo_of_ne hne job' d
  refine ⟨by rw [hsolo]; exact h.alone, ?_⟩
  rw [hsolo, hmoves.state]
  refine h.twin.mono (fun _ _ hid => hid) (fun n hopened => ?_) fun _ _ => rfl
  exact hrecords.node _ (hstanding.apart_job hmoves.here hne hjob' hopened)

/-- A step of a party and the same step of its job done alone. -/
theorem Tracks.own {W : Spot → Prop} (h : r.Tracks v root d₀ ρ x job d)
    (halike : Alike root W ρ r.crowd.state.disk (r.solo v x job d).2.disk)
    (hfile : job.AtWork → W job.spot) (hstaged : ∀ n, ¬W (.staged n)) :
    ∃ ρ', Grows r.crowd.state.disk (r.solo v x job d).2.disk ρ ρ' ∧
      Alike root W ρ' r'.crowd.state.disk
        (r'.solo v x (job.step v fault r.crowd.state).1 d).2.disk ∧
      r'.Tracks v root d₀ ρ' x (job.step v fault r.crowd.state).1 d := by
  obtain ⟨htidy, hstands⟩ := hstanding.of_job hmoves.here
  obtain ⟨ρ', hgrows, halike', htwin'⟩ := h.twin.step hbase hstanding.tidy.tree htidy hstands
    h.alone halike hfile hstaged fault
  have hsolo := hmoves.solo_eq d
  refine ⟨ρ', hgrows, ?_, ?_⟩
  · rw [hsolo, hmoves.state]
    exact halike'
  · refine ⟨?_, ?_⟩
    · rw [hsolo]
      exact h.alone.step hbase _
    · rw [hsolo, hmoves.state]
      exact htwin'

/-- A step of a party that has no file open before and after it. -/
theorem Tracks.idle (h : r.Tracks v root d₀ noFiles x job d) (hwork : ¬job.AtWork)
    (hopened : (job.step v fault r.crowd.state).1.opened? = none) :
    r'.Tracks v root d₀ noFiles x (job.step v fault r.crowd.state).1 d := by
  -- the disks have as much in common as any two disks of the vault
  have halike : Alike root (fun _ => False) noFiles r.crowd.state.disk
      (r.solo v x job d).2.disk := by
    refine ⟨?_, ?_, fun _ _ h => h.elim, fun _ _ h => h.elim, fun _ _ _ _ h => h.elim,
      fun _ h => h.elim⟩
    · rw [h.alone.tree.bound, hstanding.tidy.tree.bound]
    · rw [h.alone.tree.umask, hstanding.tidy.tree.umask]
  obtain ⟨ρ', -, -, halone, htwin⟩ := h.own hmoves hbase hstanding halike
    (fun hfalse => hwork hfalse) fun _ hfalse => hfalse
  exact ⟨halone, htwin.mono_of_none hopened _ _ _⟩

/-- Who has settled goes on to give its turn up, and the others are where they were. -/
theorem Served.step (h : r.Served v root d₀ user name xs d) :
    r'.Served v root d₀ user name xs d := by
  refine h.congr fun y job' verdict d _ hjob' hspot hsettled htracks => ?_
  by_cases hne : y = x
  · subst hne
    cases hmoves.here.symm.trans hjob'
    obtain ⟨hsettled', -⟩ := Job.step_of_settled hsettled v fault r.crowd.state
    refine ⟨(job.step v fault r.crowd.state).1, ?_, ?_, hsettled', ?_, ?_⟩
    · rw [hmoves.jobs, Function.update_self]
    · rw [Job.spot_step, hspot]
    · exact htracks.idle hmoves hbase hstanding
        (Job.not_atWork_of_settled hsettled).1 (Job.not_atWork_of_settled hsettled').2.2
    · rw [hmoves.solo_eq]
      exact (Job.step_of_settled (htracks.twin.settled?_eq.trans hsettled) v _ _).2
  · refine ⟨job', ?_, hspot, hsettled,
      htracks.other hmoves hbase hstanding hne hjob', ?_⟩
    · rw [hmoves.jobs, Function.update_of_ne hne, hjob']
    · rw [hmoves.solo_of_ne hne]

/-- Who has not had its turn and need not wait goes on towards it. -/
theorem Awaits.step (hexclusive : v.options.exclusive = true) (hfits : job.TurnFits v)
    (h : r.Awaits v root d₀ user name x job) (hwaiting : ∀ id, job.turn ≠ .waiting id) :
    r'.Awaits v root d₀ user name x (job.step v fault r.crowd.state).1 ∨
      r'.Refused x (job.step v fault r.crowd.state).1 := by
  obtain ⟨htidy, -⟩ := hstanding.of_job hmoves.here
  rcases Job.step_of_pending hbase hstanding.tidy.tree htidy hfits hexclusive h.pending hwaiting
    fault with ⟨hpending, hunderway⟩ | hrefuses
  · refine .inl ⟨hpending, fun p heq hstage => absurd hstage (hunderway p heq), fun d hcalm => ?_⟩
    obtain ⟨htracks, hharmless⟩ := h.tracks d hcalm
    refine ⟨htracks.idle hmoves hbase hstanding (Job.of_pending h.pending).1
      (Job.of_pending hpending).2.1, fun ρ d' halike => ?_⟩
    have halone := htracks.alone
    have hwork := (Job.of_pending (htracks.twin.pending h.pending)).1
    have halone' := halone.step hbase (job.met v fault r.crowd.state.disk)
    have hrecords := Job.recordsKept hbase halone.tree halone.fresh halone.tidy halone.stands
      (job.met v fault r.crowd.state.disk)
    rw [hmoves.solo_eq]
    refine (hharmless ρ d' halike).beside_right hrecords
      (halone'.tree.bound.trans halone.tree.bound.symm)
      (halone'.tree.umask.trans halone.tree.umask.symm) (fun spot heq => ?_)
      fun _ id' _ => Job.not_writes hwork root _ id'
    exact Job.not_touches ⟨user, name, heq⟩ (fun _ => hwork) v root _
  · obtain ⟨p, e, rfl, hstage, rfl, hjob'⟩ := hrefuses
    obtain ⟨hnone, hanew⟩ := h.begun p rfl hstage
    refine .inr ⟨_, e, hjob', ?_, ?_⟩
    · have hmet : Job.met v (some e) r.crowd.state.disk (.store p) = some e := by
        rw [Job.met]
        exact Upload.met_of_ne (by rw [hstage]; exact fun heq => nomatch heq)
      rw [hmoves.faults, Function.update_self, hnone, hmet]
      rfl
    · -- the store has read nothing yet, so all of the payload is still to come
      have hgone : p.upload.turn = .gone := by
        simpa only [Job.TurnFits, Upload.TurnFits, hstage] using hfits
      have hremaining : p.upload.remaining = p.order.length.toNat := by
        rw [← Job.store.inj hanew]
        unfold Upload.start
        split <;> rfl
      rw [hjob', hremaining]
      simp [Job.verdict?, Upload.result?, Upload.settle, hgone]

end

/-! ## 4. Steps of the line -/

section
variable (hbase : EmptyBase v d₀ root) (hmoves : Moves v fault x job r r')
include hbase hmoves

/-- A step that is not one of a job at work on the file. -/
theorem Line.beside (hstanding : r.crowd.Standing v root d₀)
    (h : r.Line v root d₀ user name) (hwork : job.spot = .file user name → ¬job.AtWork)
    (hentered : r'.entered (v.pathOf (.file user name)) = r.entered (v.pathOf (.file user name))) :
    r'.Line v root d₀ user name := by
  cases h with
  | idle d ρ hserved halike hreserved =>
    obtain ⟨halike', hreserved'⟩ := hmoves.beside hbase hstanding (fun _ _ hfalse => hfalse) hwork
      halike hreserved
    refine .idle d ρ ?_ halike' hreserved'
    rw [hentered]
    exact hserved.step hmoves hbase hstanding
  | busy xs y job' d ρ hxs hserved hjob' hspot hwork' htracks halike hreserved =>
    have hne : y ≠ x := by
      rintro rfl
      cases hmoves.here.symm.trans hjob'
      exact hwork hspot hwork'
    obtain ⟨halike', hreserved'⟩ := hmoves.beside hbase hstanding
      (fun i hx hy => hne (hy.trans hx.symm)) hwork halike hreserved
    refine .busy xs y job' d ρ (hentered.trans hxs) (hserved.step hmoves hbase hstanding) ?_
      hspot hwork' (htracks.other hmoves hbase hstanding hne hjob') ?_ hreserved'
    · rw [hmoves.jobs, Function.update_of_ne hne, hjob']
    · rw [hmoves.solo_of_ne hne]
      exact halike'

/-- What the one whose turn it is has reserved for itself stays so when it takes a step. -/
theorem Moves.reserved_own (hstanding : r.crowd.Standing v root d₀)
    (hstanding' : r'.crowd.Standing v root d₀) (hspot : job.spot = .file user name) {d₁ : Disk}
    (hgrows : Grows r.crowd.state.disk d₁ ρ ρ')
    (hlt : ∀ id id', ρ' id id' → id < r'.crowd.state.disk.nextFile)
    (hreserved : Reserved v root (· = .file user name) (fun i => x = .store i)
      (fun id => ∃ id', ρ id id') r.crowd.state.disk r.crowd.stores) :
    Reserved v root (· = .file user name) (fun i => x = .store i) (fun id => ∃ id', ρ' id id')
      r'.crowd.state.disk r'.crowd.stores := by
  obtain ⟨htidy, hstands⟩ := hstanding.of_job hmoves.here
  cases x with
  | store i =>
    obtain ⟨p, hp, rfl⟩ := Option.map_eq_some_iff.mp hmoves.here
    have hadvances := Storing.Tidy.advances hbase htidy hstanding.tidy.tree hstanding.fresh
      hstands fault
    have hdisk : r'.crowd.state.disk = (p.upload.step v fault r.crowd.state).2.disk := by
      rw [hmoves.state]
      rfl
    rw [Crowd.stores_of_update hmoves.jobs]
    rw [← hdisk] at hadvances
    refine hreserved.own_store rfl hp hstanding.tidy.tree hstanding'.tidy.tree hadvances hspot
      (fun id hid => ?_) hstanding.stores
    obtain ⟨id', hid⟩ := hid
    have hbelow := hlt id id' hid
    rcases hgrows.new id id' hid with hold | ⟨rfl, -⟩
    · exact .inl ⟨id', hold⟩
    · exact .inr ⟨rfl, hbelow⟩
  | removal i =>
    obtain ⟨p, hp, rfl⟩ := Option.map_eq_some_iff.mp hmoves.here
    have hrecords := Job.recordsKept hbase hstanding.tidy.tree hstanding.fresh htidy hstands fault
    rw [← hmoves.state] at hrecords
    rw [Crowd.stores_of_update_removal hmoves.jobs]
    refine (hreserved.beside hrecords (fun _ hP => ⟨_, _, hP.1⟩)
      (.inl fun spot hP => hP.1.trans hspot)).anti fun id hid => ?_
    -- a removal makes no file
    obtain ⟨id', hid⟩ := hid
    rcases hgrows.new id id' hid with hold | ⟨rfl, -⟩
    · exact ⟨id', hold⟩
    · have hbelow := hlt _ id' hid
      rw [hmoves.state] at hbelow
      exact absurd hbelow (Nat.not_lt_of_le (Nat.le_of_eq
        (Removing.Tidy.nextFile_eq hbase htidy hstanding.tidy.tree fault)))

omit hbase hmoves in
/-- Who has nothing open needs nothing reserved. -/
theorem reserved_of_closed (hjob : r.crowd.job? x = some job) (hopened : job.opened? = none)
    {dom : FileId → Prop}
    (h : Reserved v root (· = .file user name) (fun i => x = .store i) dom r.crowd.state.disk
      r.crowd.stores) :
    Reserved v root (· = .file user name) (fun _ => False) dom r.crowd.state.disk
      r.crowd.stores := by
  have hclosed (i : Nat) (p : Storing) (hx : x = .store i) (hp : r.crowd.stores i = some p) :
      p.upload.opened? = none := by
    rw [hx, Crowd.job?, hp] at hjob
    rw [← Option.some.inj hjob] at hopened
    exact hopened
  refine h.mono (fun i p path hx hp hp' => ?_) fun i p file _ hp hfile => ⟨fun hx => ?_, hp⟩
  · cases (hclosed i p hx hp).symm.trans hp'
  · cases (Upload.handle?_eq_none (hclosed i p hx hp)).symm.trans hfile

/-- A step of the one whose turn it is. -/
theorem Line.own (hstanding : r.crowd.Standing v root d₀)
    (hstanding' : r'.crowd.Standing v root d₀)
    (hentered : r'.entered (v.pathOf (.file user name)) = xs ++ [x])
    (hserved : r.Served v root d₀ user name xs d) (hspot : job.spot = .file user name)
    (htracks : r.Tracks v root d₀ ρ x job d)
    (halike : Alike root (· = .file user name) ρ r.crowd.state.disk (r.solo v x job d).2.disk)
    (hreserved : Reserved v root (· = .file user name) (fun i => x = .store i)
      (fun id => ∃ id', ρ id id') r.crowd.state.disk r.crowd.stores)
    (hpending : ¬(job.step v fault r.crowd.state).1.Pending) : r'.Line v root d₀ user name := by
  obtain ⟨ρ', hgrows, halike', htracks'⟩ := htracks.own hmoves hbase hstanding halike
    (fun _ => hspot) fun n heq => nomatch heq
  have hserved' := hserved.step hmoves hbase hstanding
  have hjob' : r'.crowd.job? x = some (job.step v fault r.crowd.state).1 := by
    rw [hmoves.jobs, Function.update_self]
  have hspot' : (job.step v fault r.crowd.state).1.spot = .file user name := by
    rw [Job.spot_step, hspot]
  have hreserved' := hmoves.reserved_own hbase hstanding hstanding' hspot hgrows
    (fun id id' hid => (halike'.lt id id' hid).1) hreserved
  rcases Job.phases (job.step v fault r.crowd.state).1 with hphase | hphase | ⟨verdict, hphase⟩
  · exact absurd hphase hpending
  · exact .busy xs x _ d ρ' hentered hserved' hjob' hspot' hphase htracks' halike' hreserved'
  · -- the file is as the party has left it, and nobody has it open any more
    obtain ⟨-, -, hopened⟩ := Job.not_atWork_of_settled hphase
    have htracks'' : r'.Tracks v root d₀ noFiles x (job.step v fault r.crowd.state).1 d :=
      ⟨htracks'.alone, htracks'.twin.mono_of_none hopened _ _ _⟩
    refine .idle _ ρ' ?_ halike' (reserved_of_closed hjob' hopened hreserved')
    rw [hentered]
    exact .next xs x _ verdict d hserved' hjob' hspot' hphase htracks''

end

/-- Who has just come has everything before it, and so has its job done alone. -/
theorem awaits_anew (hname : accepts name) (hexclusive : v.options.exclusive = true)
    (hnone : r.faults x = []) (hanew : job.anew v = job) (hspot : job.spot = .file user name) :
    r.Awaits v root d₀ user name x job := by
  have hsolo (d : Disk) : r.solo v x job d = (job, { disk := d }) := by
    rw [solo, hnone, hanew]
    rfl
  have hpending := Job.pending_anew hexclusive hname hspot
  rw [hanew] at hpending
  refine ⟨hpending, fun _ _ _ => ⟨hnone, hanew⟩, fun d hcalm => ⟨⟨?_, ?_⟩, ?_⟩⟩
  · have halone := Job.alone_anew hcalm job
    rw [hanew] at halone
    rw [hsolo]
    exact halone
  · have htwin := Job.twin_anew v root noFiles r.crowd.state.disk d job
    rw [hanew] at htwin
    rw [hsolo]
    exact htwin
  · rw [hsolo]
    exact fun _ _ halike => halike

section
variable (hstate : r'.crowd.state = r.crowd.state)
  (hold : ∀ y job', r.crowd.job? y = some job' → r'.crowd.job? y = some job')
  (hfaults : r'.faults = r.faults)
include hstate hfaults

theorem Tracks.same (h : r.Tracks v root d₀ ρ x job d) : r'.Tracks v root d₀ ρ x job d := by
  obtain ⟨halone, htwin⟩ := h
  refine ⟨?_, ?_⟩
  · rw [solo, hfaults]
    exact halone
  · rw [solo, hfaults, hstate]
    exact htwin

include hold

theorem Served.same (h : r.Served v root d₀ user name xs d) :
    r'.Served v root d₀ user name xs d :=
  h.congr fun x job verdict d _ hjob hspot hsettled htracks =>
    ⟨job, hold x job hjob, hspot, hsettled, htracks.same hstate hfaults,
      by rw [solo, solo, hfaults]⟩

omit hfaults in
/-- Those who come have no file open. -/
theorem reserved_same (hnew : ∀ y job', r'.crowd.job? y = some job' →
      r.crowd.job? y = some job' ∨ r.crowd.job? y = none ∧ job'.anew v = job')
    {watched : Nat → Prop} {dom : FileId → Prop}
    (h : Reserved v root (· = .file user name) watched dom r.crowd.state.disk r.crowd.stores) :
    Reserved v root (· = .file user name) watched dom r'.crowd.state.disk r'.crowd.stores := by
  rw [hstate]
  refine h.mono (fun i p _ hi hp _ => ⟨hi, ?_⟩) fun i p file hi hp hfile => ⟨hi, ?_⟩
  · have hjob := hold (.store i) (.store p) (by rw [Crowd.job?, hp]; rfl)
    obtain ⟨q, hq, heq⟩ := Option.map_eq_some_iff.mp hjob
    rw [hq, Job.store.inj heq]
  · rcases hnew (.store i) (.store p) (by rw [Crowd.job?, hp]; rfl) with hjob | ⟨-, hanew⟩
    · obtain ⟨q, hq, heq⟩ := Option.map_eq_some_iff.mp hjob
      rw [hq, Job.store.inj heq]
    · rw [← Job.store.inj hanew, Upload.handle?_start] at hfile
      cases hfile

/-- Nobody has moved, and those who have come have everything before them. -/
theorem InLine.same (hname : accepts name) (hexclusive : v.options.exclusive = true)
    (h : r.InLine v root d₀ user name)
    (hnew : ∀ y job', r'.crowd.job? y = some job' →
      r.crowd.job? y = some job' ∨ r.crowd.job? y = none ∧ job'.anew v = job')
    (hentered : r'.entered = r.entered) (hstanding : r'.crowd.Standing v root d₀)
    (hfair : r'.crowd.Fair v) : r'.InLine v root d₀ user name := by
  refine ⟨hstanding, hfair, fun x hx => ?_, fun x job hjob hspot => ?_, fun x hx => ?_, ?_, ?_⟩
  · rw [hfaults]
    refine h.absent x (Option.eq_none_iff_forall_not_mem.mpr fun job hjob => ?_)
    cases hx.symm.trans (hold x job hjob)
  · rw [hentered]
    rcases hnew x job hjob with hjob | ⟨hfree, hanew⟩
    · refine (h.parties x job hjob hspot).imp_right fun hparty => ?_
      rcases hparty with ⟨hpending, hbegun, htracks⟩ | ⟨p, e, heq, hfault, hverdict⟩
      · refine .inl ⟨hpending, ?_, fun d hcalm => ⟨(htracks d hcalm).1.same hstate hfaults, ?_⟩⟩
        · rw [hfaults]
          exact hbegun
        · rw [solo, hfaults]
          exact (htracks d hcalm).2
      · refine .inr ⟨p, e, heq, ?_, hverdict⟩
        rw [hfaults]
        exact hfault
    · exact .inr (.inl (awaits_anew hname hexclusive (hfaults ▸ h.absent x hfree) hanew hspot))
  · rw [hentered] at hx
    obtain ⟨job, hjob, hrest⟩ := h.entered x hx
    exact ⟨job, hold x job hjob, hrest⟩
  · rw [hentered]
    exact h.nodup
  · cases h.line with
    | idle d ρ hserved halike hreserved =>
      refine .idle d ρ ?_ (hstate ▸ halike) (reserved_same hstate hold hnew hreserved)
      rw [hentered]
      exact hserved.same hstate hold hfaults
    | busy xs x job d ρ hxs hserved hjob hspot hwork htracks halike hreserved =>
      refine .busy xs x job d ρ (by rw [hentered, hxs]) (hserved.same hstate hold hfaults)
        (hold x job hjob) hspot hwork (htracks.same hstate hfaults) ?_
        (reserved_same hstate hold hnew hreserved)
      rw [hstate, solo, hfaults]
      exact halike

end

/-- In a vault that has just been prepared nobody is in line. -/
theorem inLine_start (hbase : EmptyBase v d₀ root) (user : UInt32) (name : Bytes) :
    (start v d₀).InLine v root d₀ user name := by
  refine ⟨Crowd.standing_start hbase, Crowd.fair_start v d₀, fun _ _ => rfl,
    fun x job hjob => ?_, fun _ hx => (nomatch hx), .nil, ?_⟩
  · cases (job?_start v d₀ x).symm.trans hjob
  · refine .idle _ noFiles .nobody ⟨rfl, rfl, fun _ _ h => h.elim, fun _ _ h => h.elim,
      fun _ _ _ _ h => h.elim, fun spot heq => ?_⟩
      ⟨fun _ ⟨_, h⟩ => h.elim, fun _ _ ⟨_, h⟩ => h.elim, fun _ _ _ _ _ h => (nomatch h)⟩
    have hvacant : (v.prepare d₀).2.node? (spot.under root) = none :=
      Crowd.node?_prepare hbase (by rw [heq]; exact fun h => nomatch h)
    show Corresponding noFiles ((v.prepare d₀).2.node? (spot.under root))
      ((v.prepare d₀).2.node? (spot.under root))
    rw [hvacant]
    exact .vacant

section
variable (hmoves : Moves v fault x job r r')
include hmoves

theorem Moves.entered_of_waiting {id : LockId} (hwaiting : job.turn = .waiting id) :
    r'.entered = Function.update r.entered job.target (r.entered job.target ++ [x]) := by
  rw [hmoves.entered, hwaiting]

theorem Moves.entered_of_not_waiting (hwaiting : ∀ id, job.turn ≠ .waiting id) :
    r'.entered = r.entered := by
  rw [hmoves.entered]
  split
  next id heq => exact absurd heq (hwaiting id)
  next => rfl

variable (hbase : EmptyBase v d₀ root) (hstanding : r.crowd.Standing v root d₀)
include hbase hstanding

theorem Awaits.other (hne : y ≠ x) (hjob' : r.crowd.job? y = some job')
    (h : r.Awaits v root d₀ user name y job') : r'.Awaits v root d₀ user name y job' := by
  refine ⟨h.pending, ?_, fun d hcalm =>
    ⟨(h.tracks d hcalm).1.other hmoves hbase hstanding hne hjob', ?_⟩⟩
  · rw [hmoves.faults, Function.update_of_ne hne]
    exact h.begun
  · rw [hmoves.solo_of_ne hne]
    exact (h.tracks d hcalm).2

end

/-- A party at work is the last that has entered, and all before it have settled. -/
theorem InLine.of_atWork (h : r.InLine v root d₀ user name) (hjob : r.crowd.job? x = some job)
    (hspot : job.spot = .file user name) (hwork : job.AtWork) :
    ∃ xs d ρ, r.entered (v.pathOf (.file user name)) = xs ++ [x] ∧
      r.Served v root d₀ user name xs d ∧ r.Tracks v root d₀ ρ x job d ∧
      Alike root (· = .file user name) ρ r.crowd.state.disk (r.solo v x job d).2.disk ∧
      Reserved v root (· = .file user name) (fun i => x = .store i) (fun id => ∃ id', ρ id id')
        r.crowd.state.disk r.crowd.stores := by
  have hserves {xs : List Visitor} {d : Disk} (hserved : r.Served v root d₀ user name xs d) :
      x ∉ xs := by
    intro hx
    obtain ⟨job', verdict, hjob', -, hsettled⟩ := hserved.settled hx
    cases hjob.symm.trans hjob'
    exact (Job.not_atWork_of_settled hsettled).1 hwork
  have hx : x ∈ r.entered (v.pathOf (.file user name)) := by
    rcases h.parties x job hjob hspot with hx | hawaits | ⟨p, e, -, -, hverdict⟩
    · exact hx
    · exact absurd hwork (Job.of_pending hawaits.pending).1
    · exact absurd hwork (Job.not_atWork_of_settled (Job.settled?_of_verdict? hverdict)).1
  cases h.line with
  | idle d ρ hserved => exact absurd hx (hserves hserved)
  | busy xs y job' d ρ hxs hserved hjob' hspot' hwork' htracks halike hreserved =>
    rw [hxs] at hx
    rcases List.mem_append.mp hx with hx | hx
    · exact absurd hx (hserves hserved)
    · cases List.mem_singleton.mp hx
      cases hjob.symm.trans hjob'
      exact ⟨xs, d, ρ, hxs, hserved, htracks, halike, hreserved⟩

section
variable (hbase : EmptyBase v d₀ root) (h : r.InLine v root d₀ user name)
  (hmoves : Moves v fault x job r r')
include hbase h hmoves

/-- At its first step at the file a party does not find anybody at work there. -/
theorem InLine.line_of_waiting (hexclusive : v.options.exclusive = true)
    (hstanding : r'.crowd.Standing v root d₀) (hspot : job.spot = .file user name) {id : LockId}
    (hwaiting : job.turn = .waiting id) (hawaits : r.Awaits v root d₀ user name x job)
    (hentered : r'.entered (v.pathOf (.file user name)) =
      r.entered (v.pathOf (.file user name)) ++ [x]) : r'.Line v root d₀ user name := by
  obtain ⟨htidy, -⟩ := h.standing.of_job hmoves.here
  obtain ⟨hfits, hx⟩ := h.fair.of_job hmoves.here
  have htarget := Job.target_eq htidy (Job.of_pending hawaits.pending).2.2
  have hpending' : ¬(job.step v fault r.crowd.state).1.Pending := fun hpending =>
    (Job.of_pending hpending).1 (Job.of_waiting hfits hwaiting fault r.crowd.state).2
  cases h.line with
  | idle d ρ hserved halike hreserved =>
    obtain ⟨htracks, hharmless⟩ := hawaits.tracks d (hserved.calm hbase)
    have htracks' : r.Tracks v root d₀ ρ x job d :=
      ⟨htracks.alone, htracks.twin.mono_of_none (Job.of_pending hawaits.pending).2.1 _ _ _⟩
    refine Line.own hbase hmoves h.standing hstanding hentered hserved hspot htracks'
      (hharmless ρ _ halike) ?_ hpending'
    -- the party has no file open yet
    refine hreserved.mono (fun i p path hfalse => hfalse.elim) fun i p file _ hp hfile =>
      ⟨fun hfalse => hfalse, hp⟩
  | busy xs y job' d ρ hxs hserved hjob' hspot' hwork' htracks halike hreserved =>
    exfalso
    -- the lock would not be free
    obtain ⟨hfits', hy⟩ := h.fair.of_job hjob'
    obtain ⟨id', hinside⟩ := Job.inside_of_atWork hfits' hexclusive hwork'
    have htarget' := Job.target_eq (h.standing.of_job hjob').1 (Job.settled?_of_atWork hwork')
    rw [hwaiting, htarget, hspot] at hx
    rw [hinside, htarget', hspot'] at hy
    exact (h.fair.ready_iff hx).mp (Job.isFree_of_ready hfits hwaiting hmoves.ready) ⟨y, id', hy⟩

/-- A party at work is the one whose turn it is. -/
theorem InLine.line_of_atWork (hexclusive : v.options.exclusive = true)
    (hstanding : r'.crowd.Standing v root d₀) (hspot : job.spot = .file user name)
    (hwork : job.AtWork) (hentered : r'.entered = r.entered) : r'.Line v root d₀ user name := by
  obtain ⟨hfits, -⟩ := h.fair.of_job hmoves.here
  obtain ⟨xs, d, ρ, hxs, hserved, htracks, halike, hreserved⟩ :=
    h.of_atWork hmoves.here hspot hwork
  rw [← hentered] at hxs
  exact Line.own hbase hmoves h.standing hstanding hxs hserved hspot htracks halike hreserved
    (Job.not_pending_step hfits hexclusive hwork fault r.crowd.state)

/-- What is to be shown of the party that moves. -/
theorem InLine.of_line (hstanding : r'.crowd.Standing v root d₀) (hfair : r'.crowd.Fair v)
    (hline : r'.Line v root d₀ user name)
    (hself : job.spot = .file user name → x ∈ r'.entered (v.pathOf (.file user name)) ∨
      r'.Awaits v root d₀ user name x (job.step v fault r.crowd.state).1 ∨
      r'.Refused x (job.step v fault r.crowd.state).1)
    (hinside : x ∈ r'.entered (v.pathOf (.file user name)) →
      job.spot = .file user name ∧ ¬(job.step v fault r.crowd.state).1.Pending)
    (hentered : r'.entered (v.pathOf (.file user name)) = r.entered (v.pathOf (.file user name)) ∨
      r'.entered (v.pathOf (.file user name)) = r.entered (v.pathOf (.file user name)) ++ [x] ∧
        x ∉ r.entered (v.pathOf (.file user name))) :
    r'.InLine v root d₀ user name := by
  have hjobs := hmoves.jobs
  have hmem (y : Visitor) (hne : y ≠ x) : y ∈ r'.entered (v.pathOf (.file user name)) ↔
      y ∈ r.entered (v.pathOf (.file user name)) := by
    rcases hentered with heq | ⟨heq, -⟩ <;> rw [heq]
    simp [hne]
  refine ⟨hstanding, hfair, fun y hy => ?_, fun y job' hjob' hspot => ?_, fun y hy => ?_, ?_, hline⟩
  · have hne : y ≠ x := by
      rintro rfl
      rw [hjobs, Function.update_self] at hy
      cases hy
    rw [hjobs, Function.update_of_ne hne] at hy
    rw [hmoves.faults, Function.update_of_ne hne]
    exact h.absent y hy
  · by_cases hne : y = x
    · subst hne
      rw [hjobs, Function.update_self] at hjob'
      cases hjob'
      exact hself (by rw [← hspot, Job.spot_step])
    · rw [hjobs, Function.update_of_ne hne] at hjob'
      rw [hmem y hne]
      refine (h.parties y job' hjob' hspot).imp_right fun hparty => ?_
      rcases hparty with hawaits | ⟨p, e, heq, hfault, hverdict⟩
      · exact .inl (hawaits.other hmoves hbase h.standing hne hjob')
      · refine .inr ⟨p, e, heq, ?_, hverdict⟩
        rw [hmoves.faults, Function.update_of_ne hne]
        exact hfault
  · by_cases hne : y = x
    · subst hne
      obtain ⟨hspot, hpending⟩ := hinside hy
      exact ⟨_, by rw [hjobs, Function.update_self], by rw [Job.spot_step, hspot], hpending⟩
    · obtain ⟨job', hjob', hrest⟩ := h.entered y ((hmem y hne).mp hy)
      exact ⟨job', by rw [hjobs, Function.update_of_ne hne, hjob'], hrest⟩
  · rcases hentered with heq | ⟨heq, hnot⟩ <;> rw [heq]
    · exact h.nodup
    · exact List.nodup_append.mpr ⟨h.nodup, List.nodup_singleton x, fun y hy z hz => by
        rw [List.mem_singleton.mp hz]
        exact fun heq => hnot (heq ▸ hy)⟩

omit hbase in
/-- Who is on record as having entered has come for this file and does not wait. -/
theorem InLine.of_mem (hx : x ∈ r.entered (v.pathOf (.file user name))) :
    job.spot = .file user name ∧ ¬job.Pending := by
  obtain ⟨job', hjob', hspot, hpending⟩ := h.entered x hx
  cases hmoves.here.symm.trans hjob'
  exact ⟨hspot, hpending⟩

variable (hstanding : r'.crowd.Standing v root d₀) (hfair : r'.crowd.Fair v)
include hstanding hfair

-- A party that has not had its turn takes the lock, or comes nearer to it, or is refused.
theorem InLine.moves_pending (hexclusive : v.options.exclusive = true)
    (hspot : job.spot = .file user name) (hpending : job.Pending) :
    r'.InLine v root d₀ user name := by
  obtain ⟨htidy, -⟩ := h.standing.of_job hmoves.here
  obtain ⟨hfits, -⟩ := h.fair.of_job hmoves.here
  have hnot : x ∉ r.entered (v.pathOf (.file user name)) := fun hx =>
    (h.of_mem hmoves hx).2 hpending
  have hawaits : r.Awaits v root d₀ user name x job := by
    rcases h.parties x job hmoves.here hspot with hx | hawaits | ⟨p, e, -, -, hverdict⟩
    · exact absurd hx hnot
    · exact hawaits
    · exact absurd hpending (Job.not_atWork_of_settled (Job.settled?_of_verdict? hverdict)).2.1
  by_cases hwaiting : ∃ id, job.turn = .waiting id
  · obtain ⟨id, hwaiting⟩ := hwaiting
    have hentered := congrFun (hmoves.entered_of_waiting hwaiting) (v.pathOf (.file user name))
    rw [Job.target_eq htidy (Job.of_pending hpending).2.2, hspot, Function.update_self]
      at hentered
    have hinside : x ∈ r'.entered (v.pathOf (.file user name)) := by
      rw [hentered]
      exact List.mem_append_right _ (List.mem_singleton_self x)
    have hwork := (Job.of_waiting hfits hwaiting fault r.crowd.state).2
    exact h.of_line hbase hmoves hstanding hfair
      (h.line_of_waiting hbase hmoves hexclusive hstanding hspot hwaiting hawaits hentered)
      (fun _ => .inl hinside)
      (fun _ => ⟨hspot, fun hpending' => (Job.of_pending hpending').1 hwork⟩)
      (.inr ⟨hentered, hnot⟩)
  · have hwaiting' (id : LockId) (heq : job.turn = .waiting id) : False := hwaiting ⟨id, heq⟩
    have hentered := congrFun (hmoves.entered_of_not_waiting hwaiting')
      (v.pathOf (.file user name))
    refine h.of_line hbase hmoves hstanding hfair
      (h.line.beside hbase hmoves h.standing (fun _ => (Job.of_pending hpending).1) hentered)
      (fun _ => .inr ?_) (fun hx => absurd (hentered ▸ hx) hnot) (.inl hentered)
    exact hawaits.step hmoves hbase h.standing hexclusive hfits hwaiting'

theorem InLine.moves_atWork (hexclusive : v.options.exclusive = true)
    (hspot : job.spot = .file user name) (hwork : job.AtWork) :
    r'.InLine v root d₀ user name := by
  obtain ⟨hfits, -⟩ := h.fair.of_job hmoves.here
  have hentered := hmoves.entered_of_not_waiting fun id heq =>
    (Job.of_pending (Job.of_waiting hfits heq fault r.crowd.state).1).1 hwork
  have hx : x ∈ r.entered (v.pathOf (.file user name)) := by
    obtain ⟨xs, d, ρ, hxs, -⟩ := h.of_atWork hmoves.here hspot hwork
    rw [hxs]
    exact List.mem_append_right _ (List.mem_singleton_self x)
  exact h.of_line hbase hmoves hstanding hfair
    (h.line_of_atWork hbase hmoves hexclusive hstanding hspot hwork hentered)
    (fun _ => .inl (hentered ▸ hx))
    (fun _ => ⟨hspot, Job.not_pending_step hfits hexclusive hwork fault r.crowd.state⟩)
    (.inl (congrFun hentered _))

theorem InLine.moves_settled (hspot : job.spot = .file user name) {verdict : Verdict}
    (hsettled : job.settled? = some verdict) : r'.InLine v root d₀ user name := by
  obtain ⟨hfits, -⟩ := h.fair.of_job hmoves.here
  have hphases := Job.not_atWork_of_settled hsettled
  have hsettled' := (Job.step_of_settled hsettled v fault r.crowd.state).1
  have hentered := hmoves.entered_of_not_waiting fun id heq =>
    hphases.2.1 (Job.of_waiting hfits heq fault r.crowd.state).1
  refine h.of_line hbase hmoves hstanding hfair
    (h.line.beside hbase hmoves h.standing (fun _ => hphases.1) (congrFun hentered _))
    (fun _ => ?_) (fun _ => ⟨hspot, (Job.not_atWork_of_settled hsettled').2.1⟩)
    (.inl (congrFun hentered _))
  rw [hentered]
  rcases h.parties x job hmoves.here hspot with hx | hawaits | ⟨p, e, heq, hfault, hverdict⟩
  · exact .inl hx
  · exact absurd hawaits.pending hphases.2.1
  · -- what has been refused stays so
    refine .inr (.inr ⟨p, e, ?_, ?_, ?_⟩)
    · rw [Job.step_of_verdict? hverdict, heq]
    · rw [hmoves.faults, Function.update_self, List.head?_append, hfault]
      rfl
    · rw [Job.step_of_verdict? hverdict]
      exact hverdict

theorem InLine.moves_elsewhere (hspot : job.spot ≠ .file user name) :
    r'.InLine v root d₀ user name := by
  obtain ⟨htidy, -⟩ := h.standing.of_job hmoves.here
  obtain ⟨hfits, -⟩ := h.fair.of_job hmoves.here
  have hnot : x ∉ r.entered (v.pathOf (.file user name)) := fun hx =>
    hspot (h.of_mem hmoves hx).1
  have hentered : r'.entered (v.pathOf (.file user name)) =
      r.entered (v.pathOf (.file user name)) := by
    by_cases hwaiting : ∃ id, job.turn = .waiting id
    · obtain ⟨id, hwaiting⟩ := hwaiting
      have hpending := (Job.of_waiting hfits hwaiting fault r.crowd.state).1
      have htarget := Job.target_eq htidy (Job.of_pending hpending).2.2
      rw [hmoves.entered_of_waiting hwaiting, Function.update_of_ne]
      intro heq
      exact hspot (pathOf_injective (heq.trans htarget)).symm
    · rw [hmoves.entered_of_not_waiting fun id heq => hwaiting ⟨id, heq⟩]
  exact h.of_line hbase hmoves hstanding hfair
    (h.line.beside hbase hmoves h.standing (fun heq => absurd heq hspot) hentered)
    (fun heq => absurd heq hspot) (fun hx => absurd (hentered ▸ hx) hnot) (.inl hentered)

theorem InLine.moves (hexclusive : v.options.exclusive = true) :
    r'.InLine v root d₀ user name := by
  by_cases hspot : job.spot = .file user name
  · rcases job.phases with hpending | hwork | ⟨verdict, hsettled⟩
    · exact h.moves_pending hbase hmoves hstanding hfair hexclusive hspot hpending
    · exact h.moves_atWork hbase hmoves hstanding hfair hexclusive hspot hwork
    · exact h.moves_settled hbase hmoves hstanding hfair hspot hsettled
  · exact h.moves_elsewhere hbase hmoves hstanding hfair hspot

end

/-- Every step of every party leaves everybody in line. -/
theorem InLine.step (hbase : EmptyBase v d₀ root) (hname : accepts name)
    (hexclusive : v.options.exclusive = true) (h : r.InLine v root d₀ user name)
    (action : Action) : (r.step v action).InLine v root d₀ user name := by
  have hstanding : (r.step v action).crowd.Standing v root d₀ := by
    rw [crowd_step]
    exact h.standing.step hbase action
  have hfair : (r.step v action).crowd.Fair v := by
    rw [crowd_step]
    exact h.fair.step action
  cases goes v r action with
  | stays hstate hjobs hfaults hentered =>
    refine InLine.same hstate (fun y job' hjob' => ?_) hfaults hname hexclusive h
      (fun y job' hjob' => .inl ?_) hentered hstanding hfair
    · rw [hjobs, hjob']
    · rw [← hjobs, hjob']
  | comes x job hcomer hfree hanew hstate hjobs hfaults hentered =>
    have hne {y : Visitor} {job' : Job} (hjob' : r.crowd.job? y = some job') : y ≠ x := by
      rintro rfl
      cases hfree.symm.trans hjob'
    refine InLine.same hstate (fun y job' hjob' => ?_) hfaults hname hexclusive h
      (fun y job' hjob' => ?_) hentered hstanding hfair
    · rw [hjobs, Function.update_of_ne (hne hjob'), hjob']
    · rw [hjobs] at hjob'
      by_cases heq : y = x
      · subst heq
        rw [Function.update_self] at hjob'
        cases hjob'
        exact .inr ⟨hfree, hanew⟩
      · rw [Function.update_of_ne heq] at hjob'
        exact .inl hjob'
  | moves x job fault hmoves => exact h.moves hbase hmoves hstanding hfair hexclusive

theorem inLine_run (hbase : EmptyBase v d₀ root) (user : UInt32) (hname : accepts name)
    (hexclusive : v.options.exclusive = true) (actions : List Action) :
    ((start v d₀).run v actions).InLine v root d₀ user name :=
  run_induction actions (fun _ action h => h.step hbase hname hexclusive action)
    (inLine_start hbase user name)

end Record

end UserVault.Vault
