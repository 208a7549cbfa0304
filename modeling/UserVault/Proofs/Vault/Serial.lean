import UserVault.Proofs.Vault.Effects
import UserVault.Proofs.Vault.Isolation
import UserVault.Proofs.Vault.Lines

/-!
# Taking turns is as good as being alone

Where writers take turns, every run comes out at every file as if the stores and removals of that
file had been done one after the other, each from its beginning to its end, in the order in which
they took the lock.
-/

namespace UserVault.Vault

open Disk Link

variable {v : Vault} {root : Place} {d₀ d d' : Disk} {user : UInt32} {name : Bytes} {r : Record}
  {x y : Visitor} {job : Job} {p : Storing} {xs : List Visitor} {ρ : FileId → FileId → Prop}

/-! ## 1. What the parties have met -/

/-- The failure of the system that an action brings to a step of a party. -/
def Action.faultFor? (x : Visitor) (action : Action) : Option (Option Errno) :=
  action.mover?.bind fun (y, fault) => if y = x then some fault else none

namespace Record

/-- What a party meets at a step is what the action brings, as long as numbers do not run out. -/
theorem faults_step (hfits : ¬TooLong v (Upload.freeNumber v r.crowd.state.disk)) (action : Action)
    (x : Visitor) : (r.step v action).faults x = r.faults x ∨
      ∃ fault, action.faultFor? x = some fault ∧
        (r.step v action).faults x = r.faults x ++ [fault] := by
  have hmet (job : Job) (fault : Option Errno) : job.met v fault r.crowd.state.disk = fault := by
    cases job with
    | removal p => rfl
    | store p =>
      simp only [Job.met, Upload.met]
      split
      · rw [if_neg fun hlong => hfits hlong.2]
      · rfl
  unfold step
  split
  · exact .inl rfl
  next y fault hmover =>
    split
    · exact .inl rfl
    next job hjob =>
      split
      · by_cases heq : x = y
        · subst heq
          refine .inr ⟨fault, ?_, ?_⟩
          · simp only [Action.faultFor?, hmover, Option.bind_some, if_true]
          · simp only [Function.update_self, hmet]
        · exact .inl (Function.update_of_ne heq _ _)
      · exact .inl rfl

/-- In a run of fewer than `10 ^ 248` actions the parties meet nothing but what the actions
bring. -/
theorem faults_run (hbase : EmptyBase v d₀ root) {k : Nat} (h : r.crowd.Standing v root d₀)
    (hbegun : r.crowd.Begun k) (actions : List Action) (hfew : k + actions.length ≤ 10 ^ 248)
    (x : Visitor) : ∃ met, (r.run v actions).faults x = r.faults x ++ met ∧
      met.Sublist (actions.filterMap (Action.faultFor? x)) := by
  induction actions generalizing r k with
  | nil => exact ⟨[], (List.append_nil _).symm, List.Sublist.refl _⟩
  | cons action actions ih =>
    rw [List.length_cons] at hfew
    have hfits : ¬TooLong v (Upload.freeNumber v r.crowd.state.disk) :=
      not_tooLong_of_lt hbase (Nat.lt_of_le_of_lt (h.freeNumber_le hbase hbegun) (by omega))
    have hstanding := h.step hbase action
    have hbegun' := hbegun.step action (v := v)
    rw [← crowd_step] at hstanding hbegun'
    obtain ⟨met, hfaults, hsub⟩ := ih hstanding hbegun' (by omega)
    replace hfaults : (r.run v (action :: actions)).faults x = (r.step v action).faults x ++ met :=
      hfaults
    rcases faults_step hfits action x with hsame | ⟨fault, hfault, hmore⟩
    · refine ⟨met, by rw [hfaults, hsame], hsub.trans ?_⟩
      rw [List.filterMap_cons]
      split
      · exact List.Sublist.refl _
      · exact List.sublist_cons_self _ _
    · refine ⟨fault :: met, by rw [hfaults, hmore, List.append_assoc]; rfl, ?_⟩
      rw [List.filterMap_cons, hfault]
      exact hsub.cons_cons fault

/-! ## 2. One after the other -/

/-- What those who have had their turns have come to is what they come to one after the other. -/
theorem Served.serially (h : r.Served v root d₀ user name xs d)
    (hover : ∀ x job, r.crowd.job? x = some job → job.spot = .file user name →
      job.verdict? ≠ none) :
    ∃ verdicts, serially v (xs.filterMap fun x => (r.crowd.job? x).map (·, r.faults x))
        (v.prepare d₀).2 = (verdicts, d) ∧
      xs.map (fun x => (r.crowd.job? x).bind Job.verdict?) = verdicts.map some := by
  induction h with
  | nobody => exact ⟨[], rfl, rfl⟩
  | next xs x job _ d hserved hjob hspot _ htracks ih =>
    obtain ⟨verdicts, hserial, hverdicts⟩ := ih
    obtain ⟨verdict, hverdict⟩ := Option.ne_none_iff_exists'.mp (hover x job hjob hspot)
    have hperform := Job.perform_of_walk v (r.faults x) job d
      (htracks.twin.verdict?_eq.trans hverdict)
    refine ⟨verdicts ++ [verdict], ?_, ?_⟩
    · simp only [List.filterMap_append, List.filterMap_cons, List.filterMap_nil, hjob,
        Option.map_some, serially_concat, hserial, hperform]
      rfl
    · simp only [List.map_append, List.map_cons, List.map_nil, hverdicts, hjob, Option.bind_some,
        hverdict]

/-- When everybody has ended, nobody is at work. -/
theorem InLine.idle (h : r.InLine v root d₀ user name)
    (hover : ∀ x job, r.crowd.job? x = some job → job.spot = .file user name →
      job.verdict? ≠ none) :
    ∃ d ρ, r.Served v root d₀ user name (r.entered (v.pathOf (.file user name))) d ∧
      Alike root (· = .file user name) ρ r.crowd.state.disk d := by
  cases h.line with
  | idle d ρ hserved halike => exact ⟨d, ρ, hserved, halike⟩
  | busy xs x job d ρ hxs hserved hjob hspot hwork =>
    obtain ⟨verdict, hverdict⟩ := Option.ne_none_iff_exists'.mp (hover x job hjob hspot)
    exact absurd hwork (Job.not_atWork_of_settled (Job.settled?_of_verdict? hverdict)).1

/-- Who has been refused would be refused at any time, and leave everything as it is. -/
theorem Refused.perform (v : Vault) (h : r.Refused x job) (hname : accepts name)
    (hspot : job.spot = .file user name) :
    ∃ verdict, job.verdict? = some verdict ∧ ∀ d, job.perform v (r.faults x) d = (verdict, d) := by
  obtain ⟨p, e, rfl, hfault, hverdict⟩ := h
  obtain ⟨faults, hfaults⟩ := List.head?_eq_some_iff.mp hfault
  refine ⟨_, hverdict, fun d => ?_⟩
  cases hspot
  obtain ⟨job', hstep, hrefused⟩ : ∃ job',
      ((Job.store p).anew v).step v (some e) { disk := d } = (job', { disk := d }) ∧
        job'.verdict? =
          some (.stored (.error (Upload.failure e p.order.length.toNat))) := by
    refine ⟨_, Prod.ext rfl ?_, ?_⟩ <;>
      simp [Job.anew, Job.step, Upload.start, resolve_of_accepts v _ hname, Upload.step,
        Job.verdict?, Upload.settle, Upload.result?]
  have hend : ((Job.store p).anew v).walk v (r.faults x) { disk := d } =
      (job', { disk := d }) := by
    rw [hfaults, Job.walk, List.foldl_cons, hstep]
    exact Job.walk_of_verdict? v faults _ hrefused
  rw [Job.perform_of_walk v (r.faults x) (.store p) d (by rw [hend]; exact hrefused), hend]

/-! ## 3. What is in a file -/

/-- What a file holds after a job done alone was there before, or the job has put it there. -/
theorem Tracks.fileAt_cases (hbase : EmptyBase v d₀ root) (hname : accepts name)
    (hcalm : Calm v root d₀ d) (hspot : job.spot = .file user name)
    (h : r.Tracks v root d₀ ρ x job d) {bytes : Bytes}
    (hfile : fileAt (r.solo v x job d).2.disk (Spot.under (.file user name) root) = some bytes) :
    fileAt d (Spot.under (.file user name) root) = some bytes ∨
      ∃ p, job = .store p ∧ p.HasPut bytes := by
  have hdoing := (Job.doing_walk hbase hcalm hname hspot (r.faults x)).2
  have htwin := h.twin
  unfold solo at htwin hfile
  generalize ((job.anew v).walk v (r.faults x) { disk := d }).1 = job' at hdoing htwin
  generalize ((job.anew v).walk v (r.faults x) { disk := d }).2.disk = d' at hdoing htwin hfile
  rw [← hspot] at hfile ⊢
  -- the job among the others has the order and the stage of the one done alone
  cases htwin with
  | removal p p' htwin =>
    obtain ⟨huser, hname', -⟩ := htwin
    cases hdoing with
    | removal _ hfile' =>
      rw [Job.spot, ← huser, ← hname'] at hfile ⊢
      rcases hfile' with hnone | hsame
      · cases hnone.symm.trans hfile
      · exact .inl (hsame.symm.trans hfile)
  | store p p' htwin =>
    obtain ⟨horder, htwin⟩ := htwin
    cases hdoing with
    | store _ hworking hdoing =>
      rw [Job.spot, ← horder] at hfile ⊢
      cases hdoing with
      | untouched _ _ hsame => exact .inl (hsame.symm.trans hfile)
      | put bytes' hfile' hput =>
        cases hfile.symm.trans hfile'
        refine .inr ⟨p, rfl, ?_⟩
        cases hput with
        | beginning hopened hstart =>
          exact .beginning (htwin.opened_inPlace_iff.mp hopened) (horder ▸ hstart)
        | whole hsettled hbytes hlength =>
          exact .whole (htwin.settled?_eq.symm.trans hsettled) (horder ▸ hbytes) (horder ▸ hlength)
      | failed error herror hfile' =>
        rcases hfile' with hnone | hsame
        · cases hnone.symm.trans hfile
        · exact .inl (hsame.symm.trans hfile)

/-- What those who have had their turns have left in the file, one of them has put there. -/
theorem Served.hasPut (hbase : EmptyBase v d₀ root) (hname : accepts name)
    (h : r.Served v root d₀ user name xs d) {bytes : Bytes}
    (hfile : fileAt d (Spot.under (.file user name) root) = some bytes) :
    ∃ x p, x ∈ xs ∧ r.crowd.job? x = some (.store p) ∧ p.HasPut bytes := by
  induction h with
  | nobody =>
    rw [fileAt_of_none (Crowd.node?_prepare hbase (by simp))] at hfile
    cases hfile
  | next xs x job verdict d hserved hjob hspot hsettled htracks ih =>
    rcases htracks.fileAt_cases hbase hname (hserved.calm hbase) hspot hfile with
      hold | ⟨p, rfl, hp⟩
    · obtain ⟨y, p, hy, hrest⟩ := ih hold
      exact ⟨y, p, List.mem_append_left _ hy, hrest⟩
    · exact ⟨x, p, List.mem_append_right _ (List.mem_singleton_self x), hjob, hp⟩

/-- At any moment, what is in the file has been put there by one of those who have entered. -/
theorem InLine.hasPut (hbase : EmptyBase v d₀ root) (hname : accepts name)
    (h : r.InLine v root d₀ user name) {bytes : Bytes}
    (hfile : fileAt r.crowd.state.disk (Spot.under (.file user name) root) = some bytes) :
    ∃ x p, x ∈ r.entered (v.pathOf (.file user name)) ∧ r.crowd.job? x = some (.store p) ∧
      p.HasPut bytes := by
  cases h.line with
  | idle d ρ hserved halike =>
    rw [← halike.fileAt_eq rfl] at hfile
    exact hserved.hasPut hbase hname hfile
  | busy xs x job d ρ hxs hserved hjob hspot hwork htracks halike =>
    rw [← halike.fileAt_eq rfl] at hfile
    rw [hxs]
    rcases htracks.fileAt_cases hbase hname (hserved.calm hbase) hspot hfile with
      hold | ⟨p, rfl, hp⟩
    · obtain ⟨y, p, hy, hrest⟩ := hserved.hasPut hbase hname hold
      exact ⟨y, p, List.mem_append_left _ hy, hrest⟩
    · exact ⟨x, p, List.mem_append_right _ (List.mem_singleton_self x), hjob, hp⟩

/-- While a store has a user's file itself open, the file holds a beginning of what is being stored
and nobody else is at work on it. -/
theorem InLine.inPlace (hbase : EmptyBase v d₀ root) (hname : accepts name)
    (h : r.InLine v root d₀ user name) (hjob : r.crowd.job? x = some (.store p))
    (hspot : (Job.store p).spot = .file user name) (hopened : p.upload.opened? = some none) :
    (∃ bytes, fileAt r.crowd.state.disk (Spot.under (.file user name) root) = some bytes ∧
      bytes <+: p.order.payload) ∧
    ∀ y job, r.crowd.job? y = some job → job.spot = .file user name → job.AtWork → y = x := by
  have hwork : (Job.store p).AtWork := .inr (by rw [hopened]; exact fun h => nomatch h)
  obtain ⟨xs, d, ρ, hxs, hserved, htracks, halike, -⟩ := h.of_atWork hjob hspot hwork
  refine ⟨?_, fun y job' hjob' hspot' hwork' => ?_⟩
  · have hdoing := (Job.doing_walk hbase (hserved.calm hbase) hname hspot (r.faults x)).2
    have htwin := htracks.twin
    rw [← halike.fileAt_eq rfl]
    unfold solo at htwin ⊢
    generalize (((Job.store p).anew v).walk v (r.faults x) { disk := d }).1 = job' at hdoing htwin
    generalize (((Job.store p).anew v).walk v (r.faults x) { disk := d }).2.disk = d' at *
    cases htwin with
    | store _ p' htwin =>
      obtain ⟨horder, htwin⟩ := htwin
      cases hspot
      cases hdoing with
      | store _ hworking hdoing =>
        rw [← horder]
        exact hdoing.of_opened (htwin.opened_inPlace_iff.mpr hopened)
  · obtain ⟨xs', d', ρ', hxs', -⟩ := h.of_atWork hjob' hspot' hwork'
    exact List.singleton_inj.mp (List.append_inj' (hxs'.symm.trans hxs) rfl).2

/-! ## 4. Runs -/

/-- What is in a user's file at a moment of a run was put there by one store of that file. -/
structure Unmixed (v : Vault) (root : Place) (user : UInt32) (name : Bytes) (r : Record) :
    Prop where
  hasPut : ∀ bytes, fileAt r.crowd.state.disk (Spot.under (.file user name) root) = some bytes →
    ∃ x p, x ∈ r.entered (v.pathOf (.file user name)) ∧ r.crowd.job? x = some (.store p) ∧
      (Job.store p).spot = .file user name ∧ p.HasPut bytes
  /-- A store that has opened the file itself, and may yet discard it, is the only one at work, and
  what it would discard is its own. -/
  inPlace : ∀ x p, r.crowd.job? x = some (.store p) → (Job.store p).spot = .file user name →
    p.upload.opened? = some none →
    (∃ bytes, fileAt r.crowd.state.disk (Spot.under (.file user name) root) = some bytes ∧
      bytes <+: p.order.payload) ∧
    ∀ y job, r.crowd.job? y = some job → job.spot = .file user name → job.AtWork → y = x

/-- At a user's file it has all come out as if the jobs there had been done one after the other, in
the order in which they took the lock. -/
structure Serial (v : Vault) (root : Place) (d₀ : Disk) (user : UInt32) (name : Bytes)
    (r : Record) : Prop where
  nodup : (r.entered (v.pathOf (.file user name))).Nodup
  here : ∀ x, x ∈ r.entered (v.pathOf (.file user name)) → ∃ job, r.crowd.job? x = some job ∧
    job.spot = .file user name
  /-- Who has not taken the lock has met a failure at its first step, and it would have come to the
  same and changed nothing whenever it had been done. -/
  refused : ∀ x job, r.crowd.job? x = some job → job.spot = .file user name →
    x ∉ r.entered (v.pathOf (.file user name)) →
    (∃ e, (r.faults x).head? = some (some e)) ∧
      ∃ verdict, job.verdict? = some verdict ∧ ∀ d, job.perform v (r.faults x) d = (verdict, d)
  verdicts : (r.entered (v.pathOf (.file user name))).map
      (fun x => (r.crowd.job? x).bind Job.verdict?) =
    (serially v (r.visits (v.pathOf (.file user name))) (v.prepare d₀).2).1.map some
  sight : r.crowd.state.disk.sight? (Spot.under (.file user name) root) =
    (serially v (r.visits (v.pathOf (.file user name))) (v.prepare d₀).2).2.sight?
      (Spot.under (.file user name) root)
  /-- What is left is the whole payload of one of the stores. -/
  whole : ∀ bytes, fileAt r.crowd.state.disk (Spot.under (.file user name) root) = some bytes →
    ∃ x p, x ∈ r.entered (v.pathOf (.file user name)) ∧ r.crowd.job? x = some (.store p) ∧
      p.upload.result? = some (.ok ()) ∧ bytes = p.order.payload ∧
        bytes.length = p.order.length.toNat

theorem InLine.unmixed (hbase : EmptyBase v d₀ root) (hname : accepts name)
    (h : r.InLine v root d₀ user name) : r.Unmixed v root user name where
  hasPut bytes hfile := by
    obtain ⟨x, p, hx, hp, hput⟩ := h.hasPut hbase hname hfile
    obtain ⟨job, hjob, hspot, -⟩ := h.entered x hx
    cases hp.symm.trans hjob
    exact ⟨x, p, hx, hp, hspot, hput⟩
  inPlace _ _ hjob hspot hopened := h.inPlace hbase hname hjob hspot hopened

theorem InLine.serial (hbase : EmptyBase v d₀ root) (hname : accepts name)
    (h : r.InLine v root d₀ user name)
    (hover : ∀ x job, r.crowd.job? x = some job → job.spot = .file user name →
      job.verdict? ≠ none) : r.Serial v root d₀ user name := by
  obtain ⟨d, ρ, hserved, halike⟩ := h.idle hover
  obtain ⟨verdicts, hserial, hverdicts⟩ := hserved.serially hover
  replace hserial : serially v (r.visits (v.pathOf (.file user name))) (v.prepare d₀).2 =
    (verdicts, d) := hserial
  refine ⟨h.nodup, fun x hx => ?_, fun x job hjob hspot hx => ?_, ?_, ?_, fun bytes hfile => ?_⟩
  · obtain ⟨job, hjob, hspot, -⟩ := h.entered x hx
    exact ⟨job, hjob, hspot⟩
  · rcases h.parties x job hjob hspot with hin | hawaits | hrefused
    · exact absurd hin hx
    · obtain ⟨verdict, hverdict⟩ := Option.ne_none_iff_exists'.mp (hover x job hjob hspot)
      have hsettled := Job.settled?_of_verdict? hverdict
      exact absurd hawaits.pending (Job.not_atWork_of_settled hsettled).2.1
    · have hperform := hrefused.perform v hname hspot
      obtain ⟨p, e, -, hfault, -⟩ := hrefused
      exact ⟨⟨e, hfault⟩, hperform⟩
  · rw [hserial, hverdicts]
  · rw [hserial, halike.sight?_eq rfl]
  · obtain ⟨x, p, hx, hp, hspot, hput⟩ := (h.unmixed hbase hname).hasPut bytes hfile
    obtain ⟨verdict, hverdict⟩ := Option.ne_none_iff_exists'.mp (hover x _ hp hspot)
    obtain ⟨result, hresult, -⟩ := Option.map_eq_some_iff.mp hverdict
    have hended : p.upload.settled? = some result := by
      rw [Upload.settled?, Upload.stage_of_result? hresult]
    -- who has ended has nothing open
    cases hput with
    | beginning hopened => cases (Upload.settled?_of_opened hopened).symm.trans hended
    | whole hsettled hbytes hlength =>
      cases hended.symm.trans hsettled
      exact ⟨x, p, hx, hp, hresult, hbytes, hlength⟩

/-- Take any run of a crowd in a vault where writers take turns, that starts in an empty directory
and at the end of which everybody who came to a user's file has ended.  At that file it has all come
out as one after the other, in the order in which the parties took the lock, and at no moment of the
run was there in the file anything but what one store had put there.  What the parties met are the
failures of the system that the actions brought to their steps, unless the run is so long that
numbers for files aside may run out. -/
theorem serial_run (hbase : EmptyBase v d₀ root) (hexclusive : v.options.exclusive = true)
    (actions : List Action) (user : UInt32) {name : Bytes} (hname : accepts name)
    (hover : ∀ x job, (Crowd.run v (.start v d₀) actions).job? x = some job →
      job.spot = .file user name → job.verdict? ≠ none) :
    let r := (start v d₀).run v actions
    r.crowd = Crowd.run v (.start v d₀) actions ∧
      r.Serial v root d₀ user name ∧
      (∀ before, before <+: actions → ((start v d₀).run v before).Unmixed v root user name) ∧
      (actions.length ≤ 10 ^ 248 →
        ∀ x, (r.faults x).Sublist (actions.filterMap (Action.faultFor? x))) := by
  intro r
  have hcrowd : r.crowd = Crowd.run v (.start v d₀) actions := crowd_run v (start v d₀) actions
  rw [← hcrowd] at hover
  refine ⟨hcrowd, ?_, fun before _ => ?_, fun hfew x => ?_⟩
  · exact (inLine_run hbase user hname hexclusive actions).serial hbase hname hover
  · exact (inLine_run hbase user hname hexclusive before).unmixed hbase hname
  · obtain ⟨met, hmet, hsub⟩ := faults_run hbase (Crowd.standing_start hbase)
      (Crowd.begun_start v d₀) (r := start v d₀) actions (by rwa [Nat.zero_add]) x
    exact hmet ▸ hsub

/-- Two stores and a removal of one file at the same time; the payload of one of the stores, which
writes in place, does not come. -/
theorem serial_run_three :
    let v : Vault :=
      { base := { absolute := true, steps := [] },
        options := { exclusive := true, atomic := false } }
    let actions : List Action :=
      [.store 0 ⟨7, [0x61], 2, .ofBytes [1]⟩, .store 1 ⟨7, [0x61], 1, .ofBytes [2]⟩,
        .remove 0 7 [0x61]] ++
        (List.range 20).flatMap fun _ =>
          [.advanceStore 0 none, .advanceStore 1 none, .advanceRemoval 0 none]
    let r := (start v {}).run v actions
    r.crowd = Crowd.run v (.start v {}) actions ∧
      r.Serial v [] {} 7 [0x61] ∧
      (∀ before, before <+: actions → ((start v {}).run v before).Unmixed v [] 7 [0x61]) ∧
      (actions.length ≤ 10 ^ 248 →
        ∀ x, (r.faults x).Sublist (actions.filterMap (Action.faultFor? x))) := by
  intro v actions
  have hbase : EmptyBase v {} [] := emptyBase_root _
  have hname : accepts [0x61] := by decide +kernel
  have hall : ∀ x ∈ actions.filterMap Action.comer?,
      (((Crowd.run v (.start v {}) actions).job? x).bind Job.verdict?).isSome := by
    decide +kernel
  refine serial_run hbase rfl actions 7 hname fun x job hjob _ => ?_
  have hx : x ∈ actions.filterMap Action.comer? := by
    refine mem_comers (v := v) actions (job?_start v {} x) ?_
    rw [crowd_run]
    exact hjob ▸ Option.some_ne_none job
  have hended := hall x hx
  rw [hjob] at hended
  exact Option.isSome_iff_ne_none.mp hended

end Record

end UserVault.Vault
