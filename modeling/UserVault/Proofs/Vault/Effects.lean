import UserVault.Proofs.Vault.Sound
import UserVault.Proofs.Vault.Visits

/-!
# What a job does to its file

A job that nobody disturbs leaves its file as it was, takes it away, or puts the whole payload of a
store in its place, whichever calls of the system fail.  While a store writes in place, the file
holds a beginning of the payload.
-/

namespace UserVault.Vault

open Disk Link

variable {v : Vault} {root : Place} {d₀ d d' : Disk} {p : Storing} {job : Job} {u' : Upload}
  {s : State} {fault : Option Errno}

/-- Who has a file open has not settled. -/
theorem Upload.settled?_of_opened {u : Upload} {staged : Option Path}
    (h : u.opened? = some staged) : u.settled? = none := by
  unfold opened? at h
  unfold settled?
  split at h <;> simp_all

/-- What is in its file a store has put there: in the end its whole payload, and a beginning of it
as long as it writes in place. -/
inductive Storing.HasPut (p : Storing) (bytes : Bytes) : Prop
  | beginning (hopened : p.upload.opened? = some none) (hstart : bytes <+: p.order.payload)
  | whole (hsettled : p.upload.settled? = some (.ok ())) (hbytes : bytes = p.order.payload)
    (hlength : bytes.length = p.order.length.toNat)

/-- What a store that was begun on disk `d` and that nobody disturbs has made of its file. -/
inductive Storing.Doing (root : Place) (d : Disk) (p : Storing) (d' : Disk) : Prop
  | untouched (hopened : p.upload.opened? ≠ some none) (hsettled : p.upload.settled? = none)
    (hfile : fileAt d' (Spot.under (.file p.order.user p.order.name) root) =
      fileAt d (Spot.under (.file p.order.user p.order.name) root))
  | put (bytes : Bytes)
    (hfile : fileAt d' (Spot.under (.file p.order.user p.order.name) root) = some bytes)
    (hput : p.HasPut bytes)
  | failed (error : StoreError) (hsettled : p.upload.settled? = some (.error error))
    (hfile : fileAt d' (Spot.under (.file p.order.user p.order.name) root) = none ∨
      fileAt d' (Spot.under (.file p.order.user p.order.name) root) =
        fileAt d (Spot.under (.file p.order.user p.order.name) root))

/-- What has been read of a payload is a beginning of it. -/
theorem Order.take_prefix {o : Order} {u : Upload}
    (h : u.Fed o.padded o.missing (o.body.front.drop o.length.toNat) o.body.barrier) :
    o.padded.take (o.padded.length - u.remaining) <+: o.payload := by
  have hlength := congrArg List.length h.front
  have hpadded := o.length_padded
  rw [Order.missing, List.length_append, List.length_append, List.length_replicate,
    List.length_drop, List.length_drop] at hlength
  have hpayload : o.payload.length = min o.length.toNat o.body.front.length := by
    rw [Order.payload, List.length_take]
  have hle : o.padded.length - u.remaining ≤ o.payload.length := by omega
  have hstart : o.payload <+: o.padded := List.prefix_append ..
  rw [List.prefix_iff_eq_take.mp hstart]
  exact List.take_prefix_take_left hle

/-- As long as no write has failed, a file that is written in place holds a beginning of the
payload. -/
theorem Storing.Working.writing (h : p.Working v root d') (hopened : p.upload.opened? = some none)
    (hintact : p.upload.Intact) : p.Doing root d d' := by
  obtain ⟨spot, id, hown, hnode, hkeeps⟩ := h.holding.exists_file h.placed hopened
  have hfed : p.upload.Fed p.order.padded p.order.missing
      (p.order.body.front.drop p.order.length.toNat) p.order.body.barrier := by
    cases h.accounts with
    | good fed _ _ => exact fed
    | cutOff cause hcause _ =>
      unfold Upload.outcome? at hcause
      unfold Upload.Intact at hintact
      split at hcause <;> simp_all
  cases hown with
  | inPlace hatomic =>
    refine .put _ (fileAt_of_file hnode) (.beginning hopened ?_)
    rw [hkeeps.content hintact]
    exact Order.take_prefix hfed

/-- After the last read the file that a store has written holds the whole payload. -/
theorem Storing.Working.whole (h : p.Working v root d') {staged : Option Path} {spot : Spot}
    (hopened : p.upload.opened? = some staged) (hown : Own v p.order.user p.order.name staged spot)
    (hread : p.upload.hasRead = true) (hintact : p.upload.Intact) :
    fileAt d' (spot.under root) = some p.order.payload ∧
      p.order.payload.length = p.order.length.toNat := by
  obtain ⟨id, hnode, hkeeps⟩ := h.holding.file staged spot hopened hown
  have hcontent := hkeeps.whole h.accounts hread hintact
  obtain ⟨hfed, hzero⟩ : p.upload.Fed p.order.padded p.order.missing
      (p.order.body.front.drop p.order.length.toNat) p.order.body.barrier ∧
        p.upload.remaining = 0 := by
    cases h.accounts with
    | good fed hzero _ => exact ⟨fed, hzero hread⟩
    | cutOff cause hcause _ =>
      unfold Upload.outcome? at hcause
      unfold Upload.hasRead at hread
      split at hcause <;> simp_all
  have hfront := hfed.front
  rw [hzero, Nat.sub_zero, List.drop_length, List.nil_append] at hfront
  obtain ⟨hpadded, hlength⟩ := Order.padded_eq hfront
  rw [fileAt_of_file hnode, hcontent, hpadded]
  exact ⟨rfl, hlength⟩

theorem Storing.Doing.of_unopened (h : p.Doing root d d') (hopened : p.upload.opened? ≠ some none)
    (hsettled : p.upload.settled? = none) :
    fileAt d' (Spot.under (.file p.order.user p.order.name) root) =
      fileAt d (Spot.under (.file p.order.user p.order.name) root) := by
  cases h with
  | untouched _ _ hfile => exact hfile
  | put bytes _ hput =>
    cases hput with
    | beginning hopened' => exact absurd hopened' hopened
    | whole hsettled' => cases hsettled.symm.trans hsettled'
  | failed error hsettled' => cases hsettled.symm.trans hsettled'

/-- A store that has not opened the file itself and does something elsewhere. -/
theorem Storing.Doing.elsewhere (h : p.Doing root d d') (hopened : p.upload.opened? ≠ some none)
    (hsettled : p.upload.settled? = none) {P : Spot → Prop} {d'' : Disk}
    (hkept : SpotsKept root P d' d'') (hspot : ¬P (.file p.order.user p.order.name))
    (hopened' : u'.opened? ≠ some none) (hsettled' : u'.settled? = none) :
    Storing.Doing root d { p with upload := u' } d'' :=
  .untouched hopened' hsettled' ((hkept.fileAt hspot).trans (h.of_unopened hopened hsettled))

theorem Storing.Doing.of_opened (h : p.Doing root d d') (hopened : p.upload.opened? = some none) :
    ∃ bytes, fileAt d' (Spot.under (.file p.order.user p.order.name) root) = some bytes ∧
      bytes <+: p.order.payload := by
  have hunsettled := Upload.settled?_of_opened hopened
  cases h with
  | untouched hopened' => exact absurd hopened hopened'
  | put bytes hfile hput =>
    cases hput with
    | beginning _ hstart => exact ⟨bytes, hfile, hstart⟩
    | whole hsettled => cases hunsettled.symm.trans hsettled
  | failed error hsettled => cases hunsettled.symm.trans hsettled

/-- A store that goes on with its file and leaves the disk alone. -/
theorem Storing.Doing.go_on (h : p.Doing root d d') {staged : Option Path}
    (hopened : p.upload.opened? = some staged) (hopened' : u'.opened? = some staged) :
    Storing.Doing root d { p with upload := u' } d' := by
  cases staged with
  | none =>
    obtain ⟨bytes, hfile, hstart⟩ := h.of_opened hopened
    exact .put bytes hfile (.beginning hopened' hstart)
  | some path =>
    refine .untouched (by rw [hopened']; simp) (Upload.settled?_of_opened hopened') ?_
    exact h.of_unopened (by rw [hopened]; simp) (Upload.settled?_of_opened hopened)

theorem Quiet.doing (h : p.Doing root d d') (hworking : p.Working v root d')
    (hquiet : Quiet v fault d' p.upload u') :
    Storing.Doing root d { p with upload := u' } d' := by
  cases hquiet with
  | refused error hwhy =>
    refine .failed _ (settled?_settle _ _) (.inr ?_)
    rcases hwhy with ⟨hstage, -⟩ | ⟨hstage, -⟩ <;>
      exact h.of_unopened (by simp [Upload.opened?, hstage]) (by simp [Upload.settled?, hstage])
  | waited turn stage hstage hstage' =>
    have hfile := h.of_unopened (by simp [Upload.opened?, hstage])
      (by simp [Upload.settled?, hstage])
    rcases hstage' with rfl | rfl <;>
      exact .untouched (by simp [Upload.opened?]) rfl hfile
  | delayed file staged body remaining e hstage =>
    exact h.go_on (by rw [Upload.opened?, hstage]) rfl
  | copied file staged hstage => exact h.go_on (by rw [Upload.opened?, hstage]) rfl
  | flushed file staged hstage => exact h.go_on (by rw [Upload.opened?, hstage]) rfl
  | synced file staged hstage => exact h.go_on (by rw [Upload.opened?, hstage]) rfl
  | completed file hstage =>
    have hopened : p.upload.opened? = some none := by rw [Upload.opened?, hstage]
    obtain ⟨spot, hown⟩ := hworking.placed.opened none hopened
    cases hown with
    | inPlace hatomic =>
      obtain ⟨hfile, hlength⟩ := hworking.whole hopened (.inPlace hatomic)
        (by rw [Upload.hasRead, hstage]) (by rw [Upload.Intact, hstage]; trivial)
      exact .put _ hfile (.whole (settled?_settle _ _) rfl hlength)
  | gaveUp staged cause body remaining hopened => exact h.go_on hopened rfl
  | left result turn stage hstage hstage' =>
    have hsettled : p.upload.settled? = some result := by rw [Upload.settled?, hstage]
    have hsettled' : Upload.settled? { p.upload with turn, stage } = some result := by
      rcases hstage' with rfl | rfl <;> rfl
    cases h with
    | untouched _ hnone => cases hsettled.symm.trans hnone
    | put bytes hfile hput =>
      cases hput with
      | beginning hopened => simp [Upload.opened?, hstage] at hopened
      | whole hok hbytes hlength =>
        cases hsettled.symm.trans hok
        exact .put bytes hfile (.whole hsettled' hbytes hlength)
    | failed error herror hfile =>
      cases hsettled.symm.trans herror
      exact .failed error hsettled' hfile
  | finished => exact h

/-- A step of a store that nobody disturbs. -/
theorem Storing.Doing.step (hbase : EmptyBase v d₀ root) (htree : Orderly v root d₀ s.disk)
    (hworking : p.Working v root s.disk) (h : p.Doing root d s.disk) (fault : Option Errno) :
    Storing.Working v root (p.upload.step v fault s).2.disk
        { p with upload := (p.upload.step v fault s).1 } ∧
      Storing.Doing root d { p with upload := (p.upload.step v fault s).1 }
        (p.upload.step v fault s).2.disk := by
  obtain ⟨hname, hplaced, haccounts, hholding⟩ := hworking
  have hmove := move_step hbase htree hname hplaced fault
  have hworking' : Storing.Working v root (p.upload.step v fault s).2.disk
      { p with upload := (p.upload.step v fault s).1 } :=
    ⟨hname, hmove.placed hplaced, Upload.accounts_step v fault s haccounts,
      hmove.holding hholding htree hplaced haccounts⟩
  refine ⟨hworking', ?_⟩
  replace hworking : p.Working v root s.disk := ⟨hname, hplaced, haccounts, hholding⟩
  generalize (p.upload.step v fault s).1 = u' at hmove hworking' ⊢
  generalize (p.upload.step v fault s).2.disk = d' at hmove hworking' ⊢
  cases hmove with
  | idle _ hquiet => exact hquiet.doing h hworking
  | prepared turn stage hstage hstage' =>
    have hkept := spotsKept_withFolder s.disk root p.order.user
    rcases hstage' with rfl | rfl <;>
      exact h.elsewhere (by simp [Upload.opened?, hstage]) (by simp [Upload.settled?, hstage])
        hkept (by simp) (by simp [Upload.opened?]) rfl
  | madeAside number hstage =>
    exact h.elsewhere (by simp [Upload.opened?, hstage]) (by simp [Upload.settled?, hstage])
      (spotsKept_putNew htree (.staged number)) (by simp) (by simp [Upload.opened?]) rfl
  | madeInPlace hstage => exact hworking'.writing rfl rfl
  | emptied id hstage => exact hworking'.writing rfl rfl
  | wrote file staged id bytes body hstage htarget hclean hread =>
    cases staged with
    | none => exact hworking'.writing rfl hclean
    | some path =>
      have hopened : p.upload.opened? = some (some path) := by rw [Upload.opened?, hstage]
      obtain ⟨spot, id', hown, hnode, hkeeps⟩ := hholding.exists_file hplaced hopened
      have hid := hkeeps.target file (by rw [Upload.handle?, hstage])
      rw [htarget] at hid
      cases hid
      have hne : Spot.file p.order.user p.order.name ≠ spot := by
        generalize hpath : some path = staged at hown
        cases hown with
        | inPlace => cases hpath
        | aside => simp
      exact h.elsewhere (by simp [hopened]) (Upload.settled?_of_opened hopened)
        (spotsKept_overwrite htree hnode _) hne (by simp [Upload.opened?]) rfl
  | published number id hstage hnode hfolder =>
    have hopened : p.upload.opened? = some (some (v.pathOf (.staged number))) := by
      rw [Upload.opened?, hstage]
    obtain ⟨spot, hown⟩ := hplaced.opened _ hopened
    generalize hpath : some (v.pathOf (.staged number)) = staged at hown
    cases hown with
    | inPlace => cases hpath
    | aside hatomic number' hfits =>
      cases pathOf_injective (Option.some.inj hpath)
      obtain ⟨hfile, hlength⟩ := hworking.whole hopened (.aside hatomic number hfits)
        (by rw [Upload.hasRead, hstage]) (by rw [Upload.Intact, hstage]; trivial)
      refine .put _ ?_ (.whole (settled?_settle _ _) rfl hlength)
      have hmoved : (move s.disk root (.staged number) (.file p.order.user p.order.name) id).node?
          (Spot.under (.file p.order.user p.order.name) root) = some (.file id) := by
        rw [node?_move, if_pos rfl]
      rw [← hfile, fileAt_of_file hnode, fileAt_of_file hmoved]
      rfl
  | discarded staged cause spot hstage hown =>
    have hopened : p.upload.opened? = some staged := by rw [Upload.opened?, hstage]
    cases hown with
    | inPlace =>
      refine .failed _ (settled?_settle _ _) (.inl (fileAt_of_none ?_))
      exact node?_clear_self s.disk root _
    | aside hatomic number hfits =>
      have hfile := h.of_unopened (by simp [hopened]) (by simp [Upload.settled?, hstage])
      have hkept : fileAt (clear s.disk root (.staged number))
          (Spot.under (.file p.order.user p.order.name) root) =
            fileAt s.disk (Spot.under (.file p.order.user p.order.name) root) :=
        (spotsKept_clear s.disk root (.staged number)).fileAt (by simp)
      exact .failed _ (settled?_settle _ _) (.inr (hkept.trans hfile))

/-! ## Jobs done alone -/

/-- What a job that was begun on disk `d` and that nobody disturbs has made of its file. -/
inductive Job.Doing (v : Vault) (root : Place) (d d' : Disk) : Job → Prop
  | store (p : Storing) (hworking : p.Working v root d') (h : p.Doing root d d') :
    Job.Doing v root d d' (.store p)
  | removal (p : Removing) (hfile : fileAt d' (Spot.under (.file p.user p.name) root) = none ∨
      fileAt d' (Spot.under (.file p.user p.name) root) =
        fileAt d (Spot.under (.file p.user p.name) root)) :
    Job.Doing v root d d' (.removal p)

/-- A job under a name that is accepted has done nothing at first. -/
theorem Job.doing_anew (v : Vault) (root : Place) (d : Disk) {user : UInt32} {name : Bytes}
    (hname : accepts name) (hspot : job.spot = .file user name) :
    Job.Doing v root d d (job.anew v) := by
  cases job with
  | removal p => exact .removal _ (.inr rfl)
  | store p =>
    cases hspot
    have hopened := opened?_start v p.order
    refine .store _ ?_ (.untouched (by rw [hopened]; exact fun h => nomatch h) ?_ rfl)
    · rcases sound_start_store v root d p.order with ⟨result, hstage⟩ | hworking
      · simp [Upload.start, resolve_of_accepts v _ hname] at hstage
      · exact hworking
    · simp only [Upload.start, resolve_of_accepts v _ hname, Upload.settled?]

theorem Job.Doing.step (hbase : EmptyBase v d₀ root) (halone : job.Alone v root d₀ s.disk)
    (h : Job.Doing v root d s.disk job) (fault : Option Errno) :
    Job.Doing v root d (job.step v fault s).2.disk (job.step v fault s).1 := by
  cases h with
  | store p hworking h =>
    obtain ⟨hworking', h'⟩ := h.step hbase halone.tree hworking fault
    exact .store _ hworking' h'
  | removal p hfile =>
    refine .removal _ ?_
    rcases halone.tidy with ⟨result, hstage⟩ | ⟨hname, htarget⟩
    · simp only [Job.step, Removal.step_of_finished hstage]
      exact hfile
    · have hmove := removal_step fault hbase halone.tree hname htarget
      dsimp only [Job.step]
      generalize (p.removal.step fault s).1 = r' at hmove
      generalize (p.removal.step fault s).2.disk = d' at hmove ⊢
      cases hmove with
      | idle => exact hfile
      | unlinked hstage hfault hnode =>
        exact .inl (fileAt_of_none (by rw [node?_take, if_pos rfl]))

/-- However far a job has come that nobody disturbs, it has done one of a few things to its file. -/
theorem Job.doing_walk (hbase : EmptyBase v d₀ root) (hcalm : Calm v root d₀ d) {user : UInt32}
    {name : Bytes} (hname : accepts name) (hspot : job.spot = .file user name)
    (faults : List (Option Errno)) :
    ((job.anew v).walk v faults { disk := d }).1.Alone v root d₀
        ((job.anew v).walk v faults { disk := d }).2.disk ∧
      Job.Doing v root d ((job.anew v).walk v faults { disk := d }).2.disk
        ((job.anew v).walk v faults { disk := d }).1 := by
  induction faults using List.reverseRecOn with
  | nil => exact ⟨Job.alone_anew hcalm job, Job.doing_anew v root d hname hspot⟩
  | append_singleton faults fault ih =>
    obtain ⟨halone, hdoing⟩ := ih
    rw [walk_concat]
    exact ⟨halone.step hbase fault, hdoing.step hbase halone fault⟩

end UserVault.Vault
