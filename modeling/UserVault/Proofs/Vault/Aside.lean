import UserVault.Proofs.Vault.Footing
import UserVault.Proofs.Vault.Sound
import UserVault.Proofs.Vault.Stores

/-!
# Stores aside, in any tree

A store that writes its file aside does all or nothing, whatever the tree is like and whatever
fails.  `Course` says for each stage what the store has done to the tree so far; every act of the
store keeps to it, and what it says of the last stage is the result.
-/

namespace UserVault.Vault

open Disk Link

variable {v : Vault} {root : Place} {user : UInt32} {name payload missing tail : Bytes}
  {barrier : Option FaultKind} {d₀ d d' : Disk} {u u' : Upload} {fault : Option Errno}

/-! ## 1. What a store has done so far -/

/-- The user has a directory, which may have been made. -/
def HasFolder (root : Place) (user : UInt32) (d₀ : Disk) : Prop :=
  ∃ mode, (withFolder d₀ root user).node? (Spot.under (.folder user) root) = some (.directory mode)

namespace Upload

/-- An upload has a file of its own open aside, and all else is as it was. -/
inductive WritesAside (v : Vault) (root : Place) (user : UInt32) (payload : Bytes) (d₀ : Disk)
    (u : Upload) (d : Disk) : Option Path → Prop
  | aside (number : Nat) (id : FileId) (hfolder : HasFolder root user d₀)
    (hapart : Apart v root number id (withFolder d₀ root user) d) (hkeeps : Keeps payload u d id) :
    WritesAside v root user payload d₀ u d (some (v.pathOf (.staged number)))

/-- What a store that came to a result has done: all of it, or nothing but to make the directory of
the user. -/
def Over (root : Place) (user : UInt32) (name payload : Bytes) (d₀ d : Disk) :
    Except StoreError Unit → Prop
  | .ok () => HasFolder root user d₀ ∧
    PlacesKept (· = Spot.under (.file user name) root) (withFolder d₀ root user) d ∧
    d.entryAt? (Spot.under (.file user name) root) = some (.file payload)
  | .error _ => d = d₀ ∨ HasFolder root user d₀ ∧
    PlacesKept (fun _ => False) (withFolder d₀ root user) d

/-- What an upload that has come to a stage has done to the tree. -/
def Course (v : Vault) (root : Place) (user : UInt32) (name payload : Bytes) (d₀ : Disk)
    (u : Upload) (d : Disk) : Prop :=
  match u.stage with
  | .preparing => u.remaining = payload.length ∧ d = d₀
  | .takingTurn | .opening =>
    u.remaining = payload.length ∧ HasFolder root user d₀ ∧ d = withFolder d₀ root user
  | .copying _ staged | .flushing _ staged | .syncing _ staged | .discarding staged _ =>
    WritesAside v root user payload d₀ u d staged
  | .publishing staged => WritesAside v root user payload d₀ u d (some staged)
  | .givingTurn result | .finished result => Over root user name payload d₀ d result

theorem course_settle {result : Except StoreError Unit}
    (h : Over root user name payload d₀ d result) :
    Course v root user name payload d₀ (u.settle result) d := by
  unfold Course
  rcases stage_settle u result with hstage | hstage
  · rw [hstage]
    exact h
  · rw [hstage]
    exact h

theorem course_of_opened {staged : Option Path} (hopened : u.opened? = some staged)
    (h : WritesAside v root user payload d₀ u d staged) :
    Course v root user name payload d₀ u d := by
  unfold opened? at hopened
  unfold Course
  -- in a stage with an open file, the course is to work on that file
  split at hopened <;> cases hopened <;> simp_all

theorem Course.writesAside (h : Course v root user name payload d₀ u d) {staged : Option Path}
    (hopened : u.opened? = some staged) : WritesAside v root user payload d₀ u d staged := by
  unfold opened? at hopened
  unfold Course at h
  split at hopened <;> cases hopened <;> simp_all

/-! ## 2. What a step does -/

/-- A step that leaves the disk alone keeps the store on its course. -/
theorem Course.quiet (h : Course v root user name payload d₀ u d) (hquiet : Quiet v fault d u u') :
    Course v root user name payload d₀ u' d := by
  have hgoesOn (staged : Option Path) (hopened : u'.opened? = some staged) :
      Course v root user name payload d₀ u' d := by
    apply course_of_opened hopened
    cases h.writesAside (hquiet.opened hopened) with
    | aside number id hfolder hapart hkeeps =>
      exact .aside number id hfolder hapart (hquiet.keeps hkeeps hopened)
  cases hquiet with
  | refused error hwhy =>
    apply course_settle
    unfold Course at h
    rcases hwhy with ⟨hstage, -⟩ | ⟨hstage, -⟩
    · rw [hstage] at h
      exact .inl h.2
    · rw [hstage] at h
      obtain ⟨-, hfolder, rfl⟩ := h
      exact .inr ⟨hfolder, PlacesKept.refl _ _⟩
  | waited turn stage hstage hstage' =>
    unfold Course at h
    rw [hstage] at h
    rcases hstage' with rfl | rfl <;> exact h
  | completed file hstage =>
    have hopened : u.opened? = some none := by rw [opened?, hstage]
    cases h.writesAside hopened
  | left result turn stage hstage hstage' =>
    unfold Course at h
    rw [hstage] at h
    rcases hstage' with rfl | rfl <;> exact h
  | finished => exact h
  | delayed | copied | flushed | synced | gaveUp => exact hgoesOn _ rfl

/-- An upload of a user's file is under way in the tree `d₀`. -/
structure OnCourse (v : Vault) (root : Place) (user : UInt32) (name payload missing tail : Bytes)
    (barrier : Option FaultKind) (d₀ : Disk) (u : Upload) (d : Disk) : Prop where
  user_eq : u.user = user
  target_eq : u.target = v.pathOf (.file user name)
  accounts : u.Accounts payload missing tail barrier
  course : Course v root user name payload d₀ u d

namespace OnCourse

variable (h : OnCourse v root user name payload missing tail barrier d₀ u d)
include h

/-- Whatever is written is written to a file. -/
theorem handle (file : Handle) (hhandle : u.handle? = some file) :
    ∃ id, file.target = .file id := by
  obtain ⟨staged, hopened⟩ := exists_opened hhandle
  cases h.course.writesAside hopened with
  | aside number id hfolder hapart hkeeps => exact ⟨id, hkeeps.target file hhandle⟩

theorem made {turn : Turn} {stage : Stage} (hfooted : Footed v root user d₀)
    (hstage : u.stage = .preparing)
    (hmake : d.makeDirectories (v.userDirectory u.user) = (.ok (), d'))
    (hstage' : stage = .takingTurn ∨ stage = .opening) :
    Course v root user name payload d₀ { u with turn, stage } d' := by
  have hcourse := h.course
  unfold Course at hcourse
  rw [hstage] at hcourse
  obtain ⟨hremaining, rfl⟩ := hcourse
  rw [h.user_eq] at hmake
  -- nothing has been done yet, so the directory is made in the tree from before the store
  obtain ⟨rfl, hfolder⟩ := hfooted.makeDirectories_ok hmake
  rcases hstage' with rfl | rfl <;> exact ⟨hremaining, hfolder, rfl⟩

theorem opened (hatomic : v.options.atomic = true) (hfooted : Footed v root user d₀)
    (hstaging : ∀ target, d₀.node? (Spot.under .staging root) ≠ some (.link target))
    (hstage : u.stage = .opening) {file : Handle} {staged : Option Path}
    (hopen : v.openStore d u.target u.remaining = (.ok (file, staged), d')) :
    Course v root user name payload d₀ { u with stage := .copying file staged } d' := by
  have hcourse := h.course
  unfold Course at hcourse
  rw [hstage] at hcourse
  obtain ⟨hremaining, hfolder, rfl⟩ := hcourse
  have hstaging' (target : Bytes) :
      (withFolder d₀ root user).node? (Spot.under .staging root) ≠ some (.link target) := by
    have hne : ¬Spot.under .staging root = Spot.under (.folder user) root := fun heq =>
      nomatch Spot.under_injective heq
    rw [(placesKept_withFolder d₀ root user).node _ hne]
    exact hstaging target
  simp only [openStore, hatomic, if_true, stagedPath_eq] at hopen
  split at hopen
  · cases hopen
  next hcreate =>
    cases hopen
    obtain ⟨rfl, hapart, hempty⟩ := hfooted.withFolder.createNew hstaging' hcreate
    exact .aside _ _ hfolder hapart (keeps_empty rfl rfl rfl hempty hremaining)

theorem wrote {file : Handle} {staged : Option Path} {id : FileId} {bytes : Bytes} {body : Source}
    (hstage : u.stage = .copying file staged) (htarget : file.target = .file id)
    (hclean : file.failure = none)
    (hread : Source.exactly (min v.chunkSize u.remaining) u.body = (.ok bytes, body)) :
    Course v root user name payload d₀
      { u with
        body
        remaining := u.remaining - min v.chunkSize u.remaining
        stage := .copying { file with offset := file.offset + bytes.length } staged }
      (d.overwrite id ((d.contentOf id).writeAt file.offset bytes)) := by
  have hopened : u.opened? = some staged := by rw [opened?, hstage]
  have hhandle : u.handle? = some file := by rw [handle?, hstage]
  cases h.course.writesAside hopened with
  | aside number id' hfolder hapart hkeeps =>
    -- the handle writes to the file aside, which is new, so no old file is written to
    obtain rfl := hkeeps.id_eq hhandle htarget
    exact .aside number id' hfolder (hapart.overwrite _)
      (hkeeps.write h.accounts hapart.record hstage htarget hclean hread)

theorem published (hfooted : Footed v root user d₀) (hname : accepts name) {staged : Path}
    (hstage : u.stage = .publishing staged) (hrename : d.rename staged u.target = .ok d') :
    Over root user name payload d₀ d' (.ok ()) := by
  have hopened : u.opened? = some (some staged) := by rw [opened?, hstage]
  cases h.course.writesAside hopened with
  | aside number id hfolder hapart hkeeps =>
    -- nothing is renamed before all of the payload has been read and written
    have hwhole : (d.contentOf id).bytes = payload := by
      apply hkeeps.whole h.accounts
      · rw [hasRead, hstage]
      · rw [Intact, hstage]
        trivial
    rw [h.target_eq] at hrename
    obtain ⟨hplaces, hnode, hrecord⟩ := hapart.rename hfooted.withFolder hname hrename
    refine ⟨hfolder, hplaces, ?_⟩
    rw [entryAt?_of_file hnode, contentOf, hrecord]
    exact congrArg (fun bytes => some (Entry.file bytes)) hwhole

theorem discarded (hfooted : Footed v root user d₀) {staged : Option Path} {cause : StoreError}
    (hstage : u.stage = .discarding staged cause) :
    Over root user name payload d₀ (withdraw d (staged.getD u.target)) (.error cause) := by
  have hopened : u.opened? = some staged := by rw [opened?, hstage]
  cases h.course.writesAside hopened with
  | aside number id hfolder hapart hkeeps =>
    refine .inr ⟨hfolder, ?_⟩
    rw [Option.getD_some, hapart.withdraw hfooted.withFolder]
    exact hapart.drop

/-- Whatever a store does, it keeps to its course. -/
theorem act (hatomic : v.options.atomic = true) (hfooted : Footed v root user d₀)
    (hstaging : ∀ target, d₀.node? (Spot.under .staging root) ≠ some (.link target))
    (hname : accepts name) (hact : Act v fault d u u' d') :
    Course v root user name payload d₀ u' d' := by
  cases hact with
  | idle _ hquiet => exact h.course.quiet hquiet
  | unprepared e _ hstage hmake =>
    have hcourse := h.course
    unfold Course at hcourse
    rw [hstage] at hcourse
    obtain ⟨-, rfl⟩ := hcourse
    rw [h.user_eq] at hmake
    exact course_settle (.inl (hfooted.makeDirectories_error hmake))
  | prepared _ turn stage hstage hmake hstage' => exact h.made hfooted hstage hmake hstage'
  | opened file staged _ hstage hopen => exact h.opened hatomic hfooted hstaging hstage hopen
  | wrote file staged id bytes body hstage htarget hclean hread =>
    exact h.wrote hstage htarget hclean hread
  | published staged _ hstage hrename =>
    exact course_settle (h.published hfooted hname hstage hrename)
  | discarded staged cause hstage => exact course_settle (h.discarded hfooted hstage)

theorem step (hatomic : v.options.atomic = true) (hfooted : Footed v root user d₀)
    (hstaging : ∀ target, d₀.node? (Spot.under .staging root) ≠ some (.link target))
    (hname : accepts name) {s : State} (hdisk : s.disk = d) (fault : Option Errno) :
    OnCourse v root user name payload missing tail barrier d₀ (u.step v fault s).1
      (u.step v fault s).2.disk := by
  subst hdisk
  have hact := act_step (v := v) (s := s) h.handle fault
  obtain ⟨huser, htarget⟩ := hact.names
  exact ⟨huser.trans h.user_eq, htarget.trans h.target_eq, accounts_step v fault s h.accounts,
    h.act hatomic hfooted hstaging hname hact⟩

end OnCourse

theorem onCourse_start (hname : accepts name) (root : Place) {length : UInt32} {body : Source}
    (hlength : payload.length = length.toNat) (hfront : body.front ++ missing = payload ++ tail)
    (d : Disk) : OnCourse v root user name payload missing tail body.barrier d
      (start v user name length body) d := by
  have haccounts := accounts_start v user name hlength hfront
  rw [start, resolve_of_accepts v user hname] at haccounts ⊢
  exact ⟨rfl, rfl, haccounts, hlength.symm, rfl⟩

end Upload

/-! ## 3. What the whole store does -/

/-- What is the same as once the user had a directory is the same as before that, but for the
directory itself. -/
theorem PlacesKept.sameAt_withFolder {P : Place → Prop} (hfooted : Footed v root user d₀)
    (h : PlacesKept P (withFolder d₀ root user) d) {q : Place} (hP : ¬P q)
    (hfolder : q = Spot.under (.folder user) root →
      d₀.node? (Spot.under (.folder user) root) ≠ none) : SameAt d₀ d q :=
  (hfooted.sameAt_withFolder hfolder).trans (h.sameAt hfooted.withFolder.known hP)

/-- No entry of the directory aside is the directory of a user or a file of a user. -/
theorem staging_append_ne (root : Place) (entry : Name) (user : UInt32) (name : Bytes) :
    Spot.under .staging root ++ [entry] ≠ Spot.under (.folder user) root ∧
      Spot.under .staging root ++ [entry] ≠ Spot.under (.file user name) root := by
  constructor
  · intro heq
    have hlength := congrArg List.length heq
    simp [Spot.under, Spot.steps] at hlength
  · intro heq
    have habove := congrArg List.dropLast heq
    rw [List.dropLast_concat, Spot.dropLast_file] at habove
    cases Spot.under_injective habove

namespace Upload

variable {result : Except StoreError Unit}

/-- Whatever a store came to, it has left alone all but its target and a directory that it made. -/
theorem Over.sameAt (h : Over root user name payload d₀ d result)
    (hfooted : Footed v root user d₀) {q : Place} (htarget : q ≠ Spot.under (.file user name) root)
    (hfolder : q = Spot.under (.folder user) root →
      d₀.node? (Spot.under (.folder user) root) ≠ none) : SameAt d₀ d q := by
  cases result with
  | ok _ =>
    obtain ⟨-, hplaces, -⟩ := h
    exact hplaces.sameAt_withFolder hfooted htarget hfolder
  | error e =>
    rcases h with rfl | ⟨-, hplaces⟩
    · exact SameAt.refl d q
    · exact hplaces.sameAt_withFolder hfooted id hfolder

/-- What a store that failed has done is to make a directory for the user, or nothing. -/
theorem Over.undone {e : StoreError} (h : Over root user name payload d₀ d (.error e))
    (hfooted : Footed v root user d₀) :
    (∀ q, SameAt d₀ d q) ∨ d₀.node? (Spot.under (.folder user) root) = none ∧
      (∃ mode, d.node? (Spot.under (.folder user) root) = some (.directory mode)) ∧
      ∀ q, q ≠ Spot.under (.folder user) root → SameAt d₀ d q := by
  rcases h with rfl | ⟨⟨mode, hmode⟩, hplaces⟩
  · exact .inl fun q => SameAt.refl d q
  · by_cases hnone : d₀.node? (Spot.under (.folder user) root) = none
    · refine .inr ⟨hnone, ⟨mode, ?_⟩, fun q hq => ?_⟩
      · rw [hplaces.node _ id, hmode]
      · exact hplaces.sameAt_withFolder hfooted id fun heq => absurd heq hq
    · exact .inl fun q => hplaces.sameAt_withFolder hfooted id fun _ => hnone

/-- After a success the user has a directory, and the payload is in it. -/
theorem Over.done (h : Over root user name payload d₀ d (.ok ())) :
    (∃ mode, d.node? (Spot.under (.folder user) root) = some (.directory mode)) ∧
      d.entryAt? (Spot.under (.file user name) root) = some (.file payload) := by
  obtain ⟨⟨mode, hmode⟩, hplaces, hentry⟩ := h
  have hne : ¬Spot.under (.folder user) root = Spot.under (.file user name) root := fun heq =>
    nomatch Spot.under_injective heq
  refine ⟨⟨mode, ?_⟩, hentry⟩
  rw [hplaces.node _ hne, hmode]

end Upload

/-- A store that succeeds has found the whole payload in its source. -/
theorem payload_of_ok {faults : Nat → Option Errno} {s : State} {length : UInt32} {body : Source}
    (hresult : (v.storeWith faults s user name length body).result = .ok ()) :
    length.toNat ≤ body.front.length ∧
      Order.padded ⟨user, name, length, body⟩ = body.front.take length.toNat := by
  have hunread := storeWith_unread v faults s user name
    (Order.length_padded ⟨user, name, length, body⟩)
    (Order.front_append_missing ⟨user, name, length, body⟩)
  rw [hresult] at hunread
  obtain ⟨-, hfront, -⟩ := hunread
  rw [Nat.sub_zero, List.drop_length, List.nil_append] at hfront
  obtain ⟨hpadded, hlength⟩ := Order.padded_eq hfront
  rw [Order.payload, List.length_take] at hlength
  exact ⟨by dsimp only at hlength; omega, hpadded⟩

section
variable (hatomic : v.options.atomic = true) {s : State} (hfooted : Footed v root user s.disk)
  (hstaging : ∀ target, s.disk.node? (Spot.under .staging root) ≠ some (.link target))
include hatomic hfooted hstaging

/-- The course of a store ends with what it came to. -/
theorem storeWith_over (faults : Nat → Option Errno) (hname : accepts name) (length : UInt32)
    (body : Source) :
    Upload.Over root user name (Order.padded ⟨user, name, length, body⟩) s.disk
      (v.storeWith faults s user name length body).state.disk
      (v.storeWith faults s user name length body).result := by
  obtain ⟨result, hend⟩ := Upload.run_finished v faults s
    (Upload.steady_start v user name length body)
  have hresult : (v.storeWith faults s user name length body).result = result := by
    simp [storeWith, Upload.result?, hend]
  have hcourse := Upload.runFor_induction
    (motive := fun u s' => Upload.OnCourse v root user name _ _ _ _ s.disk u s'.disk)
    v (Upload.start v user name length body).stepsLeft faults
    (fun n _ _ _ h => h.step hatomic hfooted hstaging hname rfl (faults n))
    (Upload.onCourse_start hname root (Order.length_padded ⟨user, name, length, body⟩)
      (Order.front_append_missing ⟨user, name, length, body⟩) s.disk)
  have hover := hcourse.course
  unfold Upload.run at hend
  rw [Upload.Course, hend] at hover
  rw [hresult]
  exact hover

/-- **A store aside does all or nothing.**  Whatever the tree around the vault is like, with links
and directories in the way, and wherever the store fails: after a success the payload stands in a
regular file under the name, which replaces what was there, a link included, and the user has a
directory; after a failure nothing has changed but that the user may have a directory, if the name
was accepted.  All else is as it was, and so is what stands aside. -/
theorem storeWith_aside (faults : Nat → Option Errno) (name : Bytes) (length : UInt32)
    (body : Source) :
    let stored := v.storeWith faults s user name length body
    let disk := stored.state.disk
    let folder := Spot.under (.folder user) root
    let target := Spot.under (.file user name) root
    (match stored.result with
    | .ok () =>
      length.toNat ≤ body.front.length ∧
      disk.entryAt? target = some (.file (body.front.take length.toNat)) ∧
      (∃ mode, disk.node? folder = some (.directory mode)) ∧
      ∀ q, q ≠ target → (q = folder → s.disk.node? folder ≠ none) → SameAt s.disk disk q
    | .error _ =>
      (∀ q, SameAt s.disk disk q) ∨
      accepts name ∧ s.disk.node? folder = none ∧
        (∃ mode, disk.node? folder = some (.directory mode)) ∧
        ∀ q, q ≠ folder → SameAt s.disk disk q) ∧
    ∀ entry, SameAt s.disk disk (Spot.under .staging root ++ [entry]) := by
  intro stored disk folder target
  by_cases hname : accepts name
  · have hover : Upload.Over root user name _ s.disk disk stored.result :=
      storeWith_over hatomic hfooted hstaging faults hname length body
    refine ⟨?_, fun entry => ?_⟩
    · split
      next hresult =>
        rw [hresult] at hover
        obtain ⟨hfolder, hentry⟩ := hover.done
        obtain ⟨hlength, hpayload⟩ := payload_of_ok hresult
        rw [hpayload] at hentry
        exact ⟨hlength, hentry, hfolder, fun q => hover.sameAt hfooted⟩
      next e hresult =>
        rw [hresult] at hover
        rcases hover.undone hfooted with hsame | ⟨hnone, hfolder, hsame⟩
        · exact .inl hsame
        · exact .inr ⟨hname, hnone, hfolder, hsame⟩
    · obtain ⟨hfolder, htarget⟩ := staging_append_ne root entry user name
      exact hover.sameAt hfooted htarget fun heq => absurd heq hfolder
  -- a name that is not accepted ends the store before it has begun
  · obtain ⟨fault, hresolve⟩ := resolve_of_not_accepts v user hname
    have hstored : stored = ⟨.error (.vault (.invalidName fault) length.toNat), body, s⟩ :=
      storeWith_of_resolve hresolve faults s length body
    have hsame (q : Place) : SameAt s.disk disk q := by
      show SameAt s.disk stored.state.disk q
      rw [hstored]
      exact SameAt.refl _ q
    rw [hstored]
    exact ⟨.inl hsame, fun entry => hsame _⟩

end

/-- A link under the name is replaced and the file that it leads to is not touched; where the file
aside cannot be renamed, the link is still there. -/
theorem storeWith_aside_link :
    let v : Vault := { base := { absolute := true, steps := [] }, options := { chunkSize := 2 } }
    let disk : Disk :=
      { nodes := ⟨[(Spot.under .staging [], .directory 0o755),
          (Spot.under (.folder 7) [], .directory 0o755),
          (Spot.under (.file 7 [0x61]) [], .link [slash, 0x78]), ([[0x78]], .file 0)]⟩
        files := ⟨[(0, { content := .ofBytes [9], mode := 0o644 })]⟩
        nextFile := 1 }
    let body : Source := ⟨[1], [.segment [2, 3]]⟩
    let stored := v.storeWith (fun _ => none) { disk } 7 [0x61] 3 body
    let failed :=
      v.storeWith (fun n => if n = 7 then some .noSpace else none) { disk } 7 [0x61] 3 body
    stored.result = .ok () ∧
      stored.state.disk.entryAt? (Spot.under (.file 7 [0x61]) []) = some (.file [1, 2, 3]) ∧
      SameAt disk stored.state.disk [[0x78]] ∧
      failed.result = .error (.vault (.system { errno := .noSpace }) 0) ∧
      SameAt disk failed.state.disk (Spot.under (.file 7 [0x61]) []) := by
  intro v disk body stored failed
  have hfolder : disk.node? (Spot.under (.folder 7) []) = some (.directory 0o755) := by
    decide +kernel
  have hstaging : disk.node? (Spot.under .staging []) = some (.directory 0o755) := by
    decide +kernel
  have hfooted : Footed v [] 7 disk :=
    .of_entries ⟨0o755, rfl⟩ (fun target => by rw [hfolder]; nofun) (by decide)
  have hlink (target : Bytes) : disk.node? (Spot.under .staging []) ≠ some (.link target) := by
    rw [hstaging]
    nofun
  have hstored : (v.storeWith (fun _ => none) { disk } 7 [0x61] 3 body).result = .ok () := by
    decide +kernel
  have hfailed : (v.storeWith (fun n => if n = 7 then some .noSpace else none) { disk } 7 [0x61] 3
      body).result = .error (.vault (.system { errno := .noSpace }) 0) := by
    decide +kernel
  obtain ⟨hdone, -⟩ :=
    storeWith_aside (v := v) (s := { disk }) rfl hfooted hlink (fun _ => none) [0x61] 3 body
  rw [hstored] at hdone
  obtain ⟨-, hentry, -, hsame⟩ := hdone
  obtain ⟨hundone, -⟩ :=
    storeWith_aside (v := v) (s := { disk }) rfl hfooted hlink
      (fun n => if n = 7 then some .noSpace else none) [0x61] 3 body
  rw [hfailed] at hundone
  have htarget : [[0x78]] ≠ Spot.under (.file 7 [0x61]) [] := by decide +kernel
  have helse : [[0x78]] ≠ Spot.under (.folder 7) [] := by decide +kernel
  refine ⟨hstored, hentry, hsame _ htarget fun heq => absurd heq helse, hfailed, ?_⟩
  rcases hundone with hsame | ⟨-, hnone, -⟩
  · exact hsame _
  · rw [hfolder] at hnone
    cases hnone

end UserVault.Vault
