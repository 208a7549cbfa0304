import UserVault.Proofs.Vault.Touched

/-!
# Stores in place, in any tree

A store that writes to the user's file itself cannot bring back what was there before, but it leaves
no partial file that it may take away, whatever the tree is like and whatever fails.  Until it has
opened the file it has made a directory for the user at most (`Shut`).  From then on it touches
nothing but the name and what the name leads to, and where it fails it takes the name away
(`Writing`).
-/

namespace UserVault.Vault

open Disk Link

variable {v : Vault} {root : Place} {user : UInt32} {name payload missing tail : Bytes}
  {barrier : Option FaultKind} {d₀ d d' : Disk} {u u' : Upload} {fault : Option Errno}

/-! ## 1. What a store has done so far -/

/-- The user has a directory, which may have been made, and nothing else has been done. -/
structure Prepared (v : Vault) (root : Place) (user : UInt32) (d₀ d : Disk) : Prop where
  footed : Footed v root user d₀
  folder : HasFolder root user d₀
  eq : d = withFolder d₀ root user

/-- What a store that has opened a file in the tree `d` has done when it comes to a result. -/
def Ended (v : Vault) (root : Place) (user : UInt32) (name payload : Bytes) (d d' : Disk)
    (result : Except StoreError Unit) : Prop :=
  (∀ q, ¬Touched v root user name d q → SameAt d d' q) ∧
    match result with
    | .ok () => (∀ target, d.node? (Spot.under (.file user name) root) ≠ some (.link target)) →
      d'.entryAt? (Spot.under (.file user name) root) = some (.file payload)
    | .error _ => d.mayChange (Spot.under (.file user name) root) →
      d'.node? (Spot.under (.file user name) root) = none

namespace Upload

/-- An upload that has not opened a file, or has failed to, has made a directory at most. -/
def Shut (v : Vault) (root : Place) (user : UInt32) (payload : Bytes) (d₀ : Disk) (u : Upload)
    (d : Disk) : Prop :=
  match u.stage with
  | .preparing => u.remaining = payload.length ∧ d = d₀
  | .takingTurn | .opening => u.remaining = payload.length ∧ Prepared v root user d₀ d
  | .givingTurn result | .finished result =>
    (∃ e, result = .error e) ∧ (d = d₀ ∨ Prepared v root user d₀ d)
  | _ => False

/-- An upload that has opened a file in the tree `d` is at work on it, or has come to a result. -/
def Writing (v : Vault) (root : Place) (user : UInt32) (name payload : Bytes) (d : Disk)
    (u : Upload) (d' : Disk) : Prop :=
  match u.stage with
  | .copying _ none | .flushing _ none | .syncing _ none | .discarding none _ =>
    Altered v root user name d d' ∧ WritesThrough v root user name payload d u d'
  | .givingTurn result | .finished result => Ended v root user name payload d d' result
  | _ => False

theorem shut_settle {e : StoreError} (h : d = d₀ ∨ Prepared v root user d₀ d) :
    Shut v root user payload d₀ (u.settle (.error e)) d := by
  unfold Shut
  rcases stage_settle u (.error e) with hstage | hstage
  · rw [hstage]
    exact ⟨⟨e, rfl⟩, h⟩
  · rw [hstage]
    exact ⟨⟨e, rfl⟩, h⟩

theorem writing_settle {result : Except StoreError Unit}
    (h : Ended v root user name payload d d' result) :
    Writing v root user name payload d (u.settle result) d' := by
  unfold Writing
  rcases stage_settle u result with hstage | hstage
  · rw [hstage]
    exact h
  · rw [hstage]
    exact h

theorem Shut.opened? (h : Shut v root user payload d₀ u d) : u.opened? = none := by
  unfold Shut at h
  unfold Upload.opened?
  split at h <;> simp_all

theorem writing_of_opened (hopened : u.opened? = some none)
    (haltered : Altered v root user name d d')
    (hwrites : WritesThrough v root user name payload d u d') :
    Writing v root user name payload d u d' := by
  unfold Upload.opened? at hopened
  unfold Writing
  split at hopened <;> simp_all

theorem Writing.through (h : Writing v root user name payload d u d') {staged : Option Path}
    (hopened : u.opened? = some staged) :
    staged = none ∧ Altered v root user name d d' ∧
      WritesThrough v root user name payload d u d' := by
  unfold Upload.opened? at hopened
  unfold Writing at h
  split at hopened <;> cases hopened <;> split at h <;> simp_all

/-! ## 2. What a step does -/

/-- An upload of a user's file that accounts for its payload. -/
structure Ours (v : Vault) (user : UInt32) (name payload missing tail : Bytes)
    (barrier : Option FaultKind) (u : Upload) : Prop where
  user_eq : u.user = user
  target_eq : u.target = v.pathOf (.file user name)
  accounts : u.Accounts payload missing tail barrier

theorem Ours.act {s : State} (h : u.Ours v user name payload missing tail barrier)
    (hact : Act v fault s.disk u (u.step v fault s).1 (u.step v fault s).2.disk) :
    (u.step v fault s).1.Ours v user name payload missing tail barrier := by
  obtain ⟨huser, htarget⟩ := hact.names
  exact ⟨huser.trans h.user_eq, htarget.trans h.target_eq, accounts_step v fault s h.accounts⟩

/-- What the tree allows for once a file has been opened in it. -/
structure Entered (v : Vault) (root : Place) (user : UInt32) (name : Bytes) (d₀ : Disk) : Prop where
  footed : Footed v root user d₀
  mayChange : d₀.mayChange (Spot.under (.file user name) root) →
    (withFolder d₀ root user).mayChange (Spot.under (.file user name) root)

theorem Shut.quiet (h : Shut v root user payload d₀ u d) (hquiet : Quiet v fault d u u') :
    Shut v root user payload d₀ u' d := by
  cases hquiet with
  | refused error hwhy =>
    apply shut_settle
    unfold Shut at h
    rcases hwhy with ⟨hstage, -⟩ | ⟨hstage, -⟩
    · rw [hstage] at h
      exact .inl h.2
    · rw [hstage] at h
      exact .inr h.2
  | waited turn stage hstage hstage' =>
    unfold Shut at h
    rw [hstage] at h
    rcases hstage' with rfl | rfl <;> exact h
  | left result turn stage hstage hstage' =>
    unfold Shut at h
    rw [hstage] at h
    rcases hstage' with rfl | rfl <;> exact h
  | finished => exact h
  | gaveUp staged cause body remaining hopened =>
    rw [h.opened?] at hopened
    cases hopened
  | delayed | copied | flushed | synced | completed => simp_all [Shut]

section
variable (hours : u.Ours v user name payload missing tail barrier) (hname : accepts name)
include hours hname

/-- Until a file is open, a step makes a directory at most, or opens the file. -/
theorem Shut.act (hatomic : v.options.atomic = false) (hsited : Sited v root user d₀)
    (h : Shut v root user payload d₀ u d) (hact : Act v fault d u u' d') :
    Shut v root user payload d₀ u' d' ∨
      u'.opened? ≠ none ∧ Entered v root user name d₀ ∧
        Writing v root user name payload (withFolder d₀ root user) u' d' := by
  cases hact with
  | idle _ hquiet => exact .inl (h.quiet hquiet)
  | unprepared e _ hstage hmake =>
    unfold Shut at h
    rw [hstage] at h
    obtain ⟨-, rfl⟩ := h
    rw [hours.user_eq] at hmake
    exact .inl (shut_settle (.inl (hsited.makeDirectories_error hmake)))
  | prepared _ turn stage hstage hmake hstage' =>
    unfold Shut at h
    rw [hstage] at h
    obtain ⟨hremaining, rfl⟩ := h
    rw [hours.user_eq] at hmake
    obtain ⟨hfooted, hfolder, heq⟩ := hsited.makeDirectories_ok hmake
    left
    rcases hstage' with rfl | rfl <;> exact ⟨hremaining, hfooted, hfolder, heq⟩
  | opened file staged _ hstage hopen =>
    unfold Shut at h
    rw [hstage] at h
    obtain ⟨hremaining, hfooted, -, rfl⟩ := h
    rw [openStore_inPlace hatomic, hours.target_eq] at hopen
    split at hopen
    · cases hopen
    next hcreate =>
      cases hopen
      exact .inr ⟨Option.some_ne_none none, ⟨hfooted, hsited.mayChange hfooted hname hcreate⟩,
        writesThrough_of_create hfooted.withFolder hsited.known_withFolder hname hcreate rfl
          hremaining⟩
  | wrote | published | discarded => simp_all [Shut]

variable (hfile : ∀ file, u.handle? = some file → ∃ id, file.target = .file id)
include hfile

omit hname in
theorem Writing.quiet (h : Writing v root user name payload d u d')
    (hquiet : Quiet v fault d' u u') : Writing v root user name payload d u' d' := by
  have hgoesOn (staged : Option Path) (hopened : u'.opened? = some staged) :
      Writing v root user name payload d u' d' := by
    obtain ⟨rfl, haltered, hwrites⟩ := h.through (hquiet.opened hopened)
    apply writing_of_opened hopened haltered
    cases hwrites with
    | file id hrecord hown hapart hkeeps =>
      exact .file id hrecord hown hapart (hquiet.keeps hkeeps hopened)
    | device hdevice =>
      refine .device fun file hhandle => ?_
      obtain ⟨file', hhandle', htarget⟩ := hquiet.handle hhandle
      rw [htarget]
      exact hdevice file' hhandle'
  cases hquiet with
  | refused error hwhy =>
    unfold Writing at h
    rcases hwhy with ⟨hstage, -⟩ | ⟨hstage, -⟩ <;> rw [hstage] at h <;> exact h.elim
  | waited turn stage hstage =>
    unfold Writing at h
    rw [hstage] at h
    exact h.elim
  | completed file hstage =>
    have hopened : u.opened? = some none := by rw [Upload.opened?, hstage]
    have hhandle : u.handle? = some file := by rw [Upload.handle?, hstage]
    obtain ⟨-, haltered, hwrites⟩ := h.through hopened
    apply writing_settle
    refine ⟨haltered.same, fun hlink => ?_⟩
    cases hwrites with
    | file id hrecord hown hapart hkeeps =>
      -- nothing is done before all of the payload has been read and written
      have hwhole : (d'.contentOf id).bytes = payload := by
        apply hkeeps.whole hours.accounts
        · rw [hasRead, hstage]
        · rw [Intact, hstage]
          trivial
      rw [entryAt?_of_file (hown hlink), hwhole]
    | device hdevice =>
      obtain ⟨device, hdevice⟩ := hdevice file hhandle
      obtain ⟨id, hid⟩ := hfile file hhandle
      rw [hdevice] at hid
      cases hid
  | left result turn stage hstage hstage' =>
    unfold Writing at h
    rw [hstage] at h
    rcases hstage' with rfl | rfl <;> exact h
  | finished => exact h
  | delayed | copied | flushed | synced | gaveUp => exact hgoesOn _ rfl

/-- Once a file is open, a step works on it, or takes the name away. -/
theorem Writing.act (hfooted : Footed v root user d) (h : Writing v root user name payload d u d')
    {d'' : Disk} (hact : Act v fault d' u u' d'') :
    Writing v root user name payload d u' d'' := by
  cases hact with
  | idle _ hquiet => exact h.quiet hours hfile hquiet
  | unprepared | prepared | opened => simp_all [Writing]
  | wrote file staged id bytes body hstage htarget hclean hread =>
    have hopened : u.opened? = some staged := by rw [Upload.opened?, hstage]
    have hhandle : u.handle? = some file := by rw [Upload.handle?, hstage]
    obtain ⟨rfl, haltered, hwrites⟩ := h.through hopened
    cases hwrites with
    | file id' hrecord hown hapart hkeeps =>
      obtain rfl := hkeeps.id_eq hhandle htarget
      refine writing_of_opened rfl (haltered.overwrite hapart _)
        (.file id' ?_ (fun hlink => ?_) (fun q hq => ?_)
          (hkeeps.write hours.accounts hrecord hstage htarget hclean hread))
      · rw [record?_overwrite, if_pos rfl]
        simpa using hrecord
      · rw [node?_overwrite]
        exact hown hlink
      · rw [node?_overwrite]
        exact hapart q hq
    | device hdevice =>
      obtain ⟨device, hdevice⟩ := hdevice file hhandle
      rw [htarget] at hdevice
      cases hdevice
  | published staged _ hstage =>
    have hopened : u.opened? = some (some staged) := by rw [Upload.opened?, hstage]
    obtain ⟨hnone, -⟩ := h.through hopened
    cases hnone
  | discarded staged cause hstage =>
    have hopened : u.opened? = some staged := by rw [Upload.opened?, hstage]
    obtain ⟨rfl, haltered, -⟩ := h.through hopened
    apply writing_settle
    rw [Option.getD_none, hours.target_eq]
    exact ⟨fun q hq => haltered.sameAt_withdraw hfooted hname hq,
      haltered.node?_withdraw hfooted hname⟩

end

/-! ## 3. What a run does -/

/-- A device keeps nothing, so that writing to it leaves the tree alone. -/
theorem write_device {file : Handle} {device : Device} (hdevice : file.target = .device device)
    (d : Disk) (bytes : Bytes) (fault : Option Errno) :
    (d.write file bytes fault).2 = d ∧
      ∀ file', (d.write file bytes fault).1 = .ok file' → file'.target = .device device := by
  have hperform (disk : Disk) (h : d.perform file bytes = .ok disk) : disk = d := by
    rw [perform, hdevice] at h
    cases device with
    | full =>
      dsimp only at h
      split at h <;> cases h
      rfl
    | null =>
      cases h
      rfl
  unfold Disk.write
  split
  · exact ⟨rfl, fun _ heq => by cases heq⟩
  · split
    next disk hcall =>
      obtain ⟨-, hok⟩ := attempt_eq_ok hcall
      refine ⟨hperform disk hok, fun file' heq => ?_⟩
      cases heq
      exact hdevice
    next =>
      split
      · exact ⟨rfl, fun _ heq => by cases heq⟩
      · refine ⟨rfl, fun file' heq => ?_⟩
        cases heq
        exact hdevice

/-- An upload that writes to a device goes on with it or gives up. -/
theorem step_device {file : Handle} {device : Device} (hhandle : u.handle? = some file)
    (hdevice : file.target = .device device) (v : Vault) (fault : Option Errno) (s : State) :
    (u.step v fault s).2.disk = s.disk ∧
      (u.step v fault s).1.user = u.user ∧ (u.step v fault s).1.target = u.target ∧
      (u.step v fault s).1.opened? = u.opened? ∧
      ∀ file', (u.step v fault s).1.handle? = some file' → file'.target = .device device := by
  have hsame (file' : Handle) (h : some file = some file') : file'.target = .device device := by
    cases h
    exact hdevice
  have hnone (file' : Handle) (h : none = some file') : file'.target = .device device := by cases h
  cases hstage : u.stage with
  | copying file' staged =>
    have hfile : file' = file := by simpa [Upload.handle?, hstage] using hhandle
    subst hfile
    simp only [step, hstage]
    split
    · exact ⟨rfl, rfl, rfl, by simp [Upload.opened?, hstage], hsame⟩
    · dsimp only [copyChunk]
      split
      · exact ⟨rfl, rfl, rfl, by simp [Upload.opened?, hstage], hnone⟩
      next bytes body hread =>
        obtain ⟨hdisk, hkept⟩ := write_device hdevice s.disk bytes fault
        split
        next hwrite =>
          rw [hwrite] at hdisk
          exact ⟨hdisk, rfl, rfl, by simp [Upload.opened?, hstage], hnone⟩
        next file' disk hwrite =>
          rw [hwrite] at hdisk hkept
          refine ⟨hdisk, rfl, rfl, by simp [Upload.opened?, hstage], fun file'' heq => ?_⟩
          cases heq
          exact hkept file' rfl
  | flushing file' staged =>
    have hfile : file' = file := by simpa [Upload.handle?, hstage] using hhandle
    subst hfile
    simp only [step, hstage]
    split
    · exact ⟨rfl, rfl, rfl, by simp [Upload.opened?, hstage], hnone⟩
    · exact ⟨rfl, rfl, rfl, by simp [Upload.opened?, hstage], hsame⟩
  | syncing file' staged =>
    have hfile : file' = file := by simpa [Upload.handle?, hstage] using hhandle
    subst hfile
    simp only [step, hstage]
    split
    · exact ⟨rfl, rfl, rfl, by simp [Upload.opened?, hstage], hnone⟩
    -- a device has no medium to wait for
    next hcall =>
      obtain ⟨-, hok⟩ := attempt_eq_ok hcall
      rw [Handle.sync, hdevice] at hok
      cases hok
  | _ => simp [Upload.handle?, hstage] at hhandle

theorem ours_start (hname : accepts name) {length : UInt32} {body : Source}
    (hlength : payload.length = length.toNat) (hfront : body.front ++ missing = payload ++ tail) :
    (start v user name length body).Ours v user name payload missing tail body.barrier := by
  have haccounts := accounts_start v user name hlength hfront
  rw [start, resolve_of_accepts v user hname] at haccounts ⊢
  exact ⟨rfl, rfl, haccounts⟩

theorem shut_start (hname : accepts name) (root : Place) {length : UInt32}
    (hlength : payload.length = length.toNat) (body : Source) (d : Disk) :
    Shut v root user payload d (start v user name length body) d := by
  rw [start, resolve_of_accepts v user hname]
  exact ⟨hlength.symm, rfl⟩

section
variable (hname : accepts name)
include hname

theorem Writing.step (hfooted : Footed v root user d) {s : State}
    (hours : u.Ours v user name payload missing tail barrier)
    (h : Writing v root user name payload d u s.disk) (fault : Option Errno) :
    (u.step v fault s).1.Ours v user name payload missing tail barrier ∧
      Writing v root user name payload d (u.step v fault s).1 (u.step v fault s).2.disk := by
  by_cases hfile : ∀ file, u.handle? = some file → ∃ id, file.target = .file id
  · have hact := act_step (v := v) (s := s) hfile fault
    exact ⟨hours.act hact, h.act hours hname hfile hfooted hact⟩
  -- what is no file is a device, and writing to it is none of the acts
  · obtain ⟨file, hhandle, device, hdevice⟩ :
        ∃ file, u.handle? = some file ∧ ∃ device, file.target = .device device := by
      obtain ⟨file, hfile⟩ := not_forall.mp hfile
      obtain ⟨hhandle, hfile⟩ := Classical.not_imp.mp hfile
      cases htarget : file.target with
      | file id => exact absurd ⟨id, htarget⟩ hfile
      | device device => exact ⟨file, hhandle, device, htarget⟩
    obtain ⟨hdisk, huser, htarget, hopened, hkept⟩ := step_device hhandle hdevice v fault s
    refine ⟨⟨huser.trans hours.user_eq, htarget.trans hours.target_eq,
      accounts_step v fault s hours.accounts⟩, ?_⟩
    obtain ⟨staged, hstaged⟩ := exists_opened hhandle
    obtain ⟨rfl, haltered, -⟩ := h.through hstaged
    rw [hdisk]
    exact writing_of_opened (hopened.trans hstaged) haltered
      (.device fun file' hfile' => ⟨device, hkept file' hfile'⟩)

variable (hatomic : v.options.atomic = false) (hsited : Sited v root user d₀)
include hatomic hsited

theorem Shut.step {s : State} (hours : u.Ours v user name payload missing tail barrier)
    (h : Shut v root user payload d₀ u s.disk) (fault : Option Errno) :
    (u.step v fault s).1.Ours v user name payload missing tail barrier ∧
      (Shut v root user payload d₀ (u.step v fault s).1 (u.step v fault s).2.disk ∨
        (u.step v fault s).1.opened? ≠ none ∧ Entered v root user name d₀ ∧
          Writing v root user name payload (withFolder d₀ root user) (u.step v fault s).1
            (u.step v fault s).2.disk) := by
  have hfile (file : Handle) (hhandle : u.handle? = some file) : ∃ id, file.target = .file id := by
    rw [handle?_eq_none h.opened?] at hhandle
    cases hhandle
  have hact := act_step (v := v) (s := s) hfile fault
  exact ⟨hours.act hact, h.act hours hname hatomic hsited hact⟩

/-- Whether a file has been opened by now decides what a store has done. -/
theorem shut_or_writing (faults : Nat → Option Errno) {s : State}
    (hours : u.Ours v user name payload missing tail barrier)
    (h : Shut v root user payload d₀ u s.disk) (n : Nat) :
    (u.runFor v n faults s).1.Ours v user name payload missing tail barrier ∧
      ((∀ k ≤ n, (u.runFor v k faults s).1.opened? = none) ∧
          Shut v root user payload d₀ (u.runFor v n faults s).1 (u.runFor v n faults s).2.disk ∨
        (∃ k ≤ n, (u.runFor v k faults s).1.opened? ≠ none) ∧ Entered v root user name d₀ ∧
          Writing v root user name payload (withFolder d₀ root user) (u.runFor v n faults s).1
            (u.runFor v n faults s).2.disk) := by
  induction n with
  | zero =>
    refine ⟨hours, .inl ⟨fun k hk => ?_, h⟩⟩
    rw [Nat.le_zero.mp hk]
    exact h.opened?
  | succ n ih =>
    rw [runFor_concat]
    obtain ⟨hours, ⟨hnever, hshut⟩ | ⟨⟨k, hk, hopened⟩, hentered, hwriting⟩⟩ := ih
    · obtain ⟨hours, hshut' | ⟨hopened, hwriting⟩⟩ :=
        hshut.step hname hatomic hsited hours (faults n)
      · refine ⟨hours, .inl ⟨fun k hk => ?_, hshut'⟩⟩
        rcases Nat.le_succ_iff.mp hk with hk | rfl
        · exact hnever k hk
        · rw [runFor_concat]
          exact hshut'.opened?
      · refine ⟨hours, .inr ⟨⟨n + 1, Nat.le_refl _, ?_⟩, hwriting⟩⟩
        rwa [runFor_concat]
    · obtain ⟨hours, hwriting⟩ :=
        hwriting.step hname hentered.footed.withFolder hours (faults n)
      exact ⟨hours, .inr ⟨⟨k, Nat.le_succ_of_le hk, hopened⟩, hentered, hwriting⟩⟩

end

end Upload

/-! ## 4. What the whole store does -/

/-- To make a directory for the user changes nothing else. -/
theorem Prepared.undone (h : Prepared v root user d₀ d) :
    (∀ q, SameAt d₀ d q) ∨ d₀.node? (Spot.under (.folder user) root) = none ∧
      (∃ mode, d.node? (Spot.under (.folder user) root) = some (.directory mode)) ∧
      ∀ q, q ≠ Spot.under (.folder user) root → SameAt d₀ d q := by
  obtain ⟨hfooted, ⟨mode, hmode⟩, rfl⟩ := h
  by_cases hnone : d₀.node? (Spot.under (.folder user) root) = none
  · exact .inr ⟨hnone, ⟨mode, hmode⟩, fun q hq =>
      hfooted.sameAt_withFolder fun heq => absurd heq hq⟩
  · exact .inl fun q => hfooted.sameAt_withFolder fun _ => hnone

section
variable (hatomic : v.options.atomic = false) {s : State} (hsited : Sited v root user s.disk)
  (hname : accepts name)
include hatomic hsited hname

/-- A store ends as one that has never opened a file, or as one that has. -/
theorem storeWith_ends (faults : Nat → Option Errno) (length : UInt32) (body : Source) :
    let stored := v.storeWith faults s user name length body
    let opened := ∃ k,
      ((Upload.start v user name length body).runFor v k faults s).1.opened? ≠ none
    ¬opened ∧ (∃ e, stored.result = .error e) ∧
        (stored.state.disk = s.disk ∨ Prepared v root user s.disk stored.state.disk) ∨
      opened ∧ Upload.Entered v root user name s.disk ∧
        Ended v root user name (Order.padded ⟨user, name, length, body⟩)
          (withFolder s.disk root user) stored.state.disk stored.result := by
  intro stored opened
  obtain ⟨result, hend⟩ := Upload.run_finished v faults s
    (Upload.steady_start v user name length body)
  have hresult : stored.result = result := by
    simp [stored, storeWith, Upload.result?, hend]
  have hlength := Order.length_padded ⟨user, name, length, body⟩
  have hfront := Order.front_append_missing ⟨user, name, length, body⟩
  obtain ⟨-, ⟨hnever, hshut⟩ | ⟨⟨k, -, hopened⟩, hentered, hwriting⟩⟩ :=
    Upload.shut_or_writing hname hatomic hsited faults
      (Upload.ours_start hname hlength hfront) (Upload.shut_start hname root hlength body s.disk)
      (Upload.start v user name length body).stepsLeft
  · left
    have hclosed := hshut.opened?
    unfold Upload.run at hend
    rw [Upload.Shut, hend] at hshut
    obtain ⟨⟨e, rfl⟩, hdisk⟩ := hshut
    refine ⟨?_, ⟨e, hresult⟩, hdisk⟩
    rintro ⟨k, hopened⟩
    rcases Nat.le_total k (Upload.start v user name length body).stepsLeft with hle | hle
    · exact hopened (hnever k hle)
    · rw [Upload.runFor_of_le hend hle] at hopened
      exact hopened hclosed
  · right
    unfold Upload.run at hend
    rw [Upload.Writing, hend] at hwriting
    rw [hresult]
    exact ⟨⟨k, hopened⟩, hentered, hwriting⟩

/-- **A store in place leaves no partial file that it may take away.**  Whatever the tree around the
vault is like, with links and directories in the way, and wherever the store fails: after a success
the payload stands in a regular file under the name, unless a link does; after a failure before the
file was open nothing has changed but that the user may have a directory; after a failure since then
nothing stands under the name, as far as the process may take it away.  All else is as it was, but
for a directory that the user did not have and for what the name leads to. -/
theorem storeWith_inPlace (faults : Nat → Option Errno) (length : UInt32) (body : Source) :
    let stored := v.storeWith faults s user name length body
    let disk := stored.state.disk
    let folder := Spot.under (.folder user) root
    let target := Spot.under (.file user name) root
    let opened := ∃ k,
      ((Upload.start v user name length body).runFor v k faults s).1.opened? ≠ none
    (match stored.result with
    | .ok () =>
      length.toNat ≤ body.front.length ∧
      ((∀ link, s.disk.node? target ≠ some (.link link)) →
        disk.entryAt? target = some (.file (body.front.take length.toNat)))
    | .error _ =>
      (¬opened → (∀ q, SameAt s.disk disk q) ∨
        s.disk.node? folder = none ∧ (∃ mode, disk.node? folder = some (.directory mode)) ∧
          ∀ q, q ≠ folder → SameAt s.disk disk q) ∧
      (opened → s.disk.mayChange target → disk.node? target = none)) ∧
    ∀ q, ¬Touched v root user name s.disk q → (q = folder → s.disk.node? folder ≠ none) →
      SameAt s.disk disk q := by
  intro stored disk folder target opened
  rcases storeWith_ends hatomic hsited hname faults length body with
    ⟨hnever, ⟨e, hresult⟩, hdisk⟩ | ⟨hopened, ⟨hfooted, hmay⟩, hsame, hended⟩
  · have hundone : (∀ q, SameAt s.disk disk q) ∨ s.disk.node? folder = none ∧
        (∃ mode, disk.node? folder = some (.directory mode)) ∧
        ∀ q, q ≠ folder → SameAt s.disk disk q := by
      rcases hdisk with hdisk | hprepared
      · left
        intro q
        show SameAt s.disk stored.state.disk q
        rw [hdisk]
        exact SameAt.refl _ q
      · exact hprepared.undone
    rw [hresult]
    refine ⟨⟨fun _ => hundone, fun hopened => absurd hopened hnever⟩, fun q _ hfolder => ?_⟩
    rcases hundone with hsame | ⟨hnone, -, hsame⟩
    · exact hsame q
    · exact hsame q fun heq => hfolder heq hnone
  · refine ⟨?_, fun q hq hfolder => ?_⟩
    · split
      next hresult =>
        rw [hresult] at hended
        obtain ⟨hlength, hpayload⟩ := payload_of_ok hresult
        refine ⟨hlength, fun hlink => ?_⟩
        rw [← hpayload]
        apply hended
        intro link
        have hne : Spot.under (.file user name) root ≠ Spot.under (.folder user) root := fun heq =>
          nomatch Spot.under_injective heq
        rw [(placesKept_withFolder s.disk root user).node _ hne]
        exact hlink link
      next e hresult =>
        rw [hresult] at hended
        exact ⟨fun hnever => absurd hopened hnever, fun _ h => hended (hmay h)⟩
    · have htouched : ¬Touched v root user name (withFolder s.disk root user) q :=
        fun h => hq (hsited.touched hfooted hname h)
      exact (hfooted.sameAt_withFolder hfolder).trans (hsame q htouched)

end

/-- A file is written over.  Where the wait for the medium fails, the link is taken away that the
payload was written through, and nothing has become of other files of the user. -/
theorem storeWith_inPlace_link :
    let v : Vault :=
      { base := { absolute := true, steps := [] }, options := { chunkSize := 2, atomic := false } }
    let disk : Disk :=
      { nodes := ⟨[(Spot.under (.folder 7) [], .directory 0o755),
          (Spot.under (.file 7 [0x61]) [], .link [slash, 0x78]),
          (Spot.under (.file 7 [0x62]) [], .file 1), ([[0x78]], .file 0)]⟩
        files := ⟨[(0, { content := .ofBytes [9], mode := 0o644 }),
          (1, { content := .ofBytes [8], mode := 0o644 })]⟩
        nextFile := 2 }
    let body : Source := ⟨[1], [.segment [2, 3]]⟩
    let stored := v.storeWith (fun _ => none) { disk } 7 [0x62] 3 body
    let failed :=
      v.storeWith (fun n => if n = 6 then some .inputOutput else none) { disk } 7 [0x61] 3 body
    stored.result = .ok () ∧
      stored.state.disk.entryAt? (Spot.under (.file 7 [0x62]) []) = some (.file [1, 2, 3]) ∧
      failed.result = .error (.vault (.system { errno := .inputOutput }) 0) ∧
      failed.state.disk.node? (Spot.under (.file 7 [0x61]) []) = none ∧
      SameAt disk failed.state.disk (Spot.under (.file 7 [0x62]) []) := by
  intro v disk body stored failed
  have hfolder : disk.node? (Spot.under (.folder 7) []) = some (.directory 0o755) := by
    decide +kernel
  have hbase : disk.follow v.base = .ok (.node [] (.directory 0o755)) := rfl
  have hsited : Sited v [] 7 disk := .of_entries hbase hfolder (by decide)
  have hnode : disk.node? (Spot.under (.file 7 [0x62]) []) = some (.file 1) := by decide +kernel
  have hfollow : disk.follow (v.pathOf (.file 7 [0x61])) = .ok (.node [[0x78]] (.file 0)) := by
    decide +kernel
  have hname : accepts [0x61] := by decide +kernel
  have hname' : accepts [0x62] := by decide +kernel
  have hstored : (v.storeWith (fun _ => none) { disk } 7 [0x62] 3 body).result = .ok () := by
    decide +kernel
  have hfailed : (v.storeWith (fun n => if n = 6 then some .inputOutput else none) { disk } 7 [0x61]
      3 body).result = .error (.vault (.system { errno := .inputOutput }) 0) := by
    decide +kernel
  obtain ⟨hdone, -⟩ :=
    storeWith_inPlace (v := v) (s := { disk }) rfl hsited hname' (fun _ => none) 3 body
  rw [hstored] at hdone
  obtain ⟨-, hentry⟩ := hdone
  obtain ⟨hundone, hsame⟩ :=
    storeWith_inPlace (v := v) (s := { disk }) rfl hsited hname
      (fun n => if n = 6 then some .inputOutput else none) 3 body
  rw [hfailed] at hundone
  obtain ⟨-, hgone⟩ := hundone
  refine ⟨hstored, hentry fun link => by simp [hnode], hfailed,
    hgone ⟨2, by decide +kernel⟩ (by decide +kernel), hsame _ ?_ fun heq => ?_⟩
  · -- the link leads to another file
    generalize hplace : Spot.under (.file 7 [0x62]) [] = q
    intro htouched
    cases htouched with
    | target => cases Spot.under_injective hplace
    | vacant hvacant =>
      rw [hfollow] at hvacant
      cases hvacant
    | file hfile hq =>
      rw [hfollow] at hfile
      cases hfile
      rw [← hplace, hnode] at hq
      cases hq
  · cases Spot.under_injective heq

/-- The name stays with a part of the payload where the process may write to the file but not take
it from its directory.  What is written shows under another name of the file.  A directory that the
store has made for the user stays, though the store fails after it. -/
theorem inPlace_leaves_more :
    let v : Vault :=
      { base := { absolute := true, steps := [] }, options := { chunkSize := 1, atomic := false } }
    let folder := Spot.under (.folder 7) []
    let target := Spot.under (.file 7 [0x61]) []
    let other := Spot.under (.file 7 [0x62]) []
    let fixed : Disk :=
      { nodes := ⟨[(target, .file 0), (folder, .directory 0o555)]⟩
        files := ⟨[(0, { content := .ofBytes [9], mode := 0o644 })]⟩
        nextFile := 1
        bound := true }
    let linked : Disk :=
      { nodes := ⟨[(target, .file 0), (other, .file 0), (folder, .directory 0o755)]⟩
        files := ⟨[(0, { content := .ofBytes [9], mode := 0o644 })]⟩
        nextFile := 1
        bound := true }
    let cut := v.storeWith (fun _ => none) { disk := fixed } 7 [0x61] 2 (.ofBytes [1])
    let whole := v.storeWith (fun _ => none) { disk := linked } 7 [0x61] 1 (.ofBytes [1])
    let first := v.storeWith (fun _ => none) { disk := {} } 7 [0x61] 2 (.ofBytes [1])
    Sited v [] 7 fixed ∧ cut.result = .error (.transport .endedInBytes) ∧
      cut.state.disk.entryAt? target = some (.file [1]) ∧
      Sited v [] 7 linked ∧ whole.result = .ok () ∧ ¬SameAt linked whole.state.disk other ∧
      Sited v [] 7 {} ∧ first.result = .error (.transport .endedInBytes) ∧
      ¬SameAt {} first.state.disk folder := by
  intro v folder target other fixed linked cut whole first
  have hfixed : fixed.node? folder = some (.directory 0o555) := by decide +kernel
  have hlinked : linked.node? folder = some (.directory 0o755) := by decide +kernel
  have hempty (q : Place) (hq : q ≠ []) : ({} : Disk).node? q = none := node?_of_ne hq
  refine ⟨.of_entries rfl hfixed (by decide), by decide +kernel, by decide +kernel,
    .of_entries rfl hlinked (by decide), by decide +kernel, fun hsame => ?_,
    ⟨⟨_, rfl⟩, ?_, ?_, ?_⟩, by decide +kernel, fun hsame => ?_⟩
  · have hentry := hsame.entryAt?
    revert hentry
    decide +kernel
  · intro link
    rw [hempty _ (Spot.under_ne_nil _ _)]
    exact nofun
  · intro q id hq
    by_cases hne : q = []
    · subst hne
      cases hq
    · rw [hempty q hne] at hq
      cases hq
  · exact fun _ name => hempty _ (Spot.under_ne_nil _ _)
  · have hnode := hsame.node
    revert hnode
    decide +kernel

end UserVault.Vault
