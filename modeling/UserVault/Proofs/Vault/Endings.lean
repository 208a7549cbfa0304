import UserVault.Vault.Removal
import UserVault.Proofs.Disk.Tree
import UserVault.Proofs.Vault.Upload
import UserVault.Proofs.Vault.Layout

/-!
# What a store comes to

A store takes many steps, and how many depends on how much it copies at once and on turns.  What it
comes to depends on neither: it follows from the file that is open when the copying begins
(`beginStore`), and from the payload.
-/

namespace UserVault.Vault

open Disk Link

/-! ## 1. In one go -/

/-- Opens the file that the payload of a store goes to; the path of a file aside comes with it. -/
def openStore (v : Vault) (d : Disk) (target : Path) (unread : Nat) :
    Except StoreError (Handle × Option Path) × Disk :=
  if v.options.atomic then
    let staged := Upload.stagedPath v d
    match d.createNew staged with
    | .error e => (.error (Upload.stagingFailure v e unread), d)
    | .ok (file, d) => (.ok (file, some staged), d)
  else
    match d.create target with
    | .error e => (.error (Upload.failure e unread), d)
    | .ok (file, d) => (.ok (file, none), d)

/-- What a store has done when the copying begins.  If it does not get there, `unread` bytes of the
payload are still to come. -/
def beginStore (v : Vault) (d : Disk) (user : UInt32) (target : Path) (unread : Nat) :
    Except StoreError (Handle × Option Path) × Disk :=
  match d.makeDirectories (v.userDirectory user) with
  | (.error e, d) => (.error (Upload.failure e unread), d)
  | (.ok (), d) => v.openStore d target unread

theorem openStore_inPlace {v : Vault} (hatomic : v.options.atomic = false) (d : Disk)
    (target : Path) (unread : Nat) :
    v.openStore d target unread =
      match d.create target with
      | .error e => (.error (Upload.failure e unread), d)
      | .ok (file, d) => (.ok (file, none), d) := by
  rw [openStore, hatomic]
  rfl

/-- No path aside comes with a file that is opened in place. -/
theorem staged_of_inPlace {v : Vault} {d d' : Disk} {user : UInt32} {target : Path} {unread : Nat}
    {file : Handle} {staged : Option Path} (hatomic : v.options.atomic = false)
    (h : v.beginStore d user target unread = (.ok (file, staged), d')) : staged = none := by
  unfold beginStore at h
  split at h
  · cases h
  · rw [openStore_inPlace hatomic] at h
    split at h <;> cases h
    rfl

/-- Takes a file away, as far as that can be done. -/
def withdraw (d : Disk) (path : Path) : Disk :=
  match d.unlink path with
  | .ok d => d
  | .error _ => d

/-- What becomes of a file that holds the whole payload: a file aside is put in its place. -/
def endStore (d : Disk) (target : Path) : Option Path → Except StoreError Unit × Disk
  | none => (.ok (), d)
  | some staged =>
    match d.rename staged target with
    | .ok d => (.ok (), d)
    | .error e => (.error (Upload.failure e 0), withdraw d staged)

namespace Upload

variable {v : Vault} {u : Upload} {s : State} {result : Except StoreError Unit} {d : Disk}

/-! ## 2. From each stage to the end -/

/-- Run from here, with no failures of the system, an upload has this result and leaves this
disk. -/
inductive ComesTo (v : Vault) (result : Except StoreError Unit) (d : Disk) : Upload → State → Prop
  | finished {u : Upload} {s : State} (hstage : u.stage = .finished result) (hdisk : s.disk = d) :
    ComesTo v result d u s
  | step {u : Upload} {s : State} (hresult : u.result? = none)
    (hnext : ComesTo v result d (u.step v none s).1 (u.step v none s).2) : ComesTo v result d u s

theorem ComesTo.runFor (h : ComesTo v result d u s) (hsteady : u.Steady) {steps : Nat}
    (hsteps : u.stepsLeft ≤ steps) :
    (u.runFor v steps (fun _ => none) s).1.stage = .finished result ∧
      (u.runFor v steps (fun _ => none) s).2.disk = d := by
  induction h generalizing steps with
  | finished hstage hdisk =>
    rw [runFor_of_finished v steps _ _ hstage]
    exact ⟨hstage, hdisk⟩
  | @step u s hresult hnext ih =>
    have hless := stepsLeft_step_lt v none s hsteady hresult
    obtain ⟨steps, rfl⟩ : ∃ n, steps = n + 1 := ⟨steps - 1, by omega⟩
    rw [runFor_succ v steps _ s hresult]
    exact ih (steady_step hsteady) (by omega)

-- Giving up a turn is a matter of the turns alone.
theorem comesTo_givingTurn (hturn : u.turn ≠ .gone) (hstage : u.stage = .givingTurn result) :
    ComesTo v result s.disk u s := by
  induction hleft : u.turn.stepsLeft using Nat.strongRecOn generalizing u s with
  | _ left ih =>
    refine .step (by rw [result?, hstage]) ?_
    simp only [step, hstage]
    have hless : (u.turn.next u.target s.turns).1.stepsLeft < left := by
      cases hcase : u.turn with
      | gone => exact absurd hcase hturn
      | _ =>
        rw [← hleft, hcase]
        exact Nat.lt_succ_self _
    by_cases hgone : (u.turn.next u.target s.turns).1 = .gone
    · exact .finished (if_pos hgone) rfl
    · exact ih _ hless (s := (s.advance u.target u.turn).2) hgone (if_neg hgone) rfl

theorem comesTo_settle (hdisk : s.disk = d) : ComesTo v result d (u.settle result) s := by
  rw [← hdisk]
  by_cases hturn : u.turn = .gone
  · exact .finished (if_pos hturn) rfl
  · exact comesTo_givingTurn (u := u.settle result) hturn (if_neg hturn)

theorem comesTo_discarding {staged : Option Path} {cause : StoreError}
    (hstage : u.stage = .discarding staged cause)
    (hdisk : withdraw s.disk (staged.getD u.target) = d) : ComesTo v (.error cause) d u s := by
  refine .step (by rw [result?, hstage]) ?_
  simp only [step, hstage]
  exact comesTo_settle hdisk

theorem comesTo_publishing {staged : Path} (hstage : u.stage = .publishing staged)
    (hend : endStore s.disk u.target (some staged) = (result, d)) : ComesTo v result d u s := by
  refine .step (by rw [result?, hstage]) ?_
  cases hrename : s.disk.rename staged u.target with
  | ok disk =>
    simp only [endStore, hrename] at hend
    cases hend
    simp only [step, hstage, attempt, hrename]
    exact comesTo_settle rfl
  | error e =>
    simp only [endStore, hrename] at hend
    cases hend
    simp only [step, hstage, attempt, hrename]
    exact comesTo_discarding rfl rfl

variable {file : Handle} {staged : Option Path} {id : FileId}

/-- A file that has taken all bytes is flushed and synced without a failure. -/
theorem comesTo_flushing (hstage : u.stage = .flushing file staged)
    (htarget : file.target = .file id) (hclean : file.failure = none)
    (hend : endStore s.disk u.target staged = (result, d)) : ComesTo v result d u s := by
  refine .step (by rw [result?, hstage]) ?_
  simp only [step, hstage, attempt, Handle.flush, hclean]
  refine .step rfl ?_
  simp only [step, attempt, Handle.sync, htarget]
  cases staged with
  | none =>
    cases hend
    exact comesTo_settle rfl
  | some staged => exact comesTo_publishing rfl hend

/-! ## 3. Copying -/

/-- A handle that has written `before` to a file, which was empty. -/
def handleAfter (id : FileId) (before : Bytes) : Handle :=
  { target := .file id, offset := before.length }

/-- One chunk that is there is read and written. -/
theorem copyChunk_eq (staged : Option Path) {before chunk tail : Bytes}
    (hempty : d.contentOf id = .empty)
    (hrecord : d.record? id ≠ none) (hdisk : s.disk = d.fill id before)
    (hchunk : chunk.length = min v.chunkSize u.remaining) (hne : chunk ≠ [])
    (hfront : u.body.front = chunk ++ tail) :
    ∃ body : Source, body.front = tail ∧
      u.copyChunk v none (handleAfter id before) staged s =
        ({ u with
            body, remaining := u.remaining - chunk.length
            stage := .copying (handleAfter id (before ++ chunk)) staged },
          { s with disk := d.fill id (before ++ chunk) }) := by
  obtain ⟨body, hread, hrest, -⟩ := Reading.reads_exactly chunk u.body tail hfront
  have hwrite : s.disk.write (handleAfter id before) chunk none =
      (.ok (handleAfter id (before ++ chunk)), d.fill id (before ++ chunk)) := by
    have hperform := perform_fill hempty hrecord before hne
    simp only [Disk.write, handleAfter, hdisk, attempt, hperform, List.length_append]
  refine ⟨body, hrest, ?_⟩
  rw [copyChunk, ← hchunk, hread]
  simp only [hwrite]

/-- Where all of the payload is there, all of it is copied, however many chunks that takes. -/
theorem comesTo_copying (before : Bytes) {payload tail : Bytes} {d' : Disk}
    (hempty : d.contentOf id = .empty) (hrecord : d.record? id ≠ none)
    (hstage : u.stage = .copying (handleAfter id before) staged)
    (hdisk : s.disk = d.fill id before) (hremaining : u.remaining = payload.length)
    (hfront : u.body.front = payload ++ tail)
    (hend : endStore (d.fill id (before ++ payload)) u.target staged = (result, d')) :
    ComesTo v result d' u s := by
  induction hleft : payload.length using Nat.strongRecOn
    generalizing u s before payload with
  | _ left ih =>
    refine .step (by rw [result?, hstage]) ?_
    by_cases hzero : payload = []
    · have hremaining' : u.remaining = 0 := by rw [hremaining, hzero, List.length_nil]
      simp only [step, hstage, hremaining', if_true]
      rw [hzero, List.append_nil, ← hdisk] at hend
      exact comesTo_flushing rfl rfl rfl hend
    · have hpos := List.length_pos_iff.mpr hzero
      have hremaining' : u.remaining ≠ 0 := by omega
      have hchunkSize : 1 ≤ v.chunkSize := Nat.le_max_left ..
      obtain ⟨want, hwant⟩ : ∃ want, want = min v.chunkSize u.remaining := ⟨_, rfl⟩
      have hlength : (payload.take want).length = want := by
        rw [List.length_take]
        omega
      have hne : payload.take want ≠ [] := List.length_pos_iff.mp (by omega)
      have hsplit : u.body.front = payload.take want ++ (payload.drop want ++ tail) := by
        rw [hfront, ← List.append_assoc, List.take_append_drop]
      obtain ⟨body, hrest, hcopy⟩ := copyChunk_eq (v := v) staged hempty hrecord hdisk
        (hlength.trans hwant) hne hsplit
      have hless : (payload.drop want).length < left := by
        rw [List.length_drop]
        omega
      simp only [step, hstage, hremaining', if_false, hcopy]
      refine ih _ hless _ rfl rfl ?_ hrest ?_ rfl
      · rw [hlength, List.length_drop, hremaining]
      · rwa [List.append_assoc, List.take_append_drop]

/-- Where not all of the payload is there, what has been copied is taken away again. -/
theorem comesTo_copying_cut (before : Bytes) (hempty : d.contentOf id = .empty)
    (hrecord : d.record? id ≠ none) (hstage : u.stage = .copying (handleAfter id before) staged)
    (hdisk : s.disk = d.fill id before) (hfront : u.body.front.length < u.remaining) :
    ∃ fault written, ComesTo v (.error (.transport fault))
      (withdraw (d.fill id written) (staged.getD u.target)) u s := by
  induction hleft : u.remaining using Nat.strongRecOn generalizing u s before with
  | _ left ih =>
    have hremaining : u.remaining ≠ 0 := by omega
    have hchunkSize : 1 ≤ v.chunkSize := Nat.le_max_left ..
    have hstep : u.step v none s = u.copyChunk v none (handleAfter id before) staged s := by
      simp only [step, hstage, hremaining, if_false]
    have hnone : u.result? = none := by rw [result?, hstage]
    obtain ⟨want, hwant⟩ : ∃ want, want = min v.chunkSize u.remaining := ⟨_, rfl⟩
    by_cases hchunk : u.body.front.length < want
    · -- the payload is cut off within this chunk, of which nothing is written
      obtain ⟨missing, hmissing⟩ : ∃ missing : Bytes,
          (u.body.front ++ missing).length = want :=
        ⟨List.replicate (want - u.body.front.length) 0, by simp; omega⟩
      have hne : missing ≠ [] := by
        rintro rfl
        rw [List.append_nil] at hmissing
        omega
      obtain ⟨fault, body, hread⟩ := Reading.starves_exactly _ u.body missing rfl hne
      rw [hmissing, hwant] at hread
      refine ⟨fault, before, .step hnone ?_⟩
      rw [hstep, ← hdisk, copyChunk, hread]
      exact comesTo_discarding rfl rfl
    · have hlength : (u.body.front.take want).length = min v.chunkSize u.remaining := by
        rw [List.length_take]
        omega
      have hne : u.body.front.take want ≠ [] := List.length_pos_iff.mp (by omega)
      obtain ⟨body, hrest, hcopy⟩ := copyChunk_eq (v := v) staged hempty hrecord hdisk
        hlength hne (List.take_append_drop want u.body.front).symm
      have hgo := ih (u.copyChunk v none (handleAfter id before) staged s).1.remaining
        (u := (u.copyChunk v none (handleAfter id before) staged s).1)
        (s := (u.copyChunk v none (handleAfter id before) staged s).2)
      rw [hcopy] at hgo
      obtain ⟨fault, written, hend⟩ := hgo (by dsimp only; omega) _ rfl rfl
        (by dsimp only; rw [hrest, List.length_drop]; omega) rfl
      refine ⟨fault, written, .step hnone ?_⟩
      rw [hstep, hcopy]
      exact hend

/-! ## 4. From the start -/

theorem openFile_eq (v : Vault) (u : Upload) (s : State) :
    u.openFile v none s =
      match v.openStore s.disk u.target u.remaining with
      | (.error e, _) => (u.settle (.error e), s)
      | (.ok (file, staged), disk) =>
        ({ u with stage := .copying file staged }, { s with disk }) := by
  unfold openFile openStore
  cases v.options.atomic with
  | true => cases hcreate : s.disk.createNew (stagedPath v s.disk) <;> simp [attempt, hcreate]
  | false => cases s.disk.create u.target <;> simp [attempt]

theorem openStore_error {target : Path} {unread : Nat} {e : StoreError} {d' : Disk}
    (h : v.openStore d target unread = (.error e, d')) : d' = d := by
  unfold openStore at h
  dsimp only at h
  split at h
  · split at h <;> cases h
    rfl
  · split at h <;> cases h
    rfl

variable {user : UInt32} {target : Path} {remaining : Nat}

-- With turns, two more steps lead to the opening of the file.
theorem comesTo_preparing (target : Path) (body : Source) (remaining : Nat)
    (hmake : s.disk.makeDirectories (v.userDirectory user) = (.ok (), d)) :
    ∃ turn turns, ∀ result d', ComesTo v result d'
        { user, target, body, remaining, stage := .opening, turn } { disk := d, turns } →
      ComesTo v result d' { user, target, body, remaining, stage := .preparing } s := by
  cases hexclusive : v.options.exclusive with
  | false =>
    refine ⟨.gone, s.turns, fun result d' hopen => .step rfl ?_⟩
    simp only [step, hmake, hexclusive]
    exact hopen
  | true =>
    let entered := s.turns.enter target
    refine ⟨.inside entered.1, entered.2.acquire entered.1, fun result d' hopen => .step rfl ?_⟩
    simp only [step, hmake, hexclusive, if_true]
    exact .step rfl (.step rfl hopen)

theorem comesTo_of_error (body : Source) {e : StoreError}
    (hbegin : v.beginStore s.disk user target remaining = (.error e, d)) :
    ComesTo v (.error e) d { user, target, body, remaining, stage := .preparing } s := by
  unfold beginStore at hbegin
  split at hbegin
  next e' d' hmake =>
    cases hbegin
    refine .step rfl ?_
    simp only [step, hmake]
    exact comesTo_settle rfl
  next d' hmake =>
    obtain ⟨turn, turns, hprepare⟩ := comesTo_preparing target body remaining hmake
    refine hprepare _ _ (.step rfl ?_)
    simp only [step, openFile_eq, hbegin]
    exact comesTo_settle (openStore_error hbegin).symm

/-- Once its file is open, a store goes on with the copying. -/
theorem comesTo_of_ok (body : Source)
    (hbegin : v.beginStore s.disk user target remaining = (.ok (file, staged), d)) :
    ∃ turn turns, ∀ result d', ComesTo v result d'
        { user, target, body, remaining, stage := .copying file staged, turn }
        { disk := d, turns } →
      ComesTo v result d' { user, target, body, remaining, stage := .preparing } s := by
  unfold beginStore at hbegin
  split at hbegin
  · cases hbegin
  next d' hmake =>
    obtain ⟨turn, turns, hprepare⟩ := comesTo_preparing target body remaining hmake
    refine ⟨turn, turns, fun result d' hcopy => hprepare result d' (.step rfl ?_)⟩
    simp only [step, openFile_eq, hbegin]
    exact hcopy

theorem ComesTo.store {body : Source} {name : Bytes} (hname : accepts name) {length : UInt32}
    (h : ComesTo v result d
      { user, target := v.pathOf (.file user name), body, remaining := length.toNat
        stage := .preparing } s) :
    (v.store s user name length body).result = result ∧
      (v.store s user name length body).state.disk = d := by
  have hstart : start v user name length body =
      { user, target := v.pathOf (.file user name), body, remaining := length.toNat
        stage := .preparing } := by
    rw [start, resolve_of_accepts v user hname]
  rw [← hstart] at h
  obtain ⟨hstage, hdisk⟩ := h.runFor (steady_start v user name length body) (Nat.le_refl _)
  refine ⟨?_, hdisk⟩
  simp only [Vault.store, storeWith, run, result?, hstage, Option.getD_some]

end Upload

/-! ## 5. Whole stores -/

section
variable {v : Vault} {s : State} {user : UInt32} {name : Bytes} {length : UInt32} {body : Source}
  {d : Disk} (hname : accepts name)
include hname

/-- A store that cannot begin has failed, and has made no more than directories. -/
theorem store_of_error (body : Source) {e : StoreError}
    (hbegin : v.beginStore s.disk user (v.pathOf (.file user name)) length.toNat = (.error e, d)) :
    (v.store s user name length body).result = .error e ∧
      (v.store s user name length body).state.disk = d :=
  (Upload.comesTo_of_error body hbegin).store hname

variable {staged : Option Path} {id : FileId} (hempty : d.contentOf id = .empty)
  (hrecord : d.record? id ≠ none)
  (hbegin : v.beginStore s.disk user (v.pathOf (.file user name)) length.toNat =
    (.ok ({ target := .file id }, staged), d))
include hempty hrecord hbegin

/-- A store that begins, and finds all of its payload, ends with a file that holds just this. -/
theorem store_of_front {payload tail : Bytes} (hlength : payload.length = length.toNat)
    (hfront : body.front = payload ++ tail) :
    (v.store s user name length body).result =
        (endStore (d.fill id payload) (v.pathOf (.file user name)) staged).1 ∧
      (v.store s user name length body).state.disk =
        (endStore (d.fill id payload) (v.pathOf (.file user name)) staged).2 := by
  obtain ⟨turn, turns, hcopy⟩ := Upload.comesTo_of_ok body hbegin
  refine (hcopy _ _ ?_).store hname
  exact Upload.comesTo_copying [] hempty hrecord rfl (fill_nil id).symm hlength.symm
    hfront rfl

/-- A store that begins, and does not find all of its payload, takes away what it has written. -/
theorem store_of_cut (hfront : body.front.length < length.toNat) :
    ∃ fault written, (v.store s user name length body).result = .error (.transport fault) ∧
      (v.store s user name length body).state.disk =
        withdraw (d.fill id written) (staged.getD (v.pathOf (.file user name))) := by
  obtain ⟨turn, turns, hcopy⟩ := Upload.comesTo_of_ok body hbegin
  obtain ⟨fault, written, hend⟩ := Upload.comesTo_copying_cut (v := v) []
    (s := { disk := d, turns })
    (u := { user, target := v.pathOf (.file user name), body, remaining := length.toNat, turn
            stage := .copying (Upload.handleAfter id []) staged })
    hempty hrecord rfl (fill_nil id).symm hfront
  exact ⟨fault, written, (hcopy _ _ hend).store hname⟩

end

/-! ## 6. Removals -/

/-- A removal takes the user's file away, with and without turns. -/
theorem remove_of_accepts (v : Vault) (s : State) (user : UInt32) {name : Bytes}
    (hname : accepts name) :
    (v.remove s user name).1 =
        Removal.outcome ((s.disk.unlink (v.pathOf (.file user name))).map fun _ => ()) ∧
      (v.remove s user name).2.disk = withdraw s.disk (v.pathOf (.file user name)) := by
  unfold remove Removal.start withdraw
  rw [resolve_of_accepts v user hname]
  cases hexclusive : v.options.exclusive <;>
    cases hunlink : s.disk.unlink (v.pathOf (.file user name)) <;>
    simp [Removal.run, Removal.stepsLeft, Removal.runFor, Removal.step, Removal.settle,
      Removal.result?, attempt, hunlink, Except.map, Turn.stepsLeft, State.advance, Turn.next]

end UserVault.Vault
