import UserVault.Proofs.Vault.Calls
import UserVault.Proofs.Vault.Endings

/-!
# What one step of an upload can do

Whatever is on the disk, a step of an upload leaves it alone or acts on it by one call.  On an
orderly disk it makes one of eight moves.  Most of them leave the disk alone; the others make one
change of the tree each, always to the upload's own spots.  All that holds of uploads follows from
the moves.
-/

namespace UserVault.Vault

open Disk Link

variable {v : Vault} {root : Place} {d₀ d : Disk} {user : UInt32} {name : Bytes} {u : Upload}

namespace Upload

/-- The file that an upload has opened and not yet put in its place or discarded: the path of a
file aside, or nothing for the user's file itself. -/
def opened? (u : Upload) : Option (Option Path) :=
  match u.stage with
  | .copying _ staged | .flushing _ staged | .syncing _ staged | .discarding staged _ => some staged
  | .publishing staged => some (some staged)
  | _ => none

def handle? (u : Upload) : Option Handle :=
  match u.stage with
  | .copying file _ | .flushing file _ | .syncing file _ => some file
  | _ => none

/-- Who has opened nothing has nothing open. -/
theorem handle?_eq_none (h : u.opened? = none) : u.handle? = none := by
  unfold opened? at h
  unfold handle?
  split at h <;> simp_all

theorem exists_opened {file : Handle} (h : u.handle? = some file) :
    ∃ staged, u.opened? = some staged := by
  cases hopened : u.opened? with
  | none =>
    rw [handle?_eq_none hopened] at h
    cases h
  | some staged => exact ⟨staged, rfl⟩

end Upload

/-- The spot of the file that an upload of a user's file has opened. -/
inductive Own (v : Vault) (user : UInt32) (name : Bytes) : Option Path → Spot → Prop
  | aside (hatomic : v.options.atomic = true) (number : Nat) (hfits : ¬TooLong v number) :
    Own v user name (some (v.pathOf (.staged number))) (.staged number)
  | inPlace (hatomic : v.options.atomic = false) : Own v user name none (.file user name)

/-- An upload of a user's file works on spots of the vault only. -/
structure Placed (v : Vault) (user : UInt32) (name : Bytes) (u : Upload) : Prop where
  user_eq : u.user = user
  target_eq : u.target = v.pathOf (.file user name)
  opened : ∀ staged, u.opened? = some staged → ∃ spot, Own v user name staged spot
  handle : ∀ file, u.handle? = some file → ∃ id, file.target = .file id

/-- What a step may do that leaves the disk alone. -/
inductive Quiet (v : Vault) (fault : Option Errno) (d : Disk) (u : Upload) : Upload → Prop
  | refused (error : VaultError)
    (hwhy : u.stage = .preparing ∧ fault ≠ none ∨ u.stage = .opening ∧ (fault ≠ none ∨
      if v.options.atomic then ∃ e, d.createNew (Upload.stagedPath v d) = .error e
      else ∃ e, d.create u.target = .error e)) :
    Quiet v fault d u (u.settle (.error (.vault error u.remaining)))
  | waited (turn : Turn) (stage : Stage) (hstage : u.stage = .takingTurn)
    (hstage' : stage = .takingTurn ∨ stage = .opening) : Quiet v fault d u { u with turn, stage }
  | delayed (file : Handle) (staged : Option Path) (body : Source) (remaining : Nat) (e : Errno)
    (hstage : u.stage = .copying file staged) (hfault : fault ≠ none) :
    Quiet v fault d u
      { u with body, remaining, stage := .copying { file with failure := some e } staged }
  | copied (file : Handle) (staged : Option Path) (hstage : u.stage = .copying file staged)
    (hremaining : u.remaining = 0) : Quiet v fault d u { u with stage := .flushing file staged }
  | flushed (file : Handle) (staged : Option Path) (hstage : u.stage = .flushing file staged)
    (hclean : file.failure = none) : Quiet v fault d u { u with stage := .syncing file staged }
  | synced (file : Handle) (staged : Path) (hstage : u.stage = .syncing file (some staged)) :
    Quiet v fault d u { u with stage := .publishing staged }
  | completed (file : Handle) (hstage : u.stage = .syncing file none) :
    Quiet v fault d u (u.settle (.ok ()))
  | gaveUp (staged : Option Path) (cause : StoreError) (body : Source) (remaining : Nat)
    (hopened : u.opened? = some staged)
    (hwhy : (∃ fault, cause = .transport fault) ∨ fault ≠ none ∨
      (∃ file, u.handle? = some file ∧ file.failure ≠ none) ∨
      ∃ path e, u.stage = .publishing path ∧ d.rename path u.target = .error e) :
    Quiet v fault d u { u with body, remaining, stage := .discarding staged cause }
  | left (result : Except StoreError Unit) (turn : Turn) (stage : Stage)
    (hstage : u.stage = .givingTurn result)
    (hstage' : stage = .givingTurn result ∨ stage = .finished result) :
    Quiet v fault d u { u with turn, stage }
  | finished (result : Except StoreError Unit) (hstage : u.stage = .finished result) :
    Quiet v fault d u u

/-- What a step of an upload may do to the upload and the disk, whatever is on it. -/
inductive Act (v : Vault) (fault : Option Errno) (d : Disk) (u : Upload) : Upload → Disk → Prop
  | idle (u' : Upload) (h : Quiet v fault d u u') : Act v fault d u u' d
  | unprepared (e : Errno) (d' : Disk) (hstage : u.stage = .preparing)
    (hmake : d.makeDirectories (v.userDirectory u.user) = (.error e, d')) :
    Act v fault d u (u.settle (.error (Upload.failure e u.remaining))) d'
  | prepared (d' : Disk) (turn : Turn) (stage : Stage) (hstage : u.stage = .preparing)
    (hmake : d.makeDirectories (v.userDirectory u.user) = (.ok (), d'))
    (hstage' : stage = .takingTurn ∨ stage = .opening) : Act v fault d u { u with turn, stage } d'
  | opened (file : Handle) (staged : Option Path) (d' : Disk) (hstage : u.stage = .opening)
    (hopen : v.openStore d u.target u.remaining = (.ok (file, staged), d')) :
    Act v fault d u { u with stage := .copying file staged } d'
  | wrote (file : Handle) (staged : Option Path) (id : FileId) (bytes : Bytes) (body : Source)
    (hstage : u.stage = .copying file staged) (htarget : file.target = .file id)
    (hclean : file.failure = none)
    (hread : Source.exactly (min v.chunkSize u.remaining) u.body = (.ok bytes, body)) :
    Act v fault d u
      { u with
        body
        remaining := u.remaining - min v.chunkSize u.remaining
        stage := .copying { file with offset := file.offset + bytes.length } staged }
      (d.overwrite id ((d.contentOf id).writeAt file.offset bytes))
  | published (staged : Path) (d' : Disk) (hstage : u.stage = .publishing staged)
    (hrename : d.rename staged u.target = .ok d') : Act v fault d u (u.settle (.ok ())) d'
  | discarded (staged : Option Path) (cause : StoreError)
    (hstage : u.stage = .discarding staged cause) :
    Act v fault d u (u.settle (.error cause)) (withdraw d (staged.getD u.target))

/-- The tree without the file at a spot, if there is one. -/
def clear (d : Disk) (root : Place) (spot : Spot) : Disk :=
  if (d.node? (spot.under root)).isSome then take d root spot else d

/-- What a step of an upload may do to the upload and the disk. -/
inductive Move (v : Vault) (root : Place) (user : UInt32) (name : Bytes) (fault : Option Errno)
    (d : Disk) (u : Upload) : Upload → Disk → Prop
  | idle (u' : Upload) (h : Quiet v fault d u u') : Move v root user name fault d u u' d
  | prepared (turn : Turn) (stage : Stage) (hstage : u.stage = .preparing)
    (hstage' : stage = .takingTurn ∨ stage = .opening) :
    Move v root user name fault d u { u with turn, stage } (withFolder d root user)
  | madeAside (number : Nat) (hstage : u.stage = .opening) (hatomic : v.options.atomic = true)
    (hfits : ¬TooLong v number) (hnone : d.node? (Spot.under (.staged number) root) = none) :
    Move v root user name fault d u
      { u with stage :=
          .copying { target := .file d.nextFile } (some (v.pathOf (.staged number))) }
      (putNew d root (.staged number))
  | madeInPlace (hstage : u.stage = .opening) (hatomic : v.options.atomic = false)
    (hfolder : ∃ node, d.node? (Spot.under (.folder user) root) = some node)
    (hnone : d.node? (Spot.under (.file user name) root) = none) :
    Move v root user name fault d u
      { u with stage := .copying { target := .file d.nextFile } none }
      (putNew d root (.file user name))
  | emptied (id : FileId) (hstage : u.stage = .opening) (hatomic : v.options.atomic = false)
    (hnode : d.node? (Spot.under (.file user name) root) = some (.file id)) :
    Move v root user name fault d u { u with stage := .copying { target := .file id } none }
      (d.overwrite id .empty)
  | wrote (file : Handle) (staged : Option Path) (id : FileId) (bytes : Bytes) (body : Source)
    (hstage : u.stage = .copying file staged) (htarget : file.target = .file id)
    (hclean : file.failure = none)
    (hread : Source.exactly (min v.chunkSize u.remaining) u.body = (.ok bytes, body)) :
    Move v root user name fault d u
      { u with
        body
        remaining := u.remaining - min v.chunkSize u.remaining
        stage := .copying { file with offset := file.offset + bytes.length } staged }
      (d.overwrite id ((d.contentOf id).writeAt file.offset bytes))
  | published (number : Nat) (id : FileId)
    (hstage : u.stage = .publishing (v.pathOf (.staged number)))
    (hnode : d.node? (Spot.under (.staged number) root) = some (.file id))
    (hfolder : ∃ node, d.node? (Spot.under (.folder user) root) = some node) :
    Move v root user name fault d u (u.settle (.ok ()))
      (move d root (.staged number) (.file user name) id)
  | discarded (staged : Option Path) (cause : StoreError) (spot : Spot)
    (hstage : u.stage = .discarding staged cause) (hown : Own v user name staged spot) :
    Move v root user name fault d u (u.settle (.error cause)) (clear d root spot)

/-! ## 1. What a step does on any disk -/

theorem attempt_eq_ok {α : Type} {fault : Option Errno} {call : Except Errno α} {a : α}
    (h : attempt fault call = .ok a) : fault = none ∧ call = .ok a := by
  cases fault with
  | none => exact ⟨rfl, h⟩
  | some e => cases h

theorem attempt_eq_error {α : Type} {fault : Option Errno} {call : Except Errno α} {e : Errno}
    (h : attempt fault call = .error e) : fault ≠ none ∨ call = .error e := by
  cases fault with
  | none => exact .inr h
  | some e => exact .inl (Option.some_ne_none e)

theorem act_openFile {s : State} (hstage : u.stage = .opening) (fault : Option Errno) :
    Act v fault s.disk u (u.openFile v fault s).1 (u.openFile v fault s).2.disk := by
  dsimp only [Upload.openFile]
  -- either a file aside that must be new, or the user's file itself, which may be there already
  cases hatomic : v.options.atomic with
  | true =>
    simp only [if_true]
    cases hcall : attempt fault (s.disk.createNew (Upload.stagedPath v s.disk)) with
    | error e =>
      refine .idle _ (.refused _ (.inr ⟨hstage, ?_⟩))
      rcases attempt_eq_error hcall with hfault | herror
      · exact .inl hfault
      · rw [hatomic]
        exact .inr ⟨e, herror⟩
    | ok opened =>
      obtain ⟨-, hok⟩ := attempt_eq_ok hcall
      exact .opened _ _ _ hstage (by simp only [openStore, hatomic, if_true, hok])
  | false =>
    simp only [if_false, Bool.false_eq_true]
    cases hcall : attempt fault (s.disk.create u.target) with
    | error e =>
      refine .idle _ (.refused _ (.inr ⟨hstage, ?_⟩))
      rcases attempt_eq_error hcall with hfault | herror
      · exact .inl hfault
      · rw [hatomic]
        exact .inr ⟨e, herror⟩
    | ok opened =>
      obtain ⟨-, hok⟩ := attempt_eq_ok hcall
      refine .opened _ _ _ hstage ?_
      simp only [openStore, hatomic, hok, if_false, Bool.false_eq_true]

theorem act_copyChunk {s : State} {file : Handle} {staged : Option Path} {id : FileId}
    (hstage : u.stage = .copying file staged) (htarget : file.target = .file id)
    (fault : Option Errno) :
    Act v fault s.disk u (u.copyChunk v fault file staged s).1
      (u.copyChunk v fault file staged s).2.disk := by
  have hopened : u.opened? = some staged := by rw [Upload.opened?, hstage]
  have hhandle : u.handle? = some file := by rw [Upload.handle?, hstage]
  dsimp only [Upload.copyChunk]
  generalize hread : Source.exactly (min v.chunkSize u.remaining) u.body = read
  obtain ⟨result, body⟩ := read
  cases result with
  -- the body ended or failed
  | error cause =>
    exact .idle _ (.gaveUp staged _ body u.remaining hopened (.inl ⟨cause, rfl⟩))
  | ok bytes =>
    dsimp only [Disk.write]
    cases hclean : file.failure with
    | some e =>
      refine .idle _ (.gaveUp staged _ body _ hopened (.inr (.inr (.inl ⟨file, hhandle, ?_⟩))))
      rw [hclean]
      exact Option.some_ne_none e
    | none =>
      dsimp only
      cases hcall : attempt fault (s.disk.perform file bytes) with
      | error e =>
        -- the file can be written to, so only a fault from outside stops the write
        have hfault : fault ≠ none := by
          rcases attempt_eq_error hcall with hfault | herror
          · exact hfault
          · simp only [perform, htarget] at herror
            cases herror
        dsimp only
        by_cases hlarge : maxHandover < bytes.length
        · rw [if_pos hlarge]
          exact .idle _ (.gaveUp staged _ body _ hopened (.inr (.inl hfault)))
        · rw [if_neg hlarge]
          exact .idle _ (.delayed file staged body _ e hstage hfault)
      | ok disk =>
        obtain ⟨-, hok⟩ := attempt_eq_ok hcall
        simp only [perform, htarget, Except.ok.injEq] at hok
        rw [← hok]
        have hact : Act v fault s.disk u _ _ :=
          .wrote file staged id bytes body hstage htarget hclean hread
        rw [hclean] at hact
        exact hact

/-- Every step of an upload that writes to files is one of the acts. -/
theorem act_step {s : State} (hfile : ∀ file, u.handle? = some file → ∃ id, file.target = .file id)
    (fault : Option Errno) :
    Act v fault s.disk u (u.step v fault s).1 (u.step v fault s).2.disk := by
  cases hstage : u.stage with
  | preparing =>
    simp only [Upload.step, hstage]
    cases fault with
    | some e => exact .idle _ (.refused _ (.inl ⟨hstage, Option.some_ne_none e⟩))
    | none =>
      dsimp only
      cases hmake : s.disk.makeDirectories (v.userDirectory u.user) with
      | mk result disk =>
        cases result with
        | error e => exact .unprepared e disk hstage hmake
        | ok _ =>
          dsimp only
          split
          · exact .prepared disk .coming .takingTurn hstage hmake (.inl rfl)
          · exact .prepared disk u.turn .opening hstage hmake (.inr rfl)
  | takingTurn =>
    simp only [Upload.step, hstage, State.advance]
    split
    · exact .idle _ (.waited _ .opening hstage (.inr rfl))
    · exact .idle _ (.waited _ .takingTurn hstage (.inl rfl))
  | opening =>
    simp only [Upload.step, hstage]
    exact act_openFile hstage fault
  | copying file staged =>
    obtain ⟨id, htarget⟩ := hfile file (by rw [Upload.handle?, hstage])
    simp only [Upload.step, hstage]
    by_cases hremaining : u.remaining = 0
    · rw [if_pos hremaining]
      exact .idle _ (.copied file staged hstage hremaining)
    · rw [if_neg hremaining]
      exact act_copyChunk hstage htarget fault
  | flushing file staged =>
    have hopened : u.opened? = some staged := by rw [Upload.opened?, hstage]
    have hhandle : u.handle? = some file := by rw [Upload.handle?, hstage]
    simp only [Upload.step, hstage]
    cases hcall : attempt fault file.flush with
    | error e =>
      refine .idle _ (.gaveUp staged _ u.body u.remaining hopened (.inr ?_))
      rcases attempt_eq_error hcall with hfault | herror
      · exact .inl hfault
      · refine .inr (.inl ⟨file, hhandle, fun hclean => ?_⟩)
        rw [Handle.flush, hclean] at herror
        cases herror
    | ok _ =>
      obtain ⟨-, hok⟩ := attempt_eq_ok hcall
      refine .idle _ (.flushed file staged hstage ?_)
      cases hclean : file.failure with
      | none => rfl
      | some e =>
        rw [Handle.flush, hclean] at hok
        cases hok
  | syncing file staged =>
    have hopened : u.opened? = some staged := by rw [Upload.opened?, hstage]
    obtain ⟨id, htarget⟩ := hfile file (by rw [Upload.handle?, hstage])
    simp only [Upload.step, hstage]
    cases hcall : attempt fault file.sync with
    | error e =>
      refine .idle _ (.gaveUp staged _ u.body u.remaining hopened (.inr (.inl ?_)))
      rcases attempt_eq_error hcall with hfault | herror
      · exact hfault
      · rw [Handle.sync, htarget] at herror
        cases herror
    | ok _ =>
      cases staged with
      | some path => exact .idle _ (.synced file path hstage)
      | none => exact .idle _ (.completed file hstage)
  | publishing path =>
    have hopened : u.opened? = some (some path) := by rw [Upload.opened?, hstage]
    simp only [Upload.step, hstage]
    cases hcall : attempt fault (s.disk.rename path u.target) with
    | error e =>
      refine .idle _ (.gaveUp (some path) _ u.body u.remaining hopened (.inr ?_))
      rcases attempt_eq_error hcall with hfault | herror
      · exact .inl hfault
      · exact .inr (.inr ⟨path, e, hstage, herror⟩)
    | ok disk =>
      obtain ⟨-, hok⟩ := attempt_eq_ok hcall
      exact .published path disk hstage hok
  | discarding staged cause =>
    simp only [Upload.step, hstage]
    exact .discarded staged cause hstage
  | givingTurn result =>
    simp only [Upload.step, hstage, State.advance]
    refine .idle _ (.left result _ _ hstage ?_)
    by_cases hgone : (u.turn.next u.target s.turns).1 = .gone
    · exact .inr (if_pos hgone)
    · exact .inl (if_neg hgone)
  | finished result =>
    simp only [Upload.step, hstage]
    exact .idle _ (.finished result hstage)

/-- Whose file an upload is and where it goes does not change. -/
theorem Act.names {fault : Option Errno} {u' : Upload} {d' : Disk} (h : Act v fault d u u' d') :
    u'.user = u.user ∧ u'.target = u.target := by
  cases h with
  | idle _ hquiet => cases hquiet <;> exact ⟨rfl, rfl⟩
  | _ => exact ⟨rfl, rfl⟩

/-! ## 2. What a step does on an orderly disk -/

theorem Own.unique {staged : Option Path} {spot spot' : Spot} (h : Own v user name staged spot)
    (h' : Own v user name staged spot') : spot = spot' := by
  cases h with
  | aside hatomic number hfits =>
    generalize hpath : some (v.pathOf (.staged number)) = staged at h'
    cases h' with
    | aside _ number' _ => exact pathOf_injective (Option.some.inj hpath)
    | inPlace _ => cases hpath
  | inPlace hatomic =>
    cases h' with
    | inPlace _ => rfl

theorem stagedPath_eq (v : Vault) (d : Disk) :
    Upload.stagedPath v d = v.pathOf (.staged (Upload.freeNumber v d)) :=
  join_stagedName v _

/-- Taking away the file that an upload has opened. -/
theorem withdraw_own (hbase : EmptyBase v d₀ root) (h : Orderly v root d₀ d) (hname : accepts name)
    {staged : Option Path} {spot : Spot} (hown : Own v user name staged spot) :
    withdraw d (staged.getD (v.pathOf (.file user name))) = clear d root spot := by
  have hunlink : d.unlink (staged.getD (v.pathOf (.file user name))) =
      if (d.node? (spot.under root)).isSome then .ok (take d root spot) else .error .noEntry := by
    cases hown with
    | aside hatomic number hfits =>
      have hunlink := h.unlink_staged hbase number
      rwa [if_neg hfits] at hunlink
    | inPlace hatomic => exact h.unlink_file hbase user hname
  rw [withdraw, hunlink, clear]
  by_cases hnode : (d.node? (spot.under root)).isSome
  · rw [if_pos hnode, if_pos hnode]
  · rw [if_neg hnode, if_neg hnode]

theorem move_of_openStore (hbase : EmptyBase v d₀ root) (h : Orderly v root d₀ d)
    (hname : accepts name) (hstage : u.stage = .opening) (fault : Option Errno) {unread : Nat}
    {file : Handle} {staged : Option Path} {d' : Disk}
    (hopen : v.openStore d (v.pathOf (.file user name)) unread = (.ok (file, staged), d')) :
    Move v root user name fault d u { u with stage := .copying file staged } d' := by
  unfold openStore at hopen
  cases hatomic : v.options.atomic with
  | true =>
    simp only [hatomic, if_true, stagedPath_eq, h.createNew_staged hbase] at hopen
    split at hopen
    · cases hopen
    next hcreate =>
      cases hopen
      split at hcreate
      · cases hcreate
      next hfits =>
        split at hcreate
        · cases hcreate
        next hnone =>
          cases hcreate
          exact .madeAside _ hstage hatomic hfits (by simpa using hnone)
  | false =>
    simp only [hatomic, if_false, Bool.false_eq_true, h.create_file hbase user hname] at hopen
    split at hopen
    · cases hopen
    next hcreate =>
      cases hopen
      split at hcreate
      next hfolder =>
        rcases h.file_cases user name with hnone | ⟨id, hnode, -⟩
        · rw [hnone] at hcreate
          cases hcreate
          exact .madeInPlace hstage hatomic (Option.isSome_iff_exists.mp hfolder) hnone
        · rw [hnode] at hcreate
          cases hcreate
          exact .emptied id hstage hatomic hnode
      next => cases hcreate

theorem move_of_rename (hbase : EmptyBase v d₀ root) (h : Orderly v root d₀ d)
    (hname : accepts name) {path : Path} (hstage : u.stage = .publishing path) {spot : Spot}
    (hown : Own v user name (some path) spot) (fault : Option Errno) {d' : Disk}
    (hrename : d.rename path (v.pathOf (.file user name)) = .ok d') :
    Move v root user name fault d u (u.settle (.ok ())) d' := by
  -- what is put in its place is a file aside, so its path is that of a staged file
  generalize hpath : some path = staged at hown
  cases hown with
  | inPlace => cases hpath
  | aside hatomic number hfits =>
    cases hpath
    rw [h.rename_staged hbase number user hname, if_neg hfits] at hrename
    split at hrename
    next id hnode =>
      split at hrename
      next hfolder =>
        cases hrename
        exact .published number id hstage hnode (Option.isSome_iff_exists.mp hfolder)
      next => cases hrename
    next => cases hrename

/-- On an orderly disk every act of an upload is one of the moves. -/
theorem Act.move (hbase : EmptyBase v d₀ root) (h : Orderly v root d₀ d) (hname : accepts name)
    (hu : Placed v user name u) {fault : Option Errno} {u' : Upload} {d' : Disk}
    (hact : Act v fault d u u' d') : Move v root user name fault d u u' d' := by
  have hmake : d.makeDirectories (v.userDirectory u.user) = (.ok (), withFolder d root user) := by
    rw [hu.user_eq, h.makeDirectories_folder hbase user]
  cases hact with
  | idle _ hquiet => exact .idle _ hquiet
  | unprepared e _ hstage hmake' =>
    rw [hmake] at hmake'
    cases hmake'
  | prepared _ turn stage hstage hmake' hstage' =>
    rw [hmake] at hmake'
    cases hmake'
    exact .prepared turn stage hstage hstage'
  | opened file staged _ hstage hopen =>
    rw [hu.target_eq] at hopen
    exact move_of_openStore hbase h hname hstage fault hopen
  | wrote file staged id bytes body hstage htarget hclean hread =>
    exact .wrote file staged id bytes body hstage htarget hclean hread
  | published path _ hstage hrename =>
    obtain ⟨spot, hown⟩ := hu.opened (some path) (by rw [Upload.opened?, hstage])
    rw [hu.target_eq] at hrename
    exact move_of_rename hbase h hname hstage hown fault hrename
  | discarded staged cause hstage =>
    obtain ⟨spot, hown⟩ := hu.opened staged (by rw [Upload.opened?, hstage])
    rw [hu.target_eq, withdraw_own hbase h hname hown]
    exact .discarded staged cause spot hstage hown

/-- On an orderly disk every step of an upload is one of the moves. -/
theorem move_step (hbase : EmptyBase v d₀ root) {s : State} (h : Orderly v root d₀ s.disk)
    (hname : accepts name) (hu : Placed v user name u) (fault : Option Errno) :
    Move v root user name fault s.disk u (u.step v fault s).1 (u.step v fault s).2.disk :=
  (act_step hu.handle fault).move hbase h hname hu

/-! ## 3. Moves keep the tree orderly and the upload to its spots -/

theorem Own.kind {staged : Option Path} {spot : Spot} (h : Own v user name staged spot) :
    (∃ number, spot = .staged number) ∨ ∃ user name, spot = .file user name := by
  cases h with
  | aside hatomic number hfits => exact .inl ⟨number, rfl⟩
  | inPlace hatomic => exact .inr ⟨user, name, rfl⟩

theorem orderly_clear (h : Orderly v root d₀ d) {spot : Spot}
    (hkind : (∃ number, spot = .staged number) ∨ ∃ user name, spot = .file user name) :
    Orderly v root d₀ (clear d root spot) := by
  unfold clear
  split
  · exact orderly_take h hkind
  · exact h

theorem spotsKept_clear (d : Disk) (root : Place) (spot : Spot) :
    SpotsKept root (· = spot) d (clear d root spot) := by
  unfold clear
  split
  · exact spotsKept_take d root spot
  · exact SpotsKept.refl root _ d

theorem node?_clear_self (d : Disk) (root : Place) (spot : Spot) :
    (clear d root spot).node? (spot.under root) = none := by
  unfold clear
  split
  · rw [node?_take, if_pos rfl]
  next hnone => simpa using hnone

theorem Move.orderly (hbase : EmptyBase v d₀ root) (h : Orderly v root d₀ d) (hname : accepts name)
    {fault : Option Errno} {u' : Upload} {d' : Disk}
    (hmove : Move v root user name fault d u u' d') : Orderly v root d₀ d' := by
  cases hmove with
  | idle => exact h
  | prepared => exact orderly_withFolder hbase h user
  | madeAside number => exact orderly_putNew hbase h trivial (.inl ⟨number, rfl⟩)
  | madeInPlace hstage hatomic hfolder =>
    exact orderly_putNew hbase h hname (.inr ⟨user, name, rfl, hfolder⟩)
  | emptied => exact orderly_overwrite h _ _
  | wrote => exact orderly_overwrite h _ _
  | published number id hstage hnode hfolder => exact orderly_move h hname hnode hfolder
  | discarded staged cause spot hstage hown => exact orderly_clear h hown.kind

theorem opened?_settle (u : Upload) (result : Except StoreError Unit) :
    (u.settle result).opened? = none := by
  unfold Upload.opened?
  rcases u.stage_settle result with hstage | hstage <;> rw [hstage]

theorem handle?_settle (u : Upload) (result : Except StoreError Unit) :
    (u.settle result).handle? = none :=
  Upload.handle?_eq_none (opened?_settle u result)

theorem placed_settle (hu : Placed v user name u) (result : Except StoreError Unit) :
    Placed v user name (u.settle result) where
  user_eq := hu.user_eq
  target_eq := hu.target_eq
  opened staged hopened := by
    rw [opened?_settle] at hopened
    cases hopened
  handle file hhandle := by
    rw [handle?_settle] at hhandle
    cases hhandle

/-- A step that leads to no open file leaves nothing to be said about one. -/
theorem placed_of_none {u' : Upload} (hu : Placed v user name u) (huser : u'.user = u.user)
    (htarget : u'.target = u.target) (hopened : u'.opened? = none) (hhandle : u'.handle? = none) :
    Placed v user name u' where
  user_eq := huser.trans hu.user_eq
  target_eq := htarget.trans hu.target_eq
  opened staged h := by
    rw [hopened] at h
    cases h
  handle file h := by
    rw [hhandle] at h
    cases h

/-- A step that goes on with a file of the upload. -/
theorem placed_of_some {u' : Upload} {staged : Option Path} {spot : Spot}
    (hu : Placed v user name u) (huser : u'.user = u.user) (htarget : u'.target = u.target)
    (hopened : u'.opened? = some staged) (hown : Own v user name staged spot)
    (hhandle : ∀ file, u'.handle? = some file → ∃ id, file.target = .file id) :
    Placed v user name u' where
  user_eq := huser.trans hu.user_eq
  target_eq := htarget.trans hu.target_eq
  opened staged' h := by
    rw [hopened] at h
    cases h
    exact ⟨spot, hown⟩
  handle := hhandle

-- A step that opens nothing: what is open afterwards was open before.
theorem placed_of_same {u' : Upload} (hu : Placed v user name u) (huser : u'.user = u.user)
    (htarget : u'.target = u.target) (hopened : u'.opened? = u.opened?)
    (hhandle : ∀ file, u'.handle? = some file →
      ∃ file', u.handle? = some file' ∧ file.target = file'.target) :
    Placed v user name u' where
  user_eq := huser.trans hu.user_eq
  target_eq := htarget.trans hu.target_eq
  opened staged h := hu.opened staged (hopened ▸ h)
  handle file h := by
    obtain ⟨file', hfile, htarget'⟩ := hhandle file h
    rw [htarget']
    exact hu.handle file' hfile

theorem Quiet.placed (hu : Placed v user name u) {fault : Option Errno} {u' : Upload}
    (h : Quiet v fault d u u') : Placed v user name u' := by
  cases h with
  | refused error hwhy => exact placed_settle hu _
  | completed file hstage => exact placed_settle hu _
  | waited turn stage hstage hstage' =>
    rcases hstage' with rfl | rfl <;> exact placed_of_none hu rfl rfl rfl rfl
  | left result turn stage hstage hstage' =>
    rcases hstage' with rfl | rfl <;> exact placed_of_none hu rfl rfl rfl rfl
  | finished => exact hu
  | delayed file staged body remaining e hstage hfault =>
    refine placed_of_same hu rfl rfl (by simp only [Upload.opened?, hstage]) fun file' h => ?_
    cases h
    exact ⟨file, by rw [Upload.handle?, hstage], rfl⟩
  | copied file staged hstage hremaining =>
    refine placed_of_same hu rfl rfl (by simp only [Upload.opened?, hstage]) fun file' h => ?_
    cases h
    exact ⟨file, by rw [Upload.handle?, hstage], rfl⟩
  | flushed file staged hstage hclean =>
    refine placed_of_same hu rfl rfl (by simp only [Upload.opened?, hstage]) fun file' h => ?_
    cases h
    exact ⟨file, by rw [Upload.handle?, hstage], rfl⟩
  | synced file staged hstage =>
    refine placed_of_same hu rfl rfl (by simp only [Upload.opened?, hstage]) fun file' h => ?_
    cases h
  | gaveUp staged cause body remaining hopened hwhy =>
    exact placed_of_same hu rfl rfl hopened.symm fun file' h => by cases h

theorem Move.placed (hu : Placed v user name u) {fault : Option Errno} {u' : Upload} {d' : Disk}
    (h : Move v root user name fault d u u' d') : Placed v user name u' := by
  cases h with
  | idle _ h => exact h.placed hu
  | prepared turn stage hstage hstage' =>
    rcases hstage' with rfl | rfl <;> exact placed_of_none hu rfl rfl rfl rfl
  | madeAside number hstage hatomic hfits hnone =>
    refine placed_of_some hu rfl rfl rfl (.aside hatomic number hfits) fun file h => ?_
    cases h
    exact ⟨_, rfl⟩
  | madeInPlace hstage hatomic hfolder hnone =>
    refine placed_of_some hu rfl rfl rfl (.inPlace hatomic) fun file h => ?_
    cases h
    exact ⟨_, rfl⟩
  | emptied id hstage hatomic hnode =>
    refine placed_of_some hu rfl rfl rfl (.inPlace hatomic) fun file h => ?_
    cases h
    exact ⟨_, rfl⟩
  | wrote file staged id bytes body hstage htarget hclean hread =>
    refine placed_of_same hu rfl rfl (by simp only [Upload.opened?, hstage]) fun file' h => ?_
    cases h
    exact ⟨file, by rw [Upload.handle?, hstage], rfl⟩
  | published => exact placed_settle hu _
  | discarded => exact placed_settle hu _

theorem placed_start (v : Vault) (user : UInt32) {name : Bytes} (hname : accepts name)
    (length : UInt32) (body : Source) :
    Placed v user name (Upload.start v user name length body) := by
  rw [Upload.start, resolve_of_accepts v user hname]
  refine ⟨rfl, rfl, ?_, ?_⟩
  · intro staged h
    cases h
  · intro file h
    cases h

end UserVault.Vault
