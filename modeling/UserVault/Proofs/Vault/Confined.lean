import UserVault.Proofs.Vault.Removals

/-!
# How far a step reaches

A step of a store or a removal changes what stands at a few spots of its own and writes to files of
its own.  All else in the vault it leaves as it was, also where files are written in place and
nobody takes turns.
-/

namespace UserVault.Vault

open Disk

variable {v : Vault} {root : Place} {d₀ d d' : Disk} {user : UInt32} {name : Bytes}
  {u u' : Upload} {fault : Option Errno}

/-! ## 1. Changes -/

/-- From `d` to `d'` nothing happened to spots other than those of which `P` holds, nor to files
other than those of which `W` holds.  Directories stay, and so do the records of files; a file that
stands somewhere stood there before, or at one of the spots of which `P` holds, or is new. -/
structure RecordsKept (root : Place) (P : Spot → Prop) (W : FileId → Prop) (d d' : Disk) :
    Prop where
  node : ∀ spot : Spot, ¬P spot → d'.node? (spot.under root) = d.node? (spot.under root)
  record : ∀ id, id < d.nextFile → ¬W id → d'.record? id = d.record? id
  nextFile : d.nextFile ≤ d'.nextFile
  stays : ∀ id, d.record? id ≠ none → d'.record? id ≠ none
  folder : ∀ user node, d.node? (Spot.under (.folder user) root) = some node →
    d'.node? (Spot.under (.folder user) root) = some node
  files : ∀ (spot : Spot) id, d'.node? (spot.under root) = some (.file id) →
    id = d.nextFile ∨
      ∃ spot' : Spot, (spot' = spot ∨ P spot') ∧ d.node? (spot'.under root) = some (.file id)

variable {P Q : Spot → Prop} {W X : FileId → Prop}

theorem recordsKept_refl (root : Place) (P : Spot → Prop) (W : FileId → Prop) (d : Disk) :
    RecordsKept root P W d d :=
  ⟨fun _ _ => rfl, fun _ _ _ => rfl, Nat.le_refl _, fun _ h => h, fun _ _ h => h,
    fun spot _ h => .inr ⟨spot, .inl rfl, h⟩⟩

theorem RecordsKept.mono (h : RecordsKept root P W d d') (hPQ : ∀ spot, P spot → Q spot)
    (hWX : ∀ id, W id → X id) : RecordsKept root Q X d d' :=
  { h with
    node := fun spot hspot => h.node spot fun hP => hspot (hPQ spot hP)
    record := fun id hlt hid => h.record id hlt fun hW => hid (hWX id hW)
    files := fun spot id hnode => (h.files spot id hnode).imp_right
      fun ⟨spot', hspot', hold⟩ => ⟨spot', hspot'.imp_right (hPQ spot'), hold⟩ }

/-- A change of what stands at spots that touches no record and makes no file. -/
theorem recordsKept_of_nodes (hrecord : ∀ id, d'.record? id = d.record? id)
    (hnext : d'.nextFile = d.nextFile)
    (hnode : ∀ spot : Spot, ¬P spot → d'.node? (spot.under root) = d.node? (spot.under root))
    (hfolder : ∀ user node, d.node? (Spot.under (.folder user) root) = some node →
      d'.node? (Spot.under (.folder user) root) = some node)
    (hfiles : ∀ (spot : Spot) id, d'.node? (spot.under root) = some (.file id) →
      ∃ spot' : Spot, (spot' = spot ∨ P spot') ∧ d.node? (spot'.under root) = some (.file id)) :
    RecordsKept root P W d d' where
  node := hnode
  record id _ _ := hrecord id
  nextFile := Nat.le_of_eq hnext.symm
  stays id h := by rwa [hrecord]
  folder := hfolder
  files spot id h := .inr (hfiles spot id h)

theorem recordsKept_withFolder (d : Disk) (root : Place) (user : UInt32) (W : FileId → Prop) :
    RecordsKept root (· = .folder user) W d (withFolder d root user) := by
  unfold withFolder
  split
  · exact recordsKept_refl root _ W d
  next hnone =>
    refine recordsKept_of_nodes (fun _ => rfl) rfl (fun spot hspot => ?_) (fun user' node h => ?_)
      fun spot id h => ?_
    · rw [node?_putFolder, if_neg hspot]
    · rw [node?_putFolder, if_neg, h]
      rintro heq
      rw [← heq, h] at hnone
      exact hnone rfl
    · rw [node?_putFolder] at h
      split at h
      · cases h
      · exact ⟨spot, .inl rfl, h⟩

theorem recordsKept_putNew (d : Disk) (root : Place) {spot : Spot} (W : FileId → Prop)
    (hspot : ∀ user, spot ≠ .folder user) :
    RecordsKept root (· = spot) W d (putNew d root spot) := by
  refine ⟨fun spot' hne => ?_, fun id hlt _ => ?_, Nat.le_succ _, fun id h => ?_,
    fun user node h => ?_, fun spot' id h => ?_⟩
  · rw [node?_putNew, if_neg hne]
  · rw [putNew, record?_addFile, if_neg (Nat.ne_of_lt hlt)]
  · rw [putNew, record?_addFile]
    split
    · exact Option.some_ne_none _
    · exact h
  · rw [node?_putNew, if_neg (Ne.symm (hspot user)), h]
  · rw [node?_putNew] at h
    split at h
    · cases h
      exact .inl rfl
    · exact .inr ⟨spot', .inl rfl, h⟩

theorem recordsKept_overwrite (d : Disk) (root : Place) (P : Spot → Prop) (id : FileId)
    (content : Content) : RecordsKept root P (· = id) d (d.overwrite id content) := by
  refine ⟨fun spot _ => node?_overwrite _ _ _, fun id' _ hne => ?_,
    Nat.le_of_eq (nextFile_overwrite _ _).symm, fun id' h => ?_, fun user node h => ?_,
    fun spot id' h => ?_⟩
  · rw [record?_overwrite, if_neg hne]
  · rw [record?_overwrite]
    split
    next heq =>
      obtain ⟨record, hrecord⟩ := Option.ne_none_iff_exists'.mp h
      rw [← heq, hrecord]
      exact Option.some_ne_none _
    next => exact h
  · rw [node?_overwrite, h]
  · rw [node?_overwrite] at h
    exact .inr ⟨spot, .inl rfl, h⟩

theorem recordsKept_move (W : FileId → Prop) {source : Spot} {id : FileId} (target : Spot)
    (hsource : d.node? (source.under root) = some (.file id))
    (hspots : ∀ user, source ≠ .folder user ∧ target ≠ .folder user) :
    RecordsKept root (fun s => s = target ∨ s = source) W d (move d root source target id) := by
  refine recordsKept_of_nodes (fun _ => rfl) rfl (fun spot hspot => ?_) (fun user node h => ?_)
    fun spot id' h => ?_
  · rw [node?_move, if_neg fun heq => hspot (.inl heq), if_neg fun heq => hspot (.inr heq)]
  · rw [node?_move, if_neg (Ne.symm (hspots user).2), if_neg (Ne.symm (hspots user).1), h]
  · rw [node?_move] at h
    split at h
    · cases h
      exact ⟨source, .inr (.inr rfl), hsource⟩
    · split at h
      · cases h
      · exact ⟨spot, .inl rfl, h⟩

theorem recordsKept_take (d : Disk) (root : Place) {spot : Spot} (W : FileId → Prop)
    (hspot : ∀ user, spot ≠ .folder user) : RecordsKept root (· = spot) W d (take d root spot) := by
  refine recordsKept_of_nodes (fun _ => rfl) rfl (fun spot' hne => ?_) (fun user node h => ?_)
    fun spot' id h => ?_
  · rw [node?_take, if_neg hne]
  · rw [node?_take, if_neg (Ne.symm (hspot user)), h]
  · rw [node?_take] at h
    split at h
    · cases h
    · exact ⟨spot', .inl rfl, h⟩

theorem recordsKept_clear (d : Disk) (root : Place) {spot : Spot} (W : FileId → Prop)
    (hspot : ∀ user, spot ≠ .folder user) :
    RecordsKept root (· = spot) W d (clear d root spot) := by
  unfold clear
  split
  · exact recordsKept_take d root W hspot
  · exact recordsKept_refl root _ W d

/-! ## 2. Stores -/

/-- Whether an upload is about to open its file or has it open. -/
def Upload.AtWork (u : Upload) : Prop := u.stage = .opening ∨ u.opened? ≠ none

/-- The spots at which the next step of an upload may change what stands there. -/
def Upload.Touches (v : Vault) (root : Place) (user : UInt32) (name : Bytes) (u : Upload)
    (d : Disk) : Spot → Prop
  | .staging => False
  | .folder user' => user' = user ∧ u.stage = .preparing
  | .file user' name' => (user' = user ∧ name' = name) ∧ u.AtWork
  | .staged number => u.opened? = some (some (v.pathOf (.staged number))) ∨
      u.stage = .opening ∧ d.node? (Spot.under (.staged number) root) = none

/-- The files that the next step of an upload may write to. -/
def Upload.Writes (root : Place) (user : UInt32) (name : Bytes) (u : Upload) (d : Disk)
    (id : FileId) : Prop :=
  (∃ file, u.handle? = some file ∧ file.target = .file id) ∨
    u.stage = .opening ∧ d.node? (Spot.under (.file user name) root) = some (.file id)

theorem Own.ne_folder {staged : Option Path} {spot : Spot} (h : Own v user name staged spot)
    (user' : UInt32) : spot ≠ .folder user' := by
  cases h <;> exact fun heq => nomatch heq

theorem Own.touches {staged : Option Path} {spot : Spot} (h : Own v user name staged spot)
    (hopened : u.opened? = some staged) : u.Touches v root user name d spot := by
  cases h with
  | aside hatomic number hfits => exact .inl hopened
  | inPlace hatomic => exact ⟨⟨rfl, rfl⟩, .inr (by rw [hopened]; exact Option.some_ne_none _)⟩

/-- A step of an upload does not reach beyond its own spots and files. -/
theorem Move.recordsKept (hmove : Move v root user name fault d u u' d') :
    RecordsKept root (u.Touches v root user name d) (u.Writes root user name d) d d' := by
  cases hmove with
  | idle => exact recordsKept_refl root _ _ d
  | prepared turn stage hstage =>
    refine (recordsKept_withFolder d root user _).mono (fun spot heq => ?_) fun _ h => h
    subst heq
    exact ⟨rfl, hstage⟩
  | madeAside number hstage hatomic hfits hnone =>
    refine (recordsKept_putNew d root _ (by simp)).mono (fun spot heq => ?_) fun _ h => h
    subst heq
    exact .inr ⟨hstage, hnone⟩
  | madeInPlace hstage hatomic hfolder hnone =>
    refine (recordsKept_putNew d root _ (by simp)).mono (fun spot heq => ?_) fun _ h => h
    subst heq
    exact ⟨⟨rfl, rfl⟩, .inl hstage⟩
  | emptied id hstage hatomic hnode =>
    refine (recordsKept_overwrite d root _ id _).mono (fun _ h => h) fun id' heq => ?_
    subst heq
    exact .inr ⟨hstage, hnode⟩
  | wrote file staged id bytes body hstage htarget =>
    refine (recordsKept_overwrite d root _ id _).mono (fun _ h => h) fun id' heq => ?_
    subst heq
    exact .inl ⟨file, by rw [Upload.handle?, hstage], htarget⟩
  | published number id hstage hnode =>
    have hopened : u.opened? = some (some (v.pathOf (.staged number))) := by
      rw [Upload.opened?, hstage]
    refine (recordsKept_move _ _ hnode (by simp)).mono (fun spot hspot => ?_) fun _ h => h
    rcases hspot with rfl | rfl
    · exact ⟨⟨rfl, rfl⟩, .inr (by rw [hopened]; exact Option.some_ne_none _)⟩
    · exact .inl hopened
  | discarded staged cause spot hstage hown =>
    refine (recordsKept_clear d root _ hown.ne_folder).mono (fun spot' heq => ?_) fun _ h => h
    subst heq
    exact hown.touches (by rw [Upload.opened?, hstage])

/-! ## 3. Removals -/

/-- The next step of a removal changes nothing but what stands at the user's file, and that only
when it takes the name away. -/
theorem Removal.Move.recordsKept {r r' : Removal}
    (hmove : Removal.Move root user name fault d r r' d') :
    RecordsKept root (fun spot => spot = .file user name ∧ r.stage = .unlinking) (fun _ => False)
      d d' := by
  cases hmove with
  | idle => exact recordsKept_refl root _ _ d
  | unlinked hstage hfault hnode =>
    refine (recordsKept_take d root _ (by simp)).mono (fun spot heq => ?_) fun _ h => h
    exact ⟨heq, hstage⟩

end UserVault.Vault
