import UserVault.Proofs.Vault.Beside
import UserVault.Proofs.Vault.Confined
import UserVault.Proofs.Vault.Crowd

/-!
# Where the parties of a crowd stand

Whether or not files are written aside and writers take turns, every store of a crowd has its
user's directory and its file aside when it needs them, no two stores have the same file aside, and
there is no file aside that no store has.  All files that a crowd ever writes to are its own.
-/

namespace UserVault.Vault

open Disk Link

variable {v : Vault} {root : Place} {d₀ d d' : Disk} {user : UInt32} {name : Bytes}
  {u u' : Upload} {fault : Option Errno} {c : Crowd}

/-! ## 1. One store -/

/-- Whether an upload has made sure of its user's directory and goes on to need it. -/
def Upload.Underway (u : Upload) : Prop := u.stage = .takingTurn ∨ u.AtWork

/-- What an upload relies on is there. -/
structure Upload.Stands (v : Vault) (root : Place) (d₀ d : Disk) (user : UInt32) (u : Upload) :
    Prop where
  folder : u.Underway → ∃ node, d.node? (Spot.under (.folder user) root) = some node
  handle : ∀ file, u.handle? = some file → ∃ id, file.target = .file id ∧ d₀.nextFile ≤ id ∧
    id < d.nextFile ∧ d.record? id ≠ none
  aside : ∀ number, u.opened? = some (some (v.pathOf (.staged number))) →
    ∃ id, d.node? (Spot.under (.staged number) root) = some (.file id) ∧
      ∀ file, u.handle? = some file → file.target = .file id

/-- An upload with nothing open relies on its user's directory at most. -/
theorem stands_of_none (hopened : u.opened? = none) (hhandle : u.handle? = none)
    (hfolder : u.Underway → ∃ node, d.node? (Spot.under (.folder user) root) = some node) :
    u.Stands v root d₀ d user where
  folder := hfolder
  handle file h := by
    rw [hhandle] at h
    cases h
  aside number h := by
    rw [hopened] at h
    cases h

theorem not_underway_settle (u : Upload) (result : Except StoreError Unit) :
    ¬(u.settle result).Underway := by
  rintro (hready | hready | hopened)
  · rcases u.stage_settle result with hstage | hstage <;> simp [hstage] at hready
  · rcases u.stage_settle result with hstage | hstage <;> simp [hstage] at hready
  · exact absurd (opened?_settle u result) hopened

theorem stands_settle (u : Upload) (result : Except StoreError Unit) :
    (u.settle result).Stands v root d₀ d user :=
  stands_of_none (opened?_settle u result) (handle?_settle u result)
    fun hunderway => absurd hunderway (not_underway_settle u result)

theorem Upload.opened?_start (v : Vault) (user : UInt32) (name : Bytes) (length : UInt32)
    (body : Source) : (Upload.start v user name length body).opened? = none := by
  unfold Upload.start
  split <;> rfl

theorem Upload.handle?_start (v : Vault) (user : UInt32) (name : Bytes) (length : UInt32)
    (body : Source) : (Upload.start v user name length body).handle? = none := by
  unfold Upload.start
  split <;> rfl

theorem stands_start (v : Vault) (root : Place) (d₀ d : Disk) (user : UInt32) (name : Bytes)
    (length : UInt32) (body : Source) :
    (Upload.start v user name length body).Stands v root d₀ d user := by
  have hopened := Upload.opened?_start v user name length body
  refine stands_of_none hopened (Upload.handle?_start ..) fun hunderway => ?_
  rcases hunderway with hstage | hstage | hne
  · unfold Upload.start at hstage
    split at hstage <;> cases hstage
  · unfold Upload.start at hstage
    split at hstage <;> cases hstage
  · exact absurd hopened hne

/-- What others do leaves an upload with all it relies on, unless it is to its file aside. -/
theorem Upload.Stands.recordsKept (h : u.Stands v root d₀ d user) {P : Spot → Prop}
    {W : FileId → Prop} (hrecords : RecordsKept root P W d d')
    (hown : ∀ number, u.opened? = some (some (v.pathOf (.staged number))) → ¬P (.staged number)) :
    u.Stands v root d₀ d' user where
  folder hunderway := by
    obtain ⟨node, hnode⟩ := h.folder hunderway
    exact ⟨node, hrecords.folder user node hnode⟩
  handle file hfile := by
    obtain ⟨id, htarget, hge, hlt, hrecord⟩ := h.handle file hfile
    exact ⟨id, htarget, hge, Nat.lt_of_lt_of_le hlt hrecords.nextFile,
      hrecords.stays id hrecord⟩
  aside number hopened := by
    obtain ⟨id, hnode, htarget⟩ := h.aside number hopened
    exact ⟨id, (hrecords.node _ (hown number hopened)).trans hnode, htarget⟩

/-- Of the files that `u` has open, `u'` has the same one aside and no others. -/
structure Upload.Continues (u u' : Upload) : Prop where
  opened : ∀ path, u'.opened? = some (some path) ↔ u.opened? = some (some path)
  handle : ∀ file, u'.handle? = some file →
    ∃ file', u.handle? = some file' ∧ file.target = file'.target
  underway : u'.Underway → u.Underway

theorem continues_of_none (hopened : ∀ path, u.opened? ≠ some (some path))
    (hopened' : u'.opened? = none) (hhandle : u'.handle? = none)
    (hunderway : u'.Underway → u.Underway) : u.Continues u' where
  opened path := by
    rw [hopened']
    exact ⟨fun h => (nomatch h), fun h => absurd h (hopened path)⟩
  handle file h := by
    rw [hhandle] at h
    cases h
  underway := hunderway

theorem continues_of_some {staged : Option Path} (hopened : u.opened? = some staged)
    (hopened' : u'.opened? = some staged) (hhandle : ∀ file, u'.handle? = some file →
      ∃ file', u.handle? = some file' ∧ file.target = file'.target) : u.Continues u' where
  opened path := by rw [hopened, hopened']
  handle := hhandle
  underway _ := .inr (.inr (by rw [hopened]; exact Option.some_ne_none _))

/-- A step that leaves the disk alone opens no file, and closes none aside. -/
theorem Quiet.continues (h : Quiet v fault d u u') : u.Continues u' := by
  have hsettle (result : Except StoreError Unit)
      (hopened : ∀ path, u.opened? ≠ some (some path)) : u.Continues (u.settle result) :=
    continues_of_none hopened (opened?_settle u _) (handle?_settle u _)
      fun hunderway => absurd hunderway (not_underway_settle u _)
  cases h with
  | refused error hwhy =>
    refine hsettle _ fun path hopened => ?_
    rcases hwhy with ⟨hstage, -⟩ | ⟨hstage, -⟩ <;>
      rw [Upload.opened?, hstage] at hopened <;> cases hopened
  | completed file hstage =>
    refine hsettle _ fun path hopened => ?_
    rw [Upload.opened?, hstage] at hopened
    cases hopened
  | waited turn stage hstage hstage' =>
    have hopened (path : Path) : u.opened? ≠ some (some path) := by
      rw [Upload.opened?, hstage]
      intro h
      cases h
    rcases hstage' with rfl | rfl <;>
      exact continues_of_none hopened rfl rfl fun _ => .inl hstage
  | left result turn stage hstage hstage' =>
    have hopened (path : Path) : u.opened? ≠ some (some path) := by
      rw [Upload.opened?, hstage]
      intro h
      cases h
    rcases hstage' with rfl | rfl <;>
      refine continues_of_none hopened rfl rfl fun hunderway => ?_ <;>
      rcases hunderway with h | h | h
    all_goals first
      | cases h
      | exact absurd rfl h
  | finished => exact ⟨fun _ => Iff.rfl, fun file h => ⟨file, h, rfl⟩, fun h => h⟩
  | delayed file staged body remaining e hstage | copied file staged hstage
  | flushed file staged hstage =>
    have hopened : u.opened? = some staged := by rw [Upload.opened?, hstage]
    refine continues_of_some hopened rfl fun file' h => ?_
    cases h
    exact ⟨file, by rw [Upload.handle?, hstage], rfl⟩
  | synced file staged hstage =>
    have hopened : u.opened? = some (some staged) := by rw [Upload.opened?, hstage]
    exact continues_of_some hopened rfl fun file' h => by cases h
  | gaveUp staged cause body remaining hopened hwhy =>
    exact continues_of_some hopened rfl fun file' h => by cases h

theorem Upload.Stands.continues (h : u.Stands v root d₀ d user) (hcontinues : u.Continues u') :
    u'.Stands v root d₀ d user where
  folder hunderway := h.folder (hcontinues.underway hunderway)
  handle file hfile := by
    obtain ⟨file', hfile', htarget⟩ := hcontinues.handle file hfile
    rw [htarget]
    exact h.handle file' hfile'
  aside number hopened := by
    obtain ⟨id, hnode, htarget⟩ := h.aside number ((hcontinues.opened _).mp hopened)
    refine ⟨id, hnode, fun file hfile => ?_⟩
    obtain ⟨file', hfile', heq⟩ := hcontinues.handle file hfile
    rw [heq]
    exact htarget file' hfile'

/-- The files of a vault are its own: none of them was there when it was first used. -/
structure Fresh (root : Place) (d₀ d : Disk) : Prop where
  nextFile : d₀.nextFile ≤ d.nextFile
  spots : ∀ (spot : Spot) id, d.node? (spot.under root) = some (.file id) → d₀.nextFile ≤ id
  records : ∀ id, id < d₀.nextFile → d.record? id = d₀.record? id

theorem Fresh.recordsKept (h : Fresh root d₀ d) {P : Spot → Prop} {W : FileId → Prop}
    (hrecords : RecordsKept root P W d d') (hown : ∀ id, W id → d₀.nextFile ≤ id) :
    Fresh root d₀ d' where
  nextFile := Nat.le_trans h.nextFile hrecords.nextFile
  spots spot id hnode := by
    rcases hrecords.files spot id hnode with rfl | ⟨spot', -, hnode'⟩
    · exact h.nextFile
    · exact h.spots spot' id hnode'
  records id hlt := by
    rw [hrecords.record id (Nat.lt_of_lt_of_le hlt h.nextFile) fun hW => ?_, h.records id hlt]
    exact Nat.not_lt_of_le (hown id hW) hlt

/-- What an upload writes to is its own. -/
theorem Upload.Stands.writes (h : u.Stands v root d₀ d user) (hfresh : Fresh root d₀ d)
    {id : FileId} (hid : u.Writes root user name d id) : d₀.nextFile ≤ id := by
  rcases hid with ⟨file, hfile, htarget⟩ | ⟨-, hnode⟩
  · obtain ⟨id', htarget', hge, -⟩ := h.handle file hfile
    rw [htarget] at htarget'
    cases htarget'
    exact hge
  · exact hfresh.spots _ id hnode

theorem Move.stands (htree : Orderly v root d₀ d) (hfresh : Fresh root d₀ d)
    (h : u.Stands v root d₀ d user) (hmove : Move v root user name fault d u u' d') :
    u'.Stands v root d₀ d' user := by
  cases hmove with
  | idle _ hquiet => exact h.continues hquiet.continues
  | published | discarded => exact stands_settle _ _
  | prepared turn stage hstage hstage' =>
    rcases hstage' with rfl | rfl <;>
      exact stands_of_none rfl rfl fun _ => exists_withFolder d root user
  | madeAside number hstage hatomic hfits hnone =>
    obtain ⟨node, hfolder⟩ := h.folder (.inr (.inl hstage))
    refine ⟨fun _ => ⟨node, ?_⟩, fun file hfile => ?_, fun number' hopened => ?_⟩
    · rw [node?_putNew, if_neg (by simp), hfolder]
    · cases hfile
      refine ⟨_, rfl, hfresh.nextFile, Nat.lt_succ_self _, ?_⟩
      rw [putNew, record?_addFile, if_pos rfl]
      exact Option.some_ne_none _
    · cases pathOf_injective (Option.some.inj (Option.some.inj hopened))
      refine ⟨_, by rw [node?_putNew, if_pos rfl], fun file hfile => ?_⟩
      cases hfile
      rfl
  | madeInPlace hstage hatomic hfolder hnone =>
    obtain ⟨node, hfolder⟩ := hfolder
    refine ⟨fun _ => ⟨node, ?_⟩, fun file hfile => ?_, fun number' hopened => ?_⟩
    · rw [node?_putNew, if_neg (by simp), hfolder]
    · cases hfile
      refine ⟨_, rfl, hfresh.nextFile, Nat.lt_succ_self _, ?_⟩
      rw [putNew, record?_addFile, if_pos rfl]
      exact Option.some_ne_none _
    · cases hopened
  | emptied id hstage hatomic hnode =>
    have hid := htree.usable hnode
    refine ⟨fun _ => ?_, fun file hfile => ?_, fun number' hopened => ?_⟩
    · rw [node?_overwrite]
      exact h.folder (.inr (.inl hstage))
    · cases hfile
      refine ⟨id, rfl, hfresh.spots _ id hnode, by rw [nextFile_overwrite]; exact hid.lt, ?_⟩
      exact hid.overwrite.record?_ne_none
    · cases hopened
  | wrote file staged id bytes body hstage htarget =>
    have hopened : u.opened? = some staged := by rw [Upload.opened?, hstage]
    have hhandle : u.handle? = some file := by rw [Upload.handle?, hstage]
    have hcontinues : u.Continues
        { u with
          body
          remaining := u.remaining - min v.chunkSize u.remaining
          stage := .copying { file with offset := file.offset + bytes.length } staged } := by
      refine continues_of_some hopened rfl fun file' hfile => ?_
      cases hfile
      exact ⟨file, hhandle, rfl⟩
    exact (h.continues hcontinues).recordsKept (recordsKept_overwrite d root (fun _ => False) id _)
      fun _ _ h => h

/-- What stands aside after a step is the file of the upload, or stood there before and was not
its file. -/
theorem Move.staged (hmove : Move v root user name fault d u u' d') {number : Nat} {node : Node}
    (hnode : d'.node? (Spot.under (.staged number) root) = some node) :
    u'.opened? = some (some (v.pathOf (.staged number))) ∨
      d.node? (Spot.under (.staged number) root) = some node ∧
        u.opened? ≠ some (some (v.pathOf (.staged number))) := by
  cases hmove with
  | idle _ hquiet =>
    by_cases hopened : u.opened? = some (some (v.pathOf (.staged number)))
    · exact .inl ((hquiet.continues.opened _).mpr hopened)
    · exact .inr ⟨hnode, hopened⟩
  | prepared turn stage hstage =>
    refine .inr ⟨?_, by simp [Upload.opened?, hstage]⟩
    rwa [(spotsKept_withFolder d root user).node _ (by simp)] at hnode
  | madeAside number' hstage =>
    rw [node?_putNew] at hnode
    split at hnode
    next heq =>
      cases heq
      exact .inl rfl
    next => exact .inr ⟨hnode, by simp [Upload.opened?, hstage]⟩
  | madeInPlace hstage =>
    rw [node?_putNew, if_neg (by simp)] at hnode
    exact .inr ⟨hnode, by simp [Upload.opened?, hstage]⟩
  | emptied id hstage =>
    rw [node?_overwrite] at hnode
    exact .inr ⟨hnode, by simp [Upload.opened?, hstage]⟩
  | wrote file staged id bytes body hstage =>
    rw [node?_overwrite] at hnode
    by_cases hopened : u.opened? = some (some (v.pathOf (.staged number)))
    · rw [Upload.opened?, hstage] at hopened
      exact .inl hopened
    · exact .inr ⟨hnode, hopened⟩
  | published number' id hstage =>
    rw [node?_move, if_neg (by simp)] at hnode
    split at hnode
    · cases hnode
    next hne =>
      refine .inr ⟨hnode, fun hopened => hne ?_⟩
      rw [Upload.opened?, hstage] at hopened
      exact (pathOf_injective (Option.some.inj (Option.some.inj hopened))).symm
  | discarded staged cause spot hstage hown =>
    have hopened : u.opened? = some staged := by rw [Upload.opened?, hstage]
    have hne : Spot.staged number ≠ spot := by
      rintro rfl
      rw [node?_clear_self] at hnode
      cases hnode
    rw [(spotsKept_clear d root spot).node _ hne] at hnode
    refine .inr ⟨hnode, fun hopened' => hne ?_⟩
    rw [hopened] at hopened'
    cases hopened'
    generalize hpath : some (v.pathOf (.staged number)) = staged at hown
    cases hown with
    | aside _ number' _ => exact pathOf_injective (Option.some.inj hpath)
    | inPlace => cases hpath

/-- The file that an upload has open after a step is one that it may write to, or a new one. -/
theorem Move.handle (hmove : Move v root user name fault d u u' d') {file : Handle} {id : FileId}
    (hfile : u'.handle? = some file) (htarget : file.target = .file id) :
    u.Writes root user name d id ∨ id = d.nextFile := by
  cases hmove with
  | idle _ hquiet =>
    obtain ⟨file', hfile', heq⟩ := hquiet.continues.handle file hfile
    exact .inl (.inl ⟨file', hfile', heq ▸ htarget⟩)
  | prepared turn stage hstage hstage' =>
    rcases hstage' with rfl | rfl <;> cases hfile
  | madeAside | madeInPlace =>
    cases hfile
    cases htarget
    exact .inr rfl
  | emptied id' hstage hatomic hnode =>
    cases hfile
    cases htarget
    exact .inl (.inr ⟨hstage, hnode⟩)
  | wrote file' staged id' bytes body hstage htarget' =>
    cases hfile
    exact .inl (.inl ⟨file', by rw [Upload.handle?, hstage], htarget⟩)
  | published | discarded =>
    rw [handle?_settle] at hfile
    cases hfile

/-! ## 2. Crowds -/

/-- Every store of a crowd has what it relies on, and all that stands in the vault is there for a
store. -/
structure Crowd.Standing (v : Vault) (root : Place) (d₀ : Disk) (c : Crowd) : Prop where
  tidy : c.Tidy v root d₀
  fresh : Fresh root d₀ c.state.disk
  stores : ∀ i p, c.stores i = some p → p.upload.Stands v root d₀ c.state.disk p.order.user
  distinct : ∀ i j p q path, i ≠ j → c.stores i = some p → c.stores j = some q →
    p.upload.opened? = some (some path) → q.upload.opened? ≠ some (some path)
  owned : ∀ number node, c.state.disk.node? (Spot.under (.staged number) root) = some node →
    ∃ i p, c.stores i = some p ∧ p.upload.opened? = some (some (v.pathOf (.staged number)))
  folders : ∀ user node, c.state.disk.node? (Spot.under (.folder user) root) = some node →
    ∃ i p, c.stores i = some p ∧ p.order.user = user ∧ accepts p.order.name

/-- What a step of a store does to the store itself and to the vault. -/
structure Storing.Advances (v : Vault) (root : Place) (d₀ d : Disk) (p : Storing) (u' : Upload)
    (d' : Disk) : Prop where
  stands : u'.Stands v root d₀ d' p.order.user
  recordsKept : RecordsKept root (p.upload.Touches v root p.order.user p.order.name d)
    (p.upload.Writes root p.order.user p.order.name d) d d'
  opened : ∀ path, u'.opened? = some (some path) → p.upload.opened? = some (some path) ∨
    ∃ number, path = v.pathOf (.staged number) ∧
      d.node? (Spot.under (.staged number) root) = none
  staged : ∀ number node, d'.node? (Spot.under (.staged number) root) = some node →
    u'.opened? = some (some (v.pathOf (.staged number))) ∨
      d.node? (Spot.under (.staged number) root) = some node ∧
        p.upload.opened? ≠ some (some (v.pathOf (.staged number)))
  folder : ∀ user node, d'.node? (Spot.under (.folder user) root) = some node →
    d.node? (Spot.under (.folder user) root) = some node ∨ user = p.order.user ∧
      accepts p.order.name
  handle : ∀ file id, u'.handle? = some file → file.target = .file id →
    p.upload.Writes root p.order.user p.order.name d id ∨ id = d.nextFile

theorem Storing.Tidy.advances (hbase : EmptyBase v d₀ root) {p : Storing} {s : State}
    (h : p.Tidy v) (htree : Orderly v root d₀ s.disk) (hfresh : Fresh root d₀ s.disk)
    (hstands : p.upload.Stands v root d₀ s.disk p.order.user) (fault : Option Errno) :
    p.Advances v root d₀ s.disk (p.upload.step v fault s).1 (p.upload.step v fault s).2.disk := by
  rcases h with ⟨result, hstage⟩ | ⟨hname, hplaced⟩
  · rw [Upload.step_of_finished hstage]
    refine ⟨hstands, recordsKept_refl root _ _ _, fun _ h => .inl h, fun number node h => ?_,
      fun _ _ h => .inl h, fun file id h => ?_⟩
    · refine .inr ⟨h, ?_⟩
      rw [Upload.opened?, hstage]
      intro h
      cases h
    · rw [Upload.handle?, hstage] at h
      cases h
  · have hmove := move_step hbase htree hname hplaced fault
    refine ⟨hmove.stands htree hfresh hstands, hmove.recordsKept, fun _ h => hmove.opened h,
      fun _ _ h => hmove.staged h, fun user node hnode => ?_, fun _ _ => hmove.handle⟩
    by_cases hTouches : p.upload.Touches v root p.order.user p.order.name s.disk (.folder user)
    · exact .inr ⟨hTouches.1, hname⟩
    · rw [hmove.recordsKept.node _ hTouches] at hnode
      exact .inl hnode

/-- A step of a removal reaches no further than the user's file. -/
theorem Removing.Tidy.recordsKept (hbase : EmptyBase v d₀ root) {p : Removing} {s : State}
    (h : p.Tidy v) (htree : Orderly v root d₀ s.disk) (fault : Option Errno) :
    ∃ r : Prop, RecordsKept root (fun spot => spot = .file p.user p.name ∧ r) (fun _ => False)
      s.disk (p.removal.step fault s).2.disk := by
  rcases h with ⟨result, hstage⟩ | ⟨hname, htarget⟩
  · rw [Removal.step_of_finished hstage]
    exact ⟨False, recordsKept_refl root _ _ _⟩
  · exact ⟨_, (removal_step fault hbase htree hname htarget).recordsKept⟩

theorem Removing.Tidy.nextFile_eq (hbase : EmptyBase v d₀ root) {p : Removing} {s : State}
    (h : p.Tidy v) (htree : Orderly v root d₀ s.disk) (fault : Option Errno) :
    (p.removal.step fault s).2.disk.nextFile = s.disk.nextFile := by
  rcases h with ⟨result, hstage⟩ | ⟨hname, htarget⟩
  · rw [Removal.step_of_finished hstage]
  · exact (removal_step fault hbase htree hname htarget).nextFile_eq

/-- Who is in a slot of a crowd in which slot `i` has been given the party `a`. -/
theorem eq_some_update {α : Type} {slots : Nat → Option α} {i j : Nat} {a b : α}
    (h : Function.update slots i (some a) j = some b) :
    j = i ∧ b = a ∨ j ≠ i ∧ slots j = some b := by
  by_cases hj : j = i
  · rw [hj, Function.update_self] at h
    exact .inl ⟨hj, (Option.some.inj h).symm⟩
  · rw [Function.update_of_ne hj] at h
    exact .inr ⟨hj, h⟩

theorem update_self_of_ne {α : Type} {slots : Nat → Option α} {i j : Nat} {a b : α}
    (hj : j ≠ i) (h : slots j = some b) : Function.update slots i (some a) j = some b := by
  rw [Function.update_of_ne hj, h]

namespace Crowd

section
variable {i : Nat} {p : Storing} {u : Upload} {s : State}

/-- No store has its file aside where another one has it, or where there is nothing. -/
theorem Standing.apart (h : c.Standing v root d₀) (hp : c.stores i = some p) {j : Nat}
    {q : Storing} (hj : j ≠ i) (hq : c.stores j = some q) {number : Nat}
    (hfile : q.upload.opened? = some (some (v.pathOf (.staged number)))) :
    ¬p.upload.Touches v root p.order.user p.order.name c.state.disk (.staged number) := by
  rintro (hsame | ⟨-, hnone⟩)
  · exact h.distinct j i q p _ hj hq hp hfile hsame
  · obtain ⟨id, hnode, -⟩ := (h.stores j q hq).aside number hfile
    rw [hnone] at hnode
    cases hnode

/-- A file aside that a step of the store at `i` leaves it with is no other store's. -/
theorem Standing.opened_ne (h : c.Standing v root d₀) (hp : c.stores i = some p)
    (hadvances : p.Advances v root d₀ c.state.disk u d') {j : Nat} {q : Storing} (hj : j ≠ i)
    (hq : c.stores j = some q) {path : Path} (hfile : u.opened? = some (some path)) :
    q.upload.opened? ≠ some (some path) := by
  intro hfile'
  rcases hadvances.opened path hfile with hold | ⟨number, rfl, hnone⟩
  · exact h.distinct i j p q path (Ne.symm hj) hp hq hold hfile'
  · obtain ⟨id, hnode, -⟩ := (h.stores j q hq).aside number hfile'
    rw [hnone] at hnode
    cases hnode

theorem Standing.advance (h : c.Standing v root d₀) (hp : c.stores i = some p)
    (hadvances : p.Advances v root d₀ c.state.disk u s.disk) {events : List Event}
    (htidy : Crowd.Tidy v root d₀ { c with
      state := s, stores := Function.update c.stores i (some { p with upload := u }), events }) :
    Crowd.Standing v root d₀ { c with
      state := s, stores := Function.update c.stores i (some { p with upload := u }), events } where
  tidy := htidy
  fresh := h.fresh.recordsKept hadvances.recordsKept fun _ hid =>
    (h.stores i p hp).writes h.fresh hid
  stores j q hq := by
    rcases eq_some_update hq with ⟨rfl, rfl⟩ | ⟨hj, hq⟩
    · exact hadvances.stands
    · exact (h.stores j q hq).recordsKept hadvances.recordsKept fun number hfile =>
        h.apart hp hj hq hfile
  distinct j k q r path hjk hq hr hfile := by
    rcases eq_some_update hq with ⟨rfl, rfl⟩ | ⟨hj, hq'⟩
    · rcases eq_some_update hr with ⟨rfl, -⟩ | ⟨hk, hr'⟩
      · exact absurd rfl hjk
      · exact h.opened_ne hp hadvances hk hr' hfile
    · rcases eq_some_update hr with ⟨rfl, rfl⟩ | ⟨hk, hr'⟩
      · exact fun hfile' => h.opened_ne hp hadvances hj hq' hfile' hfile
      · exact h.distinct j k q r path hjk hq' hr' hfile
  owned number node hnode := by
    rcases hadvances.staged number node hnode with hown | ⟨hold, hne⟩
    · exact ⟨i, _, Function.update_self .., hown⟩
    · obtain ⟨j, q, hq, hfile⟩ := h.owned number node hold
      have hj : j ≠ i := by
        rintro rfl
        rw [hp] at hq
        cases hq
        exact hne hfile
      exact ⟨j, q, update_self_of_ne hj hq, hfile⟩
  folders user node hnode := by
    rcases hadvances.folder user node hnode with hold | ⟨rfl, hname⟩
    · obtain ⟨j, q, hq, huser⟩ := h.folders user node hold
      -- the store at `i` is there under its order before and after the step
      by_cases hj : j = i
      · subst hj
        rw [hp] at hq
        cases hq
        exact ⟨j, _, Function.update_self .., huser⟩
      · exact ⟨j, q, update_self_of_ne hj hq, huser⟩
    · exact ⟨i, _, Function.update_self .., rfl, hname⟩

/-- Somebody comes with an order. -/
theorem Standing.enter (h : c.Standing v root d₀) (hfree : c.stores i = none) (order : Order)
    (htidy : Crowd.Tidy v root d₀ { c with stores := Function.update c.stores i (some
      { order, upload := Upload.start v order.user order.name order.length order.body }) }) :
    Crowd.Standing v root d₀ { c with stores := Function.update c.stores i (some
      { order, upload := Upload.start v order.user order.name order.length order.body }) } := by
  have hclosed := Upload.opened?_start v order.user order.name order.length order.body
  have hstill {j : Nat} {q : Storing} (hq : c.stores j = some q) : j ≠ i := by
    rintro rfl
    rw [hfree] at hq
    cases hq
  refine ⟨htidy, h.fresh, ?_, ?_, ?_, ?_⟩
  · exact forall_update h.stores (stands_start ..)
  · intro j k q r path hjk hq hr hfile
    rcases eq_some_update hq with ⟨rfl, rfl⟩ | ⟨hj, hq⟩
    · rw [hclosed] at hfile
      cases hfile
    · rcases eq_some_update hr with ⟨rfl, rfl⟩ | ⟨hk, hr⟩
      · rw [hclosed]
        exact fun heq => nomatch heq
      · exact h.distinct j k q r path hjk hq hr hfile
  · intro number node hnode
    obtain ⟨j, q, hq, hfile⟩ := h.owned number node hnode
    exact ⟨j, q, update_self_of_ne (hstill hq) hq, hfile⟩
  · intro user node hnode
    obtain ⟨j, q, hq, huser⟩ := h.folders user node hnode
    exact ⟨j, q, update_self_of_ne (hstill hq) hq, huser⟩

/-- What happens beside the stores leaves them as they stand, as long as it is to users' files
only. -/
theorem Standing.beside (h : c.Standing v root d₀) {P : Spot → Prop}
    (hrecords : RecordsKept root P (fun _ => False) c.state.disk s.disk)
    (hfile : ∀ spot, P spot → ∃ user name, spot = .file user name) {c' : Crowd}
    (hstate : c'.state = s) (hstores : c'.stores = c.stores) (htidy : c'.Tidy v root d₀) :
    c'.Standing v root d₀ := by
  have hnode {spot : Spot} (hspot : ∀ user name, spot ≠ .file user name) :
      s.disk.node? (spot.under root) = c.state.disk.node? (spot.under root) := by
    refine hrecords.node spot fun hP => ?_
    obtain ⟨user, name, heq⟩ := hfile spot hP
    exact hspot user name heq
  refine ⟨htidy, ?_, ?_, ?_, ?_, ?_⟩
  · rw [hstate]
    exact h.fresh.recordsKept hrecords fun _ hfalse => hfalse.elim
  · intro i p hp
    rw [hstores] at hp
    rw [hstate]
    refine (h.stores i p hp).recordsKept hrecords fun number _ hP => ?_
    obtain ⟨user, name, heq⟩ := hfile _ hP
    cases heq
  · rw [hstores]
    exact h.distinct
  · intro number node h'
    rw [hstate, hnode (by simp)] at h'
    rw [hstores]
    exact h.owned number node h'
  · intro user node h'
    rw [hstate, hnode (by simp)] at h'
    rw [hstores]
    exact h.folders user node h'

end

/-- A crowd in which nobody has moved stands as it did. -/
theorem Standing.same (h : c.Standing v root d₀) {c' : Crowd} (hstate : c'.state = c.state)
    (hstores : c'.stores = c.stores) (htidy : c'.Tidy v root d₀) : c'.Standing v root d₀ :=
  h.beside (recordsKept_refl root (fun _ => False) _ _) (fun _ hfalse => hfalse.elim) hstate hstores
    htidy

theorem Standing.step (hbase : EmptyBase v d₀ root) (h : c.Standing v root d₀) (action : Action) :
    (c.step v action).Standing v root d₀ := by
  have htidy := h.tidy.step hbase action
  cases action with
  | store i order =>
    simp only [Crowd.step] at htidy ⊢
    split at htidy
    · exact h
    next hfree => exact h.enter hfree order htidy
  | advanceStore i fault =>
    simp only [Crowd.step] at htidy ⊢
    split at htidy
    · exact h
    next p hp =>
      split at htidy
      · rename_i hready
        rw [if_pos hready]
        exact h.advance hp ((h.tidy.stores i p hp).advances hbase h.tidy.tree h.fresh
          (h.stores i p hp) fault) htidy
      · rename_i hready
        rw [if_neg hready]
        exact h
  | advanceRemoval i fault =>
    simp only [Crowd.step] at htidy ⊢
    split at htidy
    · exact h
    next p hp =>
      split at htidy
      · rename_i hready
        rw [if_pos hready]
        obtain ⟨r, hrecords⟩ := (h.tidy.removals i p hp).recordsKept hbase h.tidy.tree fault
        exact h.beside hrecords (fun spot hP => ⟨_, _, hP.1⟩) rfl rfl htidy
      · rename_i hready
        rw [if_neg hready]
        exact h
  | remove i user name | restore i user name | read i count =>
    simp only [Crowd.step] at htidy ⊢
    split at htidy
    · exact h
    · exact h.same rfl rfl htidy
  | list user => exact h

/-- In a vault that has just been prepared there is nothing but the directory for files on their
way in. -/
theorem node?_prepare (hbase : EmptyBase v d₀ root) {spot : Spot} (hspot : spot ≠ .staging) :
    (v.prepare d₀).2.node? (spot.under root) = none := by
  rw [prepare_eq hbase]
  show (d₀.addDirectory _).node? _ = _
  rw [node?_addDirectory (Spot.under_ne_nil _ _),
    if_neg fun heq => hspot (Spot.under_injective heq)]
  exact hbase.node?_below (isBelow_under _ _)

theorem standing_start (hbase : EmptyBase v d₀ root) : (start v d₀).Standing v root d₀ := by
  have hrecord : (v.prepare d₀).2.record? = d₀.record? ∧
      (v.prepare d₀).2.nextFile = d₀.nextFile := by
    rw [prepare_eq hbase]
    exact ⟨rfl, rfl⟩
  have hnone {spot : Spot} (hspot : spot ≠ .staging) {node : Node} :
      (v.prepare d₀).2.node? (spot.under root) ≠ some node := by
    rw [node?_prepare hbase hspot]
    exact fun heq => nomatch heq
  refine ⟨tidy_start hbase, ⟨Nat.le_of_eq hrecord.2.symm, fun spot id hnode => ?_, fun id _ => ?_⟩,
    fun _ _ h => (nomatch h), fun _ _ _ _ _ _ h => (nomatch h), fun number node hnode => ?_,
    fun user node hnode => ?_⟩
  · by_cases hspot : spot = .staging
    · obtain ⟨mode, hstaging, -⟩ := (orderly_prepare hbase).staging_directory
      rw [hspot] at hnode
      cases hstaging.symm.trans hnode
    · exact absurd hnode (hnone hspot)
  · exact congrFun hrecord.1 id
  · exact absurd hnode (hnone (by simp))
  · exact absurd hnode (hnone (by simp))

theorem standing_run (hbase : EmptyBase v d₀ root) (actions : List Action) :
    (run v (start v d₀) actions).Standing v root d₀ :=
  run_induction actions (fun _ action h => h.step hbase action) (standing_start hbase)

end Crowd

end UserVault.Vault
