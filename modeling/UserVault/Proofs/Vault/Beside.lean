import UserVault.Proofs.Vault.Holding
import UserVault.Proofs.Vault.Ledger

/-!
# What a store does beside others

In a vault that writes files aside, a step of a store changes nothing that others can see, except
when it renames its file into its place: then the whole payload stands there at once.
-/

namespace UserVault.Vault

open Disk Link

variable {v : Vault} {root : Place} {d₀ d d' : Disk} {user : UInt32} {name payload : Bytes}
  {u u' : Upload} {fault : Option Errno}

/-! ## 1. Files that nobody writes to -/

/-- A file that exists and is not on its way in. -/
structure Frozen (root : Place) (d : Disk) (id : FileId) : Prop where
  lt : id < d.nextFile
  not_staged : ∀ number, d.node? (Spot.under (.staged number) root) ≠ some (.file id)

/-- From `d` to `d'` nothing happened to the spots of which `P` does not hold, nor to any file that
was not on its way in. -/
structure FrozenKept (root : Place) (P : Spot → Prop) (d d' : Disk) : Prop where
  kept : SpotsKept root P d d'
  frozen : ∀ id, Frozen root d id → Frozen root d' id
  content : ∀ id, Frozen root d id → d'.contentOf id = d.contentOf id

theorem Frozen.of_staged {id : FileId} (h : Frozen root d id) (hnext : d.nextFile ≤ d'.nextFile)
    (hstaged : ∀ number node, d'.node? (Spot.under (.staged number) root) = some node →
      d.node? (Spot.under (.staged number) root) = some node ∨ node = .file d.nextFile) :
    Frozen root d' id := by
  refine ⟨Nat.lt_of_lt_of_le h.lt hnext, fun number hnode => ?_⟩
  rcases hstaged number _ hnode with hold | hnew
  · exact h.not_staged number hold
  · cases hnew
    exact Nat.lt_irrefl _ h.lt

theorem FrozenKept.refl (root : Place) (P : Spot → Prop) (d : Disk) : FrozenKept root P d d :=
  ⟨SpotsKept.refl root P d, fun _ h => h, fun _ _ => rfl⟩

theorem FrozenKept.mono {P Q : Spot → Prop} (h : FrozenKept root P d d')
    (hPQ : ∀ spot, P spot → Q spot) : FrozenKept root Q d d' :=
  ⟨h.kept.mono hPQ, h.frozen, h.content⟩

theorem frozenKept_withFolder (d : Disk) (root : Place) (user : UInt32) :
    FrozenKept root (· = .folder user) d (withFolder d root user) := by
  have hkept := spotsKept_withFolder d root user
  have hnext : d.nextFile ≤ (withFolder d root user).nextFile := by
    unfold withFolder
    split <;> exact Nat.le_refl _
  refine ⟨hkept, fun id h => h.of_staged hnext fun number node hnode => .inl ?_, fun id _ => ?_⟩
  · rw [← hkept.node _ (by simp)]
    exact hnode
  · unfold withFolder
    split <;> rfl

theorem frozenKept_putNew (h : Orderly v root d₀ d) (number : Nat) :
    FrozenKept root (· = .staged number) d (putNew d root (.staged number)) := by
  refine ⟨spotsKept_putNew h _,
    fun id hid => hid.of_staged (Nat.le_succ _) fun number' node hnode => ?_, fun id hid => ?_⟩
  · rw [node?_putNew] at hnode
    split at hnode
    · exact .inr (Option.some.inj hnode).symm
    · exact .inl hnode
  · rw [putNew, contentOf_addFile, if_neg (Nat.ne_of_lt hid.lt)]

-- A write to a file on its way in.
theorem frozenKept_overwrite (h : Orderly v root d₀ d) {number : Nat} {id : FileId}
    (hnode : d.node? (Spot.under (.staged number) root) = some (.file id)) (content : Content) :
    FrozenKept root (· = .staged number) d (d.overwrite id content) := by
  have hnext := Nat.le_of_eq (nextFile_overwrite (d := d) id content).symm
  refine ⟨spotsKept_overwrite h hnode content, fun id' hid => hid.of_staged hnext
    fun number' node hnode' => ?_, fun id' hid => ?_⟩
  · rw [node?_overwrite] at hnode'
    exact .inl hnode'
  · rw [contentOf_overwrite (h.usable hnode).record?_ne_none, if_neg]
    rintro rfl
    exact hid.not_staged number hnode

theorem frozenKept_move (d : Disk) (root : Place) (number : Nat) (user : UInt32) (name : Bytes)
    (id : FileId) :
    FrozenKept root (fun s => s = .file user name ∨ s = .staged number) d
      (move d root (.staged number) (.file user name) id) := by
  refine ⟨spotsKept_move d root _ _ id, fun id' hid => hid.of_staged (Nat.le_refl _)
    fun number' node hnode => .inl ?_, fun _ _ => rfl⟩
  rw [node?_move, if_neg (by simp)] at hnode
  split at hnode
  · cases hnode
  · exact hnode

theorem frozenKept_take (d : Disk) (root : Place) (spot : Spot) :
    FrozenKept root (· = spot) d (take d root spot) := by
  refine ⟨spotsKept_take d root spot, fun id hid => hid.of_staged (Nat.le_refl _)
    fun number' node hnode => .inl ?_, fun _ _ => rfl⟩
  rw [node?_take] at hnode
  split at hnode
  · cases hnode
  · exact hnode

theorem frozenKept_clear (d : Disk) (root : Place) (spot : Spot) :
    FrozenKept root (· = spot) d (clear d root spot) := by
  unfold clear
  split
  · exact frozenKept_take d root spot
  · exact FrozenKept.refl root _ d

/-! ## 2. What a step of a store does beside others -/

/-- A step has renamed the file of an upload into its place. -/
structure Upload.Publishes (u u' : Upload) : Prop where
  stage : ∃ staged, u.stage = .publishing staged
  outcome : u'.outcome? = some (.ok ())

/-- The spots that a step of a store may change. -/
def Reach (v : Vault) (root : Place) (user : UInt32) (name : Bytes) (u u' : Upload) (d : Disk)
    (spot : Spot) : Prop :=
  spot = .folder user ∨ spot = .file user name ∧ u.Publishes u' ∨
    ∃ number, spot = .staged number ∧
      (u.opened? = some (some (v.pathOf spot)) ∨ d.node? (spot.under root) = none)

-- The spot of the file that an upload has opened is within its reach.
theorem Own.reach (hatomic : v.options.atomic = true) {staged : Option Path} {spot : Spot}
    (hown : Own v user name staged spot) (hopened : u.opened? = some staged) :
    Reach v root user name u u' d spot := by
  cases hown with
  | aside _ number _ => exact .inr (.inr ⟨number, rfl, .inl hopened⟩)
  | inPlace hinPlace =>
    rw [hatomic] at hinPlace
    cases hinPlace

theorem Own.exists_staged (hatomic : v.options.atomic = true) {staged : Option Path} {spot : Spot}
    (hown : Own v user name staged spot) :
    ∃ number, spot = .staged number ∧ staged = some (v.pathOf (.staged number)) := by
  cases hown with
  | aside _ number _ => exact ⟨number, rfl, rfl⟩
  | inPlace hinPlace =>
    rw [hatomic] at hinPlace
    cases hinPlace

/-- In a vault that writes files aside, a step of a store leaves alone what others can see, but for
the file that it renames into its place. -/
theorem Move.beside (hatomic : v.options.atomic = true) (htree : Orderly v root d₀ d)
    (hu : Placed v user name u) (hholding : Holding v root user name payload u d)
    (hmove : Move v root user name fault d u u' d') :
    FrozenKept root (Reach v root user name u u' d) d d' := by
  cases hmove with
  | idle => exact FrozenKept.refl root _ d
  | prepared => exact (frozenKept_withFolder d root user).mono fun _ heq => .inl heq
  | madeAside number _ _ _ hnone =>
    refine (frozenKept_putNew htree number).mono fun spot heq => ?_
    subst heq
    exact .inr (.inr ⟨number, rfl, .inr hnone⟩)
  | madeInPlace _ hinPlace | emptied _ _ hinPlace =>
    rw [hatomic] at hinPlace
    cases hinPlace
  | wrote file staged id bytes body hstage htarget =>
    have hopened : u.opened? = some staged := by rw [Upload.opened?, hstage]
    obtain ⟨spot, id', hown, hnode, hkeeps⟩ := hholding.exists_file hu hopened
    obtain ⟨number, rfl, rfl⟩ := hown.exists_staged hatomic
    have heq := hkeeps.target file (by rw [Upload.handle?, hstage])
    rw [htarget] at heq
    cases heq
    refine (frozenKept_overwrite htree hnode _).mono fun spot heq => ?_
    subst heq
    exact hown.reach hatomic hopened
  -- the one step that others see: it publishes, and gives up its own spot aside
  | published number id hstage =>
    have hopened : u.opened? = some (some (v.pathOf (.staged number))) := by
      rw [Upload.opened?, hstage]
    refine (frozenKept_move d root number user name id).mono fun spot hspot => ?_
    rcases hspot with rfl | rfl
    · exact .inr (.inl ⟨rfl, ⟨_, hstage⟩, Upload.outcome?_settle _ _⟩)
    · exact .inr (.inr ⟨number, rfl, .inl hopened⟩)
  | discarded staged cause spot hstage hown =>
    refine (frozenKept_clear d root spot).mono fun spot' heq => ?_
    subst heq
    exact hown.reach hatomic (by rw [Upload.opened?, hstage])

/-- A step opens a file aside only where there is none yet. -/
theorem Move.opened (hmove : Move v root user name fault d u u' d') {path : Path}
    (hopened : u'.opened? = some (some path)) :
    u.opened? = some (some path) ∨
      ∃ number, path = v.pathOf (.staged number) ∧
        d.node? (Spot.under (.staged number) root) = none := by
  cases hmove with
  | idle _ hquiet =>
    refine .inl ?_
    cases hquiet with
    | refused | completed =>
      rw [opened?_settle] at hopened
      cases hopened
    | waited turn stage _ hstage' =>
      rcases hstage' with rfl | rfl <;> cases hopened
    | left result turn stage _ hstage' =>
      rcases hstage' with rfl | rfl <;> cases hopened
    | delayed file staged _ _ _ hstage | copied file staged hstage | flushed file staged hstage =>
      cases hopened
      rw [Upload.opened?, hstage]
    | synced file staged hstage =>
      cases hopened
      rw [Upload.opened?, hstage]
    | gaveUp staged cause _ _ hopened' =>
      cases hopened
      exact hopened'
    | finished => exact hopened
  | prepared turn stage _ hstage' =>
    rcases hstage' with rfl | rfl <;> cases hopened
  | madeAside number _ _ _ hnone =>
    cases hopened
    exact .inr ⟨number, rfl, hnone⟩
  | madeInPlace | emptied => cases hopened
  | wrote file staged _ _ _ hstage =>
    cases hopened
    exact .inl (by rw [Upload.opened?, hstage])
  | published | discarded =>
    rw [opened?_settle] at hopened
    cases hopened

/-- What a store puts in its place is its whole payload. -/
theorem Move.publishes (hatomic : v.options.atomic = true) (hu : Placed v user name u)
    {missing tail : Bytes} {barrier : Option FaultKind}
    (haccounts : u.Accounts payload missing tail barrier)
    (hholding : Holding v root user name payload u d)
    (hmove : Move v root user name fault d u u' d') (hpublishes : u.Publishes u') :
    fileAt d' (Spot.under (.file user name) root) = some payload ∧
      u.body.front ++ missing = tail := by
  -- of all steps that start from `publishing`, only a rename comes to a success
  obtain ⟨⟨path, hstage⟩, houtcome⟩ := hpublishes
  cases hmove with
  | idle _ hquiet =>
    cases hquiet with
    | refused _ hwhy =>
      rcases hwhy with ⟨hstage', -⟩ | ⟨hstage', -⟩ <;> rw [hstage] at hstage' <;> cases hstage'
    | waited _ _ hstage' | delayed _ _ _ _ _ hstage' | copied _ _ hstage' | flushed _ _ hstage'
    | synced _ _ hstage' | completed _ hstage' | left _ _ _ hstage' | finished _ hstage' =>
      rw [hstage] at hstage'
      cases hstage'
    | gaveUp => cases houtcome
  | prepared _ _ hstage' | madeAside _ hstage' | madeInPlace hstage' | emptied _ hstage'
  | wrote _ _ _ _ _ hstage' | discarded _ _ _ hstage' =>
    rw [hstage] at hstage'
    cases hstage'
  | published number id hstage' hnode hfolder =>
    have hopened : u.opened? = some (some (v.pathOf (.staged number))) := by
      rw [Upload.opened?, hstage']
    obtain ⟨spot, id', hown, hnode', hkeeps⟩ := hholding.exists_file hu hopened
    obtain ⟨number', rfl, hpath⟩ := hown.exists_staged hatomic
    cases pathOf_injective (Option.some.inj hpath)
    rw [hnode] at hnode'
    cases hnode'
    have hread : u.hasRead = true := by rw [Upload.hasRead, hstage']
    have hintact : u.Intact := by
      rw [Upload.Intact, hstage']
      trivial
    have hplaced : (move d root (.staged number) (.file user name) id).node?
        (Spot.under (.file user name) root) = some (.file id) := by
      rw [node?_move, if_pos rfl]
    constructor
    · rw [fileAt_of_file hplaced]
      exact congrArg some (hkeeps.whole haccounts hread hintact)
    · cases haccounts with
      | cutOff cause hcause _ =>
        rw [Upload.outcome?, hstage'] at hcause
        cases hcause
      | good hfed hzero _ =>
        have hfront := hfed.front
        rwa [hzero hread, Nat.sub_zero, List.drop_length, List.nil_append] at hfront

end UserVault.Vault
