import UserVault.Proofs.Vault.Confined

/-!
# Disks that are alike

Two disks on which a vault has worked may look the same to somebody although other files stand on
them too and the files have other identities.  The disks are alike at some spots if the same stands
there on both, up to the identities of files.  What changes both disks in the same way leaves them
alike, and so does what changes one of them elsewhere.
-/

namespace UserVault.Vault

open Disk

variable {v : Vault} {root : Place} {d₀ d d' d₁ d₁' : Disk} {W P : Spot → Prop} {X : FileId → Prop}
  {ρ ρ' : FileId → FileId → Prop} {id id' : FileId}

/-! ## 1. Likeness -/

/-- The same stands at a spot of two disks, where `ρ` tells which files correspond. -/
inductive Corresponding (ρ : FileId → FileId → Prop) : Option Node → Option Node → Prop
  | vacant : Corresponding ρ none none
  | directory (mode : Nat) : Corresponding ρ (some (.directory mode)) (some (.directory mode))
  | file (id id' : FileId) (h : ρ id id') : Corresponding ρ (some (.file id)) (some (.file id'))

/-- Two disks are alike at the spots of which `W` holds.  Files correspond one to one, and those
that do have the same content and permissions. -/
structure Alike (root : Place) (W : Spot → Prop) (ρ : FileId → FileId → Prop) (d d' : Disk) :
    Prop where
  bound : d'.bound = d.bound
  umask : d'.umask = d.umask
  lt : ∀ id id', ρ id id' → id < d.nextFile ∧ id' < d'.nextFile
  record : ∀ id id', ρ id id' → d'.record? id' = d.record? id
  unique : ∀ id₁ id₁' id₂ id₂', ρ id₁ id₁' → ρ id₂ id₂' → (id₁ = id₂ ↔ id₁' = id₂')
  node : ∀ spot : Spot, W spot →
    Corresponding ρ (d.node? (spot.under root)) (d'.node? (spot.under root))

/-- The files that correspond after a step: those that did, and the new ones if both disks got
one. -/
structure Grows (d d' : Disk) (ρ ρ' : FileId → FileId → Prop) : Prop where
  old : ∀ id id', ρ id id' → ρ' id id'
  new : ∀ id id', ρ' id id' → ρ id id' ∨ id = d.nextFile ∧ id' = d'.nextFile

/-- The next new file of each disk corresponds to that of the other one. -/
def joined (ρ : FileId → FileId → Prop) (d d' : Disk) (id id' : FileId) : Prop :=
  ρ id id' ∨ id = d.nextFile ∧ id' = d'.nextFile

theorem Grows.refl (d d' : Disk) (ρ : FileId → FileId → Prop) : Grows d d' ρ ρ :=
  ⟨fun _ _ h => h, fun _ _ h => .inl h⟩

theorem grows_joined (d d' : Disk) (ρ : FileId → FileId → Prop) : Grows d d' ρ (joined ρ d d') :=
  ⟨fun _ _ h => .inl h, fun _ _ h => h⟩

theorem Corresponding.mono {node node' : Option Node} (h : Corresponding ρ node node')
    (hρ : ∀ id id', ρ id id' → ρ' id id') : Corresponding ρ' node node' := by
  cases h with
  | vacant => exact .vacant
  | directory mode => exact .directory mode
  | file id id' h => exact .file id id' (hρ id id' h)

theorem Corresponding.symm {node node' : Option Node} (h : Corresponding ρ node node') :
    Corresponding (fun id' id => ρ id id') node' node := by
  cases h with
  | vacant => exact .vacant
  | directory mode => exact .directory mode
  | file id id' h => exact .file id' id h

theorem Corresponding.isSome_eq {node node' : Option Node} (h : Corresponding ρ node node') :
    node'.isSome = node.isSome := by
  cases h <;> rfl

namespace Alike

theorem symm (h : Alike root W ρ d d') : Alike root W (fun id' id => ρ id id') d' d where
  bound := h.bound.symm
  umask := h.umask.symm
  lt id' id hid := (h.lt id id' hid).symm
  record id' id hid := (h.record id id' hid).symm
  unique id₁' id₁ id₂' id₂ h₁ h₂ := (h.unique id₁ id₁' id₂ id₂' h₁ h₂).symm
  node spot hspot := (h.node spot hspot).symm

theorem contentOf (h : Alike root W ρ d d') (hid : ρ id id') :
    d'.contentOf id' = d.contentOf id := by
  rw [Disk.contentOf, h.record id id' hid, Disk.contentOf]

theorem grant (h : Alike root W ρ d d') (mode : Nat) : d'.grant mode = d.grant mode := by
  rw [Disk.grant, Disk.grant, h.umask]

/-! ## 2. Changes of one disk -/

/-- What happens to one disk away from the spots and the files in question does not matter. -/
theorem beside (h : Alike root W ρ d d') (hrecords : RecordsKept root P X d d₁)
    (hbound : d₁.bound = d.bound) (humask : d₁.umask = d.umask)
    (hspots : ∀ spot, W spot → ¬P spot) (hfiles : ∀ id id', ρ id id' → ¬X id) :
    Alike root W ρ d₁ d' where
  bound := h.bound.trans hbound.symm
  umask := h.umask.trans humask.symm
  lt id id' hid := (h.lt id id' hid).imp_left fun hlt => Nat.lt_of_lt_of_le hlt hrecords.nextFile
  record id id' hid :=
    (h.record id id' hid).trans
      (hrecords.record id (h.lt id id' hid).1 (hfiles id id' hid)).symm
  unique := h.unique
  node spot hspot := by
    rw [hrecords.node spot (hspots spot hspot)]
    exact h.node spot hspot

theorem beside_right (h : Alike root W ρ d d') (hrecords : RecordsKept root P X d' d₁')
    (hbound : d₁'.bound = d'.bound) (humask : d₁'.umask = d'.umask)
    (hspots : ∀ spot, W spot → ¬P spot) (hfiles : ∀ id id', ρ id id' → ¬X id') :
    Alike root W ρ d d₁' :=
  (h.symm.beside hrecords hbound humask hspots fun id' id hid => hfiles id id' hid).symm

/-! ## 3. Changes of both disks -/

/-- A change of both trees that touches no file. -/
theorem of_nodes (h : Alike root W ρ d d') {nodes nodes' : Table Place Node}
    (hd : d₁ = { d with nodes }) (hd' : d₁' = { d' with nodes := nodes' })
    (hnode : ∀ spot : Spot, W spot →
      Corresponding ρ (d₁.node? (spot.under root)) (d₁'.node? (spot.under root))) :
    Alike root W ρ d₁ d₁' := by
  subst hd hd'
  exact ⟨h.bound, h.umask, h.lt, h.record, h.unique, hnode⟩

/-- A user's directory is made on both disks, where it is missing. -/
theorem withFolder (h : Alike root W ρ d d') (user : UInt32) :
    Alike root W ρ (Vault.withFolder d root user) (Vault.withFolder d' root user) := by
  have hnodes (d : Disk) : ∃ nodes, Vault.withFolder d root user = { d with nodes } := by
    unfold Vault.withFolder
    split
    · exact ⟨_, rfl⟩
    · exact ⟨_, rfl⟩
  obtain ⟨nodes, hd⟩ := hnodes d
  obtain ⟨nodes', hd'⟩ := hnodes d'
  refine h.of_nodes hd hd' fun spot hspot => ?_
  have hsame := h.node spot hspot
  by_cases heq : spot = .folder user
  · subst heq
    have hsome := hsame.isSome_eq
    unfold Vault.withFolder
    rw [hsome]
    split
    · exact hsame
    · rw [node?_putFolder, node?_putFolder, if_pos rfl, if_pos rfl, h.grant]
      exact .directory _
  · rw [(spotsKept_withFolder d root user).node spot heq,
      (spotsKept_withFolder d' root user).node spot heq]
    exact hsame

/-- A new file on both disks; it need not be at the same spot if nobody looks there. -/
theorem putNew (h : Alike root W ρ d d') {spot spot' : Spot}
    (hspots : ∀ s, W s → (s = spot ↔ s = spot')) :
    Alike root W (joined ρ d d') (Vault.putNew d root spot) (Vault.putNew d' root spot') where
  bound := h.bound
  umask := h.umask
  lt id id' hid := by
    rcases hid with hid | ⟨rfl, rfl⟩
    · exact (h.lt id id' hid).imp Nat.lt_succ_of_lt Nat.lt_succ_of_lt
    · exact ⟨Nat.lt_succ_self _, Nat.lt_succ_self _⟩
  record id id' hid := by
    rw [Vault.putNew, Vault.putNew, record?_addFile, record?_addFile]
    rcases hid with hid | ⟨rfl, rfl⟩
    · rw [if_neg (Nat.ne_of_lt (h.lt id id' hid).1), if_neg (Nat.ne_of_lt (h.lt id id' hid).2),
        h.record id id' hid]
    · rw [if_pos rfl, if_pos rfl, h.grant]
  unique id₁ id₁' id₂ id₂' h₁ h₂ := by
    rcases h₁ with h₁ | ⟨rfl, rfl⟩
    · rcases h₂ with h₂ | ⟨rfl, rfl⟩
      · exact h.unique _ _ _ _ h₁ h₂
      · have hlt := h.lt _ _ h₁
        exact ⟨fun heq => absurd heq (Nat.ne_of_lt hlt.1),
          fun heq => absurd heq (Nat.ne_of_lt hlt.2)⟩
    · rcases h₂ with h₂ | ⟨rfl, rfl⟩
      · have hlt := h.lt _ _ h₂
        exact ⟨fun heq => absurd heq.symm (Nat.ne_of_lt hlt.1),
          fun heq => absurd heq.symm (Nat.ne_of_lt hlt.2)⟩
      · exact ⟨fun _ => rfl, fun _ => rfl⟩
  node s hs := by
    rw [node?_putNew, node?_putNew]
    by_cases heq : s = spot
    · rw [if_pos heq, if_pos ((hspots s hs).mp heq)]
      exact .file _ _ (.inr ⟨rfl, rfl⟩)
    · rw [if_neg heq, if_neg fun heq' => heq ((hspots s hs).mpr heq')]
      exact (h.node s hs).mono fun _ _ hid => .inl hid

/-- Files that correspond get the same content. -/
theorem overwrite (h : Alike root W ρ d d') (hid : ρ id id') (content : Content) :
    Alike root W ρ (d.overwrite id content) (d'.overwrite id' content) where
  bound := by rw [bound_overwrite, bound_overwrite, h.bound]
  umask := by rw [umask_overwrite, umask_overwrite, h.umask]
  lt id₁ id₁' h₁ := by
    rw [nextFile_overwrite, nextFile_overwrite]
    exact h.lt id₁ id₁' h₁
  record id₁ id₁' h₁ := by
    rw [record?_overwrite, record?_overwrite, h.bound, h.record id id' hid]
    by_cases heq : id₁ = id
    · rw [if_pos heq, if_pos ((h.unique _ _ _ _ h₁ hid).mp heq)]
    · rw [if_neg heq, if_neg fun heq' => heq ((h.unique _ _ _ _ h₁ hid).mpr heq'),
        h.record id₁ id₁' h₁]
  unique := h.unique
  node spot hspot := by
    rw [node?_overwrite, node?_overwrite]
    exact h.node spot hspot

/-- Files that correspond are moved from where nobody looks. -/
theorem move (h : Alike root W ρ d d') (hid : ρ id id') {source source' : Spot} (target : Spot)
    (hsource : ¬W source) (hsource' : ¬W source') :
    Alike root W ρ (Vault.move d root source target id)
      (Vault.move d' root source' target id') := by
  refine h.of_nodes rfl rfl fun spot hspot => ?_
  have hne : spot ≠ source := fun heq => hsource (heq ▸ hspot)
  have hne' : spot ≠ source' := fun heq => hsource' (heq ▸ hspot)
  rw [node?_move, node?_move, if_neg hne, if_neg hne']
  split
  · exact .file id id' hid
  · exact h.node spot hspot

/-- What stands at a spot is taken away, if anything does. -/
theorem clear (h : Alike root W ρ d d') {spot spot' : Spot}
    (hspots : ∀ s, W s → (s = spot ↔ s = spot')) :
    Alike root W ρ (Vault.clear d root spot) (Vault.clear d' root spot') := by
  have hnodes (d : Disk) (spot : Spot) : ∃ nodes, Vault.clear d root spot = { d with nodes } := by
    unfold Vault.clear
    split
    · exact ⟨_, rfl⟩
    · exact ⟨_, rfl⟩
  obtain ⟨nodes, hd⟩ := hnodes d spot
  obtain ⟨nodes', hd'⟩ := hnodes d' spot'
  refine h.of_nodes hd hd' fun s hs => ?_
  by_cases heq : s = spot
  · have heq' := (hspots s hs).mp heq
    rw [heq', node?_clear_self, ← heq', heq, node?_clear_self]
    exact .vacant
  · rw [(spotsKept_clear d root spot).node s heq,
      (spotsKept_clear d' root spot').node s fun heq' => heq ((hspots s hs).mpr heq')]
    exact h.node s hs

end Alike

end UserVault.Vault
