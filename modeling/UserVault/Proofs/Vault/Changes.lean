import UserVault.Proofs.Vault.Tree

/-!
# Changes that keep a tree orderly

The vault puts directories and files at spots, moves files between spots, takes files away and
writes to files.  None of these leaves the form of an orderly tree.
-/

namespace UserVault.Vault

open Disk

variable {v : Vault} {root : Place} {d₀ d d' : Disk}

/-- The directory of a user is made where nothing stands. -/
def putFolder (d : Disk) (root : Place) (user : UInt32) : Disk :=
  d.addDirectory (Spot.under (.folder user) root)

/-- A new file, still empty, is put at a spot. -/
def putNew (d : Disk) (root : Place) (spot : Spot) : Disk := (d.addFile (spot.under root)).2

/-- A file is moved from one spot to another, over whatever stands there. -/
def move (d : Disk) (root : Place) (source target : Spot) (id : FileId) : Disk :=
  (d.drop (source.under root)).put (target.under root) (.file id)

/-- What stands at a spot is taken away. -/
def take (d : Disk) (root : Place) (spot : Spot) : Disk := d.drop (spot.under root)

/-- The tree once a user has a directory. -/
def withFolder (d : Disk) (root : Place) (user : UInt32) : Disk :=
  if (d.node? (Spot.under (.folder user) root)).isSome then d else putFolder d root user

/-! ## 1. What stands at spots afterwards -/

theorem under_eq_iff {spot spot' : Spot} : spot.under root = spot'.under root ↔ spot = spot' :=
  ⟨Spot.under_injective, fun h => by rw [h]⟩

theorem node?_putFolder (user : UInt32) (spot : Spot) :
    (putFolder d root user).node? (spot.under root) =
      if spot = .folder user then some (.directory (d.grant 0o777))
      else d.node? (spot.under root) := by
  rw [putFolder, node?_addDirectory (Spot.under_ne_nil _ _)]
  simp only [under_eq_iff]

theorem node?_putNew (spot spot' : Spot) :
    (putNew d root spot).node? (spot'.under root) =
      if spot' = spot then some (.file d.nextFile) else d.node? (spot'.under root) := by
  rw [putNew, node?_addFile (Spot.under_ne_nil _ _)]
  simp only [under_eq_iff]

theorem node?_take (spot spot' : Spot) :
    (take d root spot).node? (spot'.under root) =
      if spot' = spot then none else d.node? (spot'.under root) := by
  rw [take, node?_drop (Spot.under_ne_nil _ _)]
  simp only [under_eq_iff]

theorem node?_move (source target : Spot) (id : FileId) (spot : Spot) :
    (move d root source target id).node? (spot.under root) =
      if spot = target then some (.file id)
      else if spot = source then none else d.node? (spot.under root) := by
  rw [move, node?_put (Spot.under_ne_nil _ _), node?_drop (Spot.under_ne_nil _ _)]
  simp only [under_eq_iff]

/-! ## 2. Files that can be used stay so -/

theorem Usable.mayUse {id : FileId} (h : Usable d id) (access : Access)
    (haccess : access ≠ .search) : d.mayUse id access = true := by
  obtain ⟨-, record, hrecord, hallows⟩ := h
  rw [Disk.mayUse, hrecord]
  exact hallows access haccess

theorem Usable.of_record {id : FileId} (hid : Usable d id) (d' : Disk)
    (h : ∀ id, d'.record? id = d.record? id) (hnext : d'.nextFile = d.nextFile)
    (hbound : d'.bound = d.bound) : Usable d' id := by
  obtain ⟨hlt, record, hrecord, hallows⟩ := hid
  refine ⟨by rw [hnext]; exact hlt, record, by rw [h]; exact hrecord, fun access haccess => ?_⟩
  rw [allows_congr hbound]
  exact hallows access haccess

theorem Usable.addFile {place : Place} {id : FileId} (hid : Usable d id) :
    Usable (d.addFile place).2 id := by
  obtain ⟨hlt, record, hrecord, hallows⟩ := hid
  refine ⟨Nat.lt_succ_of_lt hlt, record, ?_, hallows⟩
  rw [record?_addFile, if_neg (Nat.ne_of_lt hlt), hrecord]

theorem usable_addFile (hfresh : ∀ access, access ≠ .search → d.allows (d.grant 0o666) access)
    (place : Place) : Usable (d.addFile place).2 d.nextFile :=
  ⟨Nat.lt_succ_self _, { mode := d.grant 0o666 }, by rw [record?_addFile, if_pos rfl], hfresh⟩

theorem Usable.overwrite {id id' : FileId} {content : Content} (hid : Usable d id) :
    Usable (d.overwrite id' content) id := by
  obtain ⟨hlt, record, hrecord, hallows⟩ := hid
  have hsame := bound_overwrite (d := d) id' content
  by_cases heq : id = id'
  · subst heq
    have hrecord' := record?_overwrite (d := d) id content id
    rw [if_pos rfl, hrecord, Option.map_some] at hrecord'
    refine ⟨by rw [nextFile_overwrite]; exact hlt, _, hrecord', fun access haccess => ?_⟩
    rw [allows_congr hsame]
    dsimp only
    split
    · exact allows_withoutRights haccess (hallows access haccess)
    · exact hallows access haccess
  · refine ⟨by rw [nextFile_overwrite]; exact hlt, record, ?_, fun access haccess => ?_⟩
    · rw [record?_overwrite, if_neg heq, hrecord]
    · rw [allows_congr hsame]
      exact hallows access haccess

theorem Fits.mono {node : Node} {spot : Spot} (h : Fits d node spot) (hbound : d'.bound = d.bound)
    (husable : ∀ id, Usable d id → Usable d' id) : Fits d' node spot := by
  have hdirectory : ∀ mode, (∀ access, d.allows mode access) → ∀ access, d'.allows mode access := by
    intro mode hmode access
    rw [allows_congr hbound]
    exact hmode access
  cases spot with
  | staging | folder =>
    obtain ⟨mode, hnode, hmode⟩ := h
    exact ⟨mode, hnode, hdirectory mode hmode⟩
  | staged | file =>
    obtain ⟨id, hnode, hid⟩ := h
    exact ⟨id, hnode, husable id hid⟩

-- Every file at a spot has a record, and the process may use it.
theorem Orderly.usable (h : Orderly v root d₀ d) {spot : Spot} {id : FileId}
    (hnode : d.node? (spot.under root) = some (.file id)) : Usable d id := by
  have hfits := (h.fits hnode).2
  cases spot with
  | staging | folder =>
    obtain ⟨_, heq, _⟩ := hfits
    cases heq
  | staged | file =>
    obtain ⟨_, heq, hid⟩ := hfits
    cases heq
    exact hid

theorem Usable.record?_ne_none {id : FileId} (h : Usable d id) : d.record? id ≠ none := by
  obtain ⟨-, record, hrecord, -⟩ := h
  rw [hrecord]
  exact Option.some_ne_none record

/-! ## 3. Orderly trees stay orderly -/

namespace Orderly

/-- Something that fits is put at a spot, in place of what stood there. -/
theorem set (h : Orderly v root d₀ d) {spot : Spot} {node : Node} (hbound : d'.bound = d.bound)
    (humask : d'.umask = d.umask) (hhome : d'.home = d.home)
    (hnodes : d'.nodes = d.nodes.set (spot.under root) node)
    (husable : ∀ id, Usable d id → Usable d' id) (hvalid : spot.Valid) (hfits : Fits d' node spot)
    (hfolder : ∀ user name, spot = .file user name →
      ∃ node, d.node? (Spot.under (.folder user) root) = some node)
    (hfresh : ∀ id spot', node = .file id → d.node? (spot'.under root) = some (.file id) →
      spot' = spot) : Orderly v root d₀ d' := by
  have hnode? (q : Place) : d'.node? q = if q = spot.under root then some node else d.node? q := by
    have hput := node?_put (d := d) (spot.under_ne_nil root) node q
    rw [← hput, node?, node?, hnodes]
    rfl
  have hspot (spot' : Spot) : d'.node? (spot'.under root) =
      if spot' = spot then some node else d.node? (spot'.under root) := by
    rw [hnode?]
    simp only [under_eq_iff]
  refine ⟨hbound.trans h.bound, humask.trans h.umask, hhome.trans h.home, ?_, ?_, ?_, ?_, ?_, ?_⟩
  -- nothing outside the vault is touched
  · intro q hq
    rw [hnode?, if_neg (ne_under_of_not_isBelow hq spot), h.outside q hq]
  -- what is inside stood there before, or is the new node
  · intro q node' hmem hbelow
    rw [hnodes] at hmem
    rcases Table.mem_set hmem with heq | hmem
    · cases heq
      exact ⟨spot, hvalid, rfl, hfits⟩
    · obtain ⟨spot', hvalid', hplace, hfits'⟩ := h.inside q node' hmem hbelow
      exact ⟨spot', hvalid', hplace, hfits'.mono hbound husable⟩
  -- the table gets a new key only where the spot was vacant
  · rw [hnodes, Table.keys_set]
    split
    · exact h.keys
    next hnone =>
      rw [List.filter_cons_of_pos (isBelow_under spot root)]
      refine List.nodup_cons.mpr ⟨fun hmem => ?_, h.keys⟩
      have hget : d.nodes.get? (spot.under root) = none := by simpa using hnone
      exact Table.not_mem_keys hget (List.mem_filter.mp hmem).1
  · obtain ⟨node', hstaging⟩ := h.staging
    rw [hspot]
    split
    · exact ⟨_, rfl⟩
    · exact ⟨node', hstaging⟩
  · intro user name node' hnode'
    have hold : ∃ node, d.node? (Spot.under (.folder user) root) = some node := by
      rw [hspot] at hnode'
      split at hnode'
      next heq => exact hfolder user name heq.symm
      next => exact h.folder user name node' hnode'
    obtain ⟨node', hold⟩ := hold
    rw [hspot]
    split
    · exact ⟨_, rfl⟩
    · exact ⟨node', hold⟩
  -- one file stands at one spot: of two, one is the new file's, and `hfresh` rules the other out
  · intro spot₁ spot₂ id h₁ h₂
    rw [hspot] at h₁ h₂
    split at h₁
    next heq₁ =>
      split at h₂
      next heq₂ => rw [heq₁, heq₂]
      next => rw [heq₁, hfresh id spot₂ (Option.some.inj h₁) h₂]
    next =>
      split at h₂
      next heq₂ => rw [heq₂, hfresh id spot₁ (Option.some.inj h₂) h₁]
      next => exact h.distinct spot₁ spot₂ id h₁ h₂

end Orderly

theorem orderly_putFolder (hbase : EmptyBase v d₀ root) (h : Orderly v root d₀ d) {user : UInt32}
    (hnone : d.node? (Spot.under (.folder user) root) = none) :
    Orderly v root d₀ (putFolder d root user) := by
  have hget : ¬(d.nodes.get? (Spot.under (.folder user) root)).isSome := by
    rw [← node?_of_ne (Spot.under_ne_nil _ _), hnone]
    exact Bool.false_ne_true
  have hgrant : d.grant 0o777 = d₀.grant 0o777 := by rw [grant, grant, h.umask]
  have husable (id : FileId) (hid : Usable d id) : Usable (putFolder d root user) id :=
    hid.of_record (putFolder d root user) (fun _ => rfl) rfl rfl
  refine h.set rfl rfl rfl ?_ husable (show Spot.Valid (.folder user) from trivial)
    ⟨d.grant 0o777, rfl, fun access => ?_⟩ (fun _ _ heq => nomatch heq) (fun _ _ heq => nomatch heq)
  · show d.nodes.add _ _ = _
    rw [Table.set, if_neg hget]
    rfl
  · show d.allows (d.grant 0o777) access = true
    rw [h.allows, hgrant]
    exact hbase.directories access

theorem orderly_putNew (hbase : EmptyBase v d₀ root) (h : Orderly v root d₀ d) {spot : Spot}
    (hvalid : spot.Valid) (hkind : (∃ number, spot = .staged number) ∨ ∃ user name,
      spot = .file user name ∧ ∃ node, d.node? (Spot.under (.folder user) root) = some node) :
    Orderly v root d₀ (putNew d root spot) := by
  have hgrant : d.grant 0o666 = d₀.grant 0o666 := by rw [grant, grant, h.umask]
  have hnew : Usable (d.addFile (spot.under root)).2 d.nextFile := by
    refine usable_addFile (fun access haccess => ?_) _
    rw [h.allows, hgrant]
    exact hbase.files access haccess
  have husable (id : FileId) (hid : Usable d id) : Usable (putNew d root spot) id :=
    hid.addFile
  have hnodes : (putNew d root spot).nodes =
      d.nodes.set (spot.under root) (.file d.nextFile) := rfl
  refine h.set rfl rfl rfl hnodes husable hvalid ?_ ?_ ?_
  · rcases hkind with ⟨number, rfl⟩ | ⟨user, name, rfl, -⟩
    · exact ⟨_, rfl, hnew⟩
    · exact ⟨_, rfl, hnew⟩
  · intro user name heq
    rcases hkind with ⟨number, heq'⟩ | ⟨user', name', heq', hfolder⟩
    · rw [heq] at heq'
      cases heq'
    · rw [heq] at heq'
      cases heq'
      exact hfolder
  · intro id spot' heq hnode
    -- the new file's identity is not in use yet
    cases heq
    exact absurd (h.usable hnode).lt (Nat.lt_irrefl _)

theorem orderly_overwrite (h : Orderly v root d₀ d) (id : FileId) (content : Content) :
    Orderly v root d₀ (d.overwrite id content) where
  bound := (bound_overwrite id content).trans h.bound
  umask := (umask_overwrite id content).trans h.umask
  home := (home_overwrite id content).trans h.home
  outside q hq := by rw [node?_overwrite, h.outside q hq]
  inside q node hmem hbelow := by
    rw [nodes_overwrite] at hmem
    obtain ⟨spot, hvalid, hplace, hfits⟩ := h.inside q node hmem hbelow
    exact ⟨spot, hvalid, hplace,
      hfits.mono (bound_overwrite id content) fun id' hid => hid.overwrite⟩
  keys := by
    rw [nodes_overwrite]
    exact h.keys
  staging := by
    rw [node?_overwrite]
    exact h.staging
  folder user name node hnode := by
    rw [node?_overwrite] at hnode ⊢
    exact h.folder user name node hnode
  distinct spot spot' id' h₁ h₂ := by
    rw [node?_overwrite] at h₁ h₂
    exact h.distinct spot spot' id' h₁ h₂

theorem orderly_take (h : Orderly v root d₀ d) {spot : Spot}
    (hkind : (∃ number, spot = .staged number) ∨ ∃ user name, spot = .file user name) :
    Orderly v root d₀ (take d root spot) := by
  have hne : spot ≠ .staging ∧ ∀ user, spot ≠ .folder user := by
    rcases hkind with ⟨number, rfl⟩ | ⟨user, name, rfl⟩
    · exact ⟨by simp, by simp⟩
    · exact ⟨by simp, by simp⟩
  refine ⟨h.bound, h.umask, h.home, ?_, ?_, ?_, ?_, ?_, ?_⟩
  · intro q hq
    show (d.drop _).node? q = _
    rw [node?_drop (spot.under_ne_nil root), if_neg (ne_under_of_not_isBelow hq spot),
      h.outside q hq]
  · intro q node hmem hbelow
    obtain ⟨spot', hvalid, hplace, hfits⟩ := h.inside q node (List.mem_filter.mp hmem).1 hbelow
    have husable (id : FileId) (hid : Usable d id) : Usable (take d root spot) id :=
      hid.of_record (take d root spot) (fun _ => rfl) rfl rfl
    exact ⟨spot', hvalid, hplace, hfits.mono rfl husable⟩
  · refine List.Nodup.sublist (List.Sublist.filter _ (List.Sublist.map _ ?_)) h.keys
    exact List.filter_sublist
  · rw [node?_take, if_neg (Ne.symm hne.1)]
    exact h.staging
  · intro user name node hnode
    rw [node?_take] at hnode
    split at hnode
    · cases hnode
    · rw [node?_take, if_neg (Ne.symm (hne.2 user))]
      exact h.folder user name node hnode
  · intro spot₁ spot₂ id h₁ h₂
    rw [node?_take] at h₁ h₂
    split at h₁
    · cases h₁
    · split at h₂
      · cases h₂
      · exact h.distinct spot₁ spot₂ id h₁ h₂

theorem orderly_move (h : Orderly v root d₀ d) {number : Nat} {user : UInt32} {name : Bytes}
    {id : FileId} (hname : accepts name)
    (hsource : d.node? (Spot.under (.staged number) root) = some (.file id))
    (hfolder : ∃ node, d.node? (Spot.under (.folder user) root) = some node) :
    Orderly v root d₀ (move d root (.staged number) (.file user name) id) := by
  -- a move takes the file away from one spot and sets it at the other
  have htaken : Orderly v root d₀ (take d root (.staged number)) :=
    orderly_take h (.inl ⟨number, rfl⟩)
  have hid := h.usable hsource
  have husable (id' : FileId) (hid' : Usable (take d root (.staged number)) id') :
      Usable (move d root (.staged number) (.file user name) id) id' :=
    hid'.of_record (move d root _ _ id) (fun _ => rfl) rfl rfl
  have hnodes : (move d root (.staged number) (.file user name) id).nodes =
      (take d root (.staged number)).nodes.set (Spot.under (.file user name) root)
        (.file id) := rfl
  have hmoved : Usable (move d root (.staged number) (.file user name) id) id :=
    hid.of_record (move d root _ _ id) (fun _ => rfl) rfl rfl
  refine htaken.set rfl rfl rfl hnodes husable hname ⟨id, rfl, hmoved⟩ ?_ ?_
  · rintro user' name' heq
    cases heq
    rw [node?_take, if_neg (by simp)]
    exact hfolder
  · intro id' spot' heq hnode
    cases heq
    rw [node?_take] at hnode
    split at hnode
    · cases hnode
    next hne => exact absurd (h.distinct spot' (.staged number) id hnode hsource) hne

theorem orderly_withFolder (hbase : EmptyBase v d₀ root) (h : Orderly v root d₀ d)
    (user : UInt32) : Orderly v root d₀ (withFolder d root user) := by
  unfold withFolder
  split
  · exact h
  next hnone => exact orderly_putFolder hbase h (by simpa using hnone)

/-! ## 4. What a change leaves as it was -/

/-- From `d` to `d'` nothing happened to the spots of which `P` does not hold, nor to what the files
there hold. -/
structure SpotsKept (root : Place) (P : Spot → Prop) (d d' : Disk) : Prop where
  node : ∀ spot : Spot, ¬P spot → d'.node? (spot.under root) = d.node? (spot.under root)
  content : ∀ spot : Spot, ¬P spot → ∀ id, d.node? (spot.under root) = some (.file id) →
    d'.contentOf id = d.contentOf id

namespace SpotsKept

variable {P Q : Spot → Prop} {d'' : Disk}

theorem refl (root : Place) (P : Spot → Prop) (d : Disk) : SpotsKept root P d d :=
  ⟨fun _ _ => rfl, fun _ _ _ _ => rfl⟩

theorem trans (h : SpotsKept root P d d') (h' : SpotsKept root P d' d'') :
    SpotsKept root P d d'' where
  node spot hspot := (h'.node spot hspot).trans (h.node spot hspot)
  content spot hspot id hnode := by
    have hnode' := h.node spot hspot
    rw [hnode] at hnode'
    exact (h'.content spot hspot id hnode').trans (h.content spot hspot id hnode)

theorem mono (h : SpotsKept root P d d') (hPQ : ∀ spot, P spot → Q spot) :
    SpotsKept root Q d d' where
  node spot hspot := h.node spot fun hP => hspot (hPQ spot hP)
  content spot hspot := h.content spot fun hP => hspot (hPQ spot hP)

/-- A spot that was vacant and is vacant again has been left as it was. -/
theorem of_vacant {spot : Spot} (h : SpotsKept root (fun s => P s ∨ s = spot) d d')
    (hnone : d.node? (spot.under root) = none) (hnone' : d'.node? (spot.under root) = none) :
    SpotsKept root P d d' := by
  constructor
  · intro s hs
    by_cases heq : s = spot
    · rw [heq, hnone, hnone']
    · exact h.node s fun hor => hor.elim hs heq
  · intro s hs id hnode
    by_cases heq : s = spot
    · rw [heq, hnone] at hnode
      cases hnode
    · exact h.content s (fun hor => hor.elim hs heq) id hnode

end SpotsKept

theorem spotsKept_withFolder (d : Disk) (root : Place) (user : UInt32) :
    SpotsKept root (· = .folder user) d (withFolder d root user) := by
  unfold withFolder
  split
  · exact SpotsKept.refl root _ d
  · refine ⟨fun spot hspot => ?_, fun _ _ _ _ => rfl⟩
    rw [node?_putFolder, if_neg hspot]

theorem exists_withFolder (d : Disk) (root : Place) (user : UInt32) :
    ∃ node, (withFolder d root user).node? (Spot.under (.folder user) root) = some node := by
  unfold withFolder
  split
  next h => exact Option.isSome_iff_exists.mp h
  next => exact ⟨_, by rw [node?_putFolder, if_pos rfl]⟩

theorem spotsKept_putNew (h : Orderly v root d₀ d) (spot : Spot) :
    SpotsKept root (· = spot) d (putNew d root spot) := by
  refine ⟨fun spot' hspot => ?_, fun spot' hspot id hnode => ?_⟩
  · rw [node?_putNew, if_neg hspot]
  · rw [putNew, contentOf_addFile, if_neg (Nat.ne_of_lt (h.usable hnode).lt)]

theorem spotsKept_overwrite (h : Orderly v root d₀ d) {spot : Spot} {id : FileId}
    (hnode : d.node? (spot.under root) = some (.file id)) (content : Content) :
    SpotsKept root (· = spot) d (d.overwrite id content) := by
  refine ⟨fun spot' _ => node?_overwrite _ _ _, fun spot' hspot id' hnode' => ?_⟩
  rw [contentOf_overwrite (h.usable hnode).record?_ne_none, if_neg]
  rintro rfl
  exact hspot (h.distinct spot' spot id' hnode' hnode)

theorem spotsKept_move (d : Disk) (root : Place) (source target : Spot) (id : FileId) :
    SpotsKept root (fun s => s = target ∨ s = source) d (move d root source target id) := by
  refine ⟨fun spot hspot => ?_, fun _ _ _ _ => rfl⟩
  rw [node?_move, if_neg fun heq => hspot (.inl heq), if_neg fun heq => hspot (.inr heq)]

theorem spotsKept_take (d : Disk) (root : Place) (spot : Spot) :
    SpotsKept root (· = spot) d (take d root spot) := by
  refine ⟨fun spot' hspot => ?_, fun _ _ _ _ => rfl⟩
  rw [node?_take, if_neg hspot]

end UserVault.Vault
