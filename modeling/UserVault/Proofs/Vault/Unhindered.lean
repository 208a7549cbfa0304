import UserVault.Proofs.Vault.Numbers
import UserVault.Proofs.Vault.Openings

/-!
# Trees in which nothing is forbidden

A store in place has to write to the file that is there, and a store aside has to take names away:
permissions may let a process do the one and not the other.  `Unhindered` says that they stand in
the way of neither, and whatever the vault does leaves it so.  A store aside also needs a name for
its file (`Roomy`).
-/

namespace UserVault.Vault

open Disk

variable {v v' : Vault} {root : Place} {d d' : Disk}

/-- A tree of directories and regular files below the vault's directory, in which the process may
read, write and take away all files, those that it makes included, and may make files aside. -/
structure Unhindered (v : Vault) (root : Place) (d : Disk) : Prop where
  ground : Grounded v root d
  removable : Removable root d
  usable : ∀ q id, isBelow root q → d.node? q = some (.file id) → Usable d id
  fresh : ∀ access, access ≠ .search → d.allows (d.grant 0o666) access
  aside : ∃ mode, d.node? (Spot.under .staging root) = some (.directory mode) ∧
    d.allowsChange mode

/-- There is a name for one more file aside. -/
def Roomy (v : Vault) (root : Place) (d : Disk) : Prop := ∃ n, ¬TooLong v n ∧ ¬Taken root d n

/-! ## 1. Changes -/

namespace Unhindered

theorem of_base (h : Unhindered v root d) (hbase : v'.base = v.base) : Unhindered v' root d :=
  ⟨h.ground.of_base hbase, h.removable, h.usable, h.fresh, h.aside⟩

/-- The process may take every file away. -/
theorem mayChange (h : Unhindered v root d) {q : Place} {id : FileId} (hbelow : isBelow root q)
    (hq : d.node? q = some (.file id)) : d.mayChange q :=
  h.removable q id hbelow hq ((h.usable q id hbelow hq).mayUse .write (by decide))

theorem change (h : Unhindered v root d) (hground : Grounded v root d')
    (hremovable : Removable root d') (hbound : d'.bound = d.bound) (humask : d'.umask = d.umask)
    (haside : d'.node? (Spot.under .staging root) = d.node? (Spot.under .staging root))
    (husable : ∀ q id, isBelow root q → d'.node? q = some (.file id) → Usable d' id) :
    Unhindered v root d' := by
  refine ⟨hground, hremovable, husable, fun access haccess => ?_, ?_⟩
  · rw [allows_congr hbound, grant, humask]
    exact h.fresh access haccess
  · obtain ⟨mode, hmode, hchange⟩ := h.aside
    refine ⟨mode, haside.trans hmode, ?_⟩
    rw [allowsChange, allows_congr hbound, allows_congr hbound]
    exact hchange

/-- Where no directory stands, the directory aside does not stand. -/
theorem ne_staging (h : Unhindered v root d) (place : Place)
    (hold : ∀ mode, d.node? place ≠ some (.directory mode)) : Spot.under .staging root ≠ place := by
  rintro rfl
  obtain ⟨mode, hmode, -⟩ := h.aside
  exact hold mode hmode

theorem addDirectory (h : Unhindered v root d) {place : Place} (hbelow : isBelow root place)
    (hnone : d.node? place = none) {mode : Nat}
    (hparent : d.node? place.dropLast = some (.directory mode)) :
    Unhindered v root (d.addDirectory place) := by
  have hne := isBelow_ne_nil hbelow
  have hstaging := h.ne_staging place fun mode => by simp [hnone]
  refine h.change (h.ground.addDirectory hbelow hnone hparent)
    (h.removable.addDirectory h.ground hbelow hnone) rfl rfl ?_ fun q id hbelow' hq => ?_
  · rw [node?_addDirectory hne, if_neg hstaging]
  · rw [node?_addDirectory hne] at hq
    split at hq
    · cases hq
    · exact (h.usable q id hbelow' hq).of_record _ (fun _ => rfl) rfl rfl

theorem addFile (h : Unhindered v root d) {place : Place} (hbelow : isBelow root place)
    (hnone : d.node? place = none) {mode : Nat}
    (hparent : d.node? place.dropLast = some (.directory mode)) (hmay : d.mayChange place) :
    Unhindered v root (d.addFile place).2 := by
  have hne := isBelow_ne_nil hbelow
  have hstaging := h.ne_staging place fun mode => by simp [hnone]
  refine h.change (h.ground.addFile hbelow hnone hparent)
    (h.removable.addFile h.ground hbelow hnone hparent hmay) rfl rfl ?_ fun q id hbelow' hq => ?_
  · rw [node?_addFile hne, if_neg hstaging]
  · rw [node?_addFile hne] at hq
    split at hq
    · cases hq
      exact usable_addFile h.fresh place
    · exact (h.usable q id hbelow' hq).addFile

theorem overwrite (h : Unhindered v root d) (id : FileId) (content : Content) :
    Unhindered v root (d.overwrite id content) := by
  refine h.change (h.ground.overwrite id content) (h.removable.overwrite id content)
    (bound_overwrite id content) (umask_overwrite id content) (node?_overwrite id content _)
    fun q id' hbelow hq => ?_
  rw [node?_overwrite] at hq
  exact (h.usable q id' hbelow hq).overwrite

theorem fill (h : Unhindered v root d) (id : FileId) (bytes : Bytes) :
    Unhindered v root (d.fill id bytes) := by
  rcases d.fill_eq id bytes with heq | heq
  · rw [heq]
    exact h
  · rw [heq]
    exact h.overwrite id _

theorem drop (h : Unhindered v root d) {place : Place} (hbelow : isBelow root place) {id : FileId}
    (hfile : d.node? place = some (.file id)) : Unhindered v root (d.drop place) := by
  have hne := isBelow_ne_nil hbelow
  have hstaging := h.ne_staging place fun mode => by simp [hfile]
  refine h.change (h.ground.drop hbelow hfile) (h.removable.drop h.ground hbelow hfile) rfl rfl ?_
    fun q id' hbelow' hq => ?_
  · rw [node?_drop hne, if_neg hstaging]
  · rw [node?_drop hne] at hq
    split at hq
    · cases hq
    · exact (h.usable q id' hbelow' hq).of_record _ (fun _ => rfl) rfl rfl

theorem move (h : Unhindered v root d) {source target : Spot} {id : FileId}
    (hsource : d.node? (source.under root) = some (.file id))
    (htarget : ∀ mode, d.node? (target.under root) ≠ some (.directory mode)) {mode : Nat}
    (hparent : d.node? (target.under root).dropLast = some (.directory mode))
    (hmay : d.mayChange (target.under root)) :
    Unhindered v root (Vault.move d root source target id) := by
  have hid := h.usable _ id (isBelow_under source root) hsource
  have hnode (q : Place) : (Vault.move d root source target id).node? q =
      if q = target.under root then some (.file id)
      else if q = source.under root then none else d.node? q := by
    rw [Vault.move, node?_put (target.under_ne_nil root), node?_drop (source.under_ne_nil root)]
  refine h.change (h.ground.move hsource htarget hparent)
    (h.removable.move h.ground hsource htarget hparent hmay) rfl rfl ?_ fun q id' hbelow hq => ?_
  · have hne := h.ne_staging (source.under root) fun mode => by simp [hsource]
    rw [hnode, if_neg (h.ne_staging _ htarget), if_neg hne]
  · rw [hnode] at hq
    split at hq
    · cases hq
      exact hid.of_record _ (fun _ => rfl) rfl rfl
    · split at hq
      · cases hq
      · exact (h.usable q id' hbelow hq).of_record _ (fun _ => rfl) rfl rfl

/-! ## 2. Files aside -/

variable (h : Unhindered v root d)
  (hsearch : ∃ mode, d.node? root = some (.directory mode) ∧ d.allows mode .search)
include h hsearch

/-- The path of a file aside leads to its place unless it is too long. -/
theorem reach_staged (n : Nat) :
    reach v root d (.staged n) = if TooLong v n then .error .nameTooLong else .ok () := by
  obtain ⟨mode, hroot, hsearch⟩ := hsearch
  obtain ⟨mode', hstaging, hchange⟩ := h.aside
  have hsearch' : d.allows mode' .search = true := by
    rw [allowsChange, Bool.and_eq_true] at hchange
    exact hchange.2
  have hstaging : d.node? (root ++ [stagingName]) = some (.directory mode') := hstaging
  have hlength : ¬maxName < stagingName.length := by
    rw [stagingName_eq]
    decide
  -- the two steps go through directories that may be searched
  have happroach : d.approach root (Spot.steps (.staged n)) =
      if maxName < (stagedName n).length then .error .nameTooLong else .ok () := by
    rw [Spot.steps, approach_cons, entryAt?_eq_directory.mpr hroot]
    dsimp only
    rw [hsearch, approach_cons, entryAt?_eq_directory.mpr hstaging]
    simp [hlength, hsearch', Disk.approach]
  rw [reach, happroach]
  unfold TooLong
  by_cases hsize : maxPath < (v.pathOf (.staged n)).size
  · simp [hsize]
  · simp [hsize]

theorem locate_staged (n : Nat) :
    d.locate (v.pathOf (.staged n)) =
      if TooLong v n then .error .nameTooLong
      else .ok (d.foundAt (Spot.under (.staged n) root)) := by
  have htrace := h.ground.trace (.staged n) trivial .name
  rw [locate, htrace, h.reach_staged hsearch]
  split
  · rfl
  · rfl

/-- As long as there is room, a store gets a new file aside. -/
theorem createNew_stagedPath (hroom : Roomy v root d) :
    ∃ n, Upload.stagedPath v d = v.pathOf (.staged n) ∧ reach v root d (.staged n) = .ok () ∧
      d.node? (Spot.under (.staged n) root) = none ∧ d.mayChange (Spot.under (.staged n) root) := by
  obtain ⟨k, hshort, hfree⟩ := hroom
  obtain ⟨hnumber, hless⟩ := freeNumber_of_trace (h.locate_staged hsearch)
  -- the search goes no further than to `k`
  have hle : Upload.freeNumber v d ≤ k := by
    by_contra hlt
    exact hfree (hless k (Nat.lt_of_not_le hlt)).2
  have hfits : ¬TooLong v (Upload.freeNumber v d) := fun hlong => hshort (hlong.mono hle)
  obtain ⟨mode, hstaging, hchange⟩ := h.aside
  refine ⟨_, stagedPath_eq v d, ?_, not_not.mp (hnumber.resolve_left hfits), ?_⟩
  · rw [h.reach_staged hsearch, if_neg hfits]
  · have hparent : (Spot.under (.staged (Upload.freeNumber v d)) root).dropLast =
        Spot.under .staging root := by simp [Spot.under, Spot.steps]
    refine mayChange_iff.mpr fun mode' hmode' => ?_
    rw [hparent, hstaging] at hmode'
    cases hmode'
    exact hchange

end Unhindered

/-! ## 3. Checking a tree -/

/-- Whether the process may read and write what an entry of the table names, if that is a file. -/
def fitsUse (d : Disk) (entry : Place × Node) : Bool :=
  match entry.2 with
  | .file id => d.mayUse id .read && d.mayUse id .write
  | _ => true

theorem usable_of_mayUse {id : FileId} (hknown : Known d id) (hread : d.mayUse id .read)
    (hwrite : d.mayUse id .write) : Usable d id := by
  obtain ⟨record, hrecord⟩ := Option.ne_none_iff_exists'.mp hknown.record
  rw [mayUse, hrecord] at hread hwrite
  refine ⟨hknown.lt, record, hrecord, fun access haccess => ?_⟩
  cases access with
  | read => exact hread
  | write => exact hwrite
  | search => exact absurd rfl haccess

theorem Unhindered.of_entries (hground : Grounded v root d) (hremovable : Removable root d)
    (hentries : ∀ entry ∈ d.nodes.entries, fitsUse d entry)
    (hfresh : ∀ access, access ≠ .search → d.allows (d.grant 0o666) access)
    (haside : ∃ mode, d.node? (Spot.under .staging root) = some (.directory mode) ∧
      d.allowsChange mode) : Unhindered v root d := by
  refine ⟨hground, hremovable, fun q id hbelow hq => ?_, hfresh, haside⟩
  have hmem := Table.mem_of_get? (node?_of_ne (isBelow_ne_nil hbelow) ▸ hq)
  have hfits := hentries _ hmem
  simp only [fitsUse, Bool.and_eq_true] at hfits
  exact usable_of_mayUse (hground.known q id hq) hfits.1 hfits.2

end UserVault.Vault
