import UserVault.Proofs.Disk.Entries
import UserVault.Proofs.Vault.Enumeration

/-!
# Vaults in any tree

A vault may find anything below its directory, as long as it is a tree of directories and regular
files: files where it wants directories, directories where it wants files, names that it would not
accept.  `Grounded` says so; every path of a spot then leads straight down (`Grounded.trace`), and
whatever the vault does leaves a tree of this kind.  It need not be able to take away what it can
write to; where it is (`Removable`), it stays so.
-/

namespace UserVault.Vault

open Disk

/-- A file that is on the disk. -/
structure Known (d : Disk) (id : FileId) : Prop where
  lt : id < d.nextFile
  record : d.record? id ≠ none

/-- Below the vault's directory, which is at `root`, there is a tree of directories and regular
files, which have no other names. -/
structure Grounded (v : Vault) (root : Place) (d : Disk) : Prop where
  base : ∃ mode, d.follow v.base = .ok (.node root (.directory mode))
  keys : (d.nodes.entries.map (·.1)).Nodup
  known : ∀ q id, d.node? q = some (.file id) → Known d id
  kinds : ∀ q node, isBelow root q → d.node? q = some node →
    (∃ mode, node = .directory mode) ∨ ∃ id, node = .file id
  parents : ∀ q node, isBelow root q → d.node? q = some node →
    ∃ mode, d.node? q.dropLast = some (.directory mode)
  single : ∀ q q' id, isBelow root q → d.node? q = some (.file id) →
    d.node? q' = some (.file id) → q' = q

variable {v : Vault} {root : Place} {d d' : Disk} {place : Place}

/-! ## 1. Changes that keep a tree grounded -/

theorem follow_mono {path : Path} {mode : Nat} (hbound : d'.bound = d.bound)
    (hhome : d'.home = d.home)
    (hnodes : ∀ q node, (∀ id, node ≠ .file id) → d.node? q = some node → d'.node? q = some node)
    (h : d.follow path = .ok (.node root (.directory mode))) :
    d'.follow path = .ok (.node root (.directory mode)) := by
  unfold follow trace at h ⊢
  split at h
  · cases h
  next hsize =>
    rw [if_neg hsize, hhome]
    exact walk_mono hbound hnodes h

theorem Known.addFile {id : FileId} (h : Known d id) : Known (d.addFile place).2 id where
  lt := Nat.lt_succ_of_lt h.lt
  record := by
    rw [record?_addFile, if_neg (Nat.ne_of_lt h.lt)]
    exact h.record

theorem known_addFile (d : Disk) (place : Place) : Known (d.addFile place).2 d.nextFile where
  lt := Nat.lt_succ_self _
  record := by simp [record?_addFile]

theorem Known.overwrite {id id' : FileId} {content : Content} (h : Known d id) :
    Known (d.overwrite id' content) id where
  lt := by rw [nextFile_overwrite]; exact h.lt
  record := by
    rw [record?_overwrite]
    split
    next heq =>
      rw [← heq, ne_eq, Option.map_eq_none_iff]
      exact h.record
    next => exact h.record

namespace Grounded

theorem of_base {v' : Vault} (h : Grounded v root d) (hbase : v'.base = v.base) :
    Grounded v' root d := by
  refine ⟨?_, h.keys, h.known, h.kinds, h.parents, h.single⟩
  rw [hbase]
  exact h.base

theorem of_nodes (h : Grounded v root d) (hbound : d'.bound = d.bound) (hhome : d'.home = d.home)
    (hnodes : d'.nodes = d.nodes) (hknown : ∀ id, Known d id → Known d' id) :
    Grounded v root d' := by
  have hnode (q : Place) : d'.node? q = d.node? q := by rw [node?, node?, hnodes]
  refine ⟨?_, hnodes ▸ h.keys, ?_, ?_, ?_, ?_⟩
  · obtain ⟨mode, hbase⟩ := h.base
    exact ⟨mode, follow_mono hbound hhome (fun q node _ hq => (hnode q).trans hq) hbase⟩
  · intro q id hq
    exact hknown id (h.known q id ((hnode q).symm.trans hq))
  · intro q node hbelow hq
    exact h.kinds q node hbelow ((hnode q).symm.trans hq)
  · intro q node hbelow hq
    rw [hnode]
    exact h.parents q node hbelow ((hnode q).symm.trans hq)
  · intro q q' id hbelow hq hq'
    exact h.single q q' id hbelow ((hnode q).symm.trans hq) ((hnode q').symm.trans hq')

/-- What may come to stand at a place. -/
inductive Welcome (d d' : Disk) (place : Place) : Node → Prop
  | directory (mode : Nat) : Welcome d d' place (.directory mode)
  | file (id : FileId) (hknown : Known d' id)
    (hnew : ∀ q, q ≠ place → d.node? q ≠ some (.file id)) : Welcome d d' place (.file id)

/-- One place, at which no directory stands, changes. -/
theorem change (h : Grounded v root d) (hbelow : isBelow root place) (hbound : d'.bound = d.bound)
    (hhome : d'.home = d.home) (hkeys : (d'.nodes.entries.map (·.1)).Nodup)
    (hnode : ∀ q, q ≠ place → d'.node? q = d.node? q)
    (hold : ∀ mode, d.node? place ≠ some (.directory mode))
    (hknown : ∀ id, Known d id → Known d' id)
    (hnew : ∀ node, d'.node? place = some node → Welcome d d' place node ∧
      ∃ mode, d.node? place.dropLast = some (.directory mode)) : Grounded v root d' := by
  -- a directory stays, and what stands in one stood there before or stands at `place`
  have hdirectory {q : Place} {mode : Nat} (hq : d.node? q = some (.directory mode)) :
      d'.node? q = some (.directory mode) := by
    by_cases heq : q = place
    · exact absurd (heq ▸ hq) (hold mode)
    · rw [hnode q heq, hq]
  refine ⟨?_, hkeys, ?_, ?_, ?_, ?_⟩
  · obtain ⟨mode, hbase⟩ := h.base
    refine ⟨mode, follow_mono hbound hhome (fun q node hfile hq => ?_) hbase⟩
    by_cases heq : q = place
    · subst heq
      rcases h.kinds q node hbelow hq with ⟨mode, rfl⟩ | ⟨id, rfl⟩
      · exact absurd hq (hold mode)
      · exact absurd rfl (hfile id)
    · rw [hnode q heq, hq]
  · intro q id hq
    by_cases heq : q = place
    · subst heq
      cases (hnew _ hq).1 with
      | file _ hid => exact hid
    · exact hknown id (h.known q id ((hnode q heq).symm.trans hq))
  · intro q node hbelow' hq
    by_cases heq : q = place
    · subst heq
      cases (hnew _ hq).1 with
      | directory mode => exact .inl ⟨mode, rfl⟩
      | file id => exact .inr ⟨id, rfl⟩
    · exact h.kinds q node hbelow' ((hnode q heq).symm.trans hq)
  · intro q node hbelow' hq
    have hparent : ∃ mode, d.node? q.dropLast = some (.directory mode) := by
      by_cases heq : q = place
      · subst heq
        exact (hnew node hq).2
      · exact h.parents q node hbelow' ((hnode q heq).symm.trans hq)
    obtain ⟨mode, hparent⟩ := hparent
    exact ⟨mode, hdirectory hparent⟩
  · intro q q' id hbelow' hq hq'
    by_cases heq : q = place
    · subst heq
      cases (hnew _ hq).1 with
      | file _ _ hnone =>
        by_contra hne
        exact hnone q' hne ((hnode q' hne).symm.trans hq')
    · have hq := (hnode q heq).symm.trans hq
      by_cases heq' : q' = place
      · subst heq'
        cases (hnew _ hq').1 with
        | file _ _ hnone => exact absurd hq (hnone q heq)
      · exact h.single q q' id hbelow' hq ((hnode q' heq').symm.trans hq')

/-! ## 2. The changes that a vault makes -/

theorem addDirectory (h : Grounded v root d) (hbelow : isBelow root place)
    (hnone : d.node? place = none) {mode : Nat}
    (hparent : d.node? place.dropLast = some (.directory mode)) :
    Grounded v root (d.addDirectory place) := by
  have hne := isBelow_ne_nil hbelow
  have hget : d.nodes.get? place = none := by rw [← node?_of_ne hne, hnone]
  refine h.change hbelow rfl rfl (List.nodup_cons.mpr ⟨Table.not_mem_keys hget, h.keys⟩)
    (fun q hq => ?_) (fun mode => by simp [hnone]) (fun _ hid => ⟨hid.lt, hid.record⟩)
    fun node hnode => ?_
  · rw [node?_addDirectory hne, if_neg hq]
  · rw [node?_addDirectory hne, if_pos rfl] at hnode
    cases hnode
    exact ⟨.directory _, mode, hparent⟩

theorem addFile (h : Grounded v root d) (hbelow : isBelow root place)
    (hnone : d.node? place = none) {mode : Nat}
    (hparent : d.node? place.dropLast = some (.directory mode)) :
    Grounded v root (d.addFile place).2 := by
  have hne := isBelow_ne_nil hbelow
  refine h.change hbelow rfl rfl (Table.nodup_set _ _ h.keys) (fun q hq => ?_)
    (fun mode => by simp [hnone]) (fun _ hid => hid.addFile) fun node hnode => ?_
  · rw [node?_addFile hne, if_neg hq]
  · rw [node?_addFile hne, if_pos rfl] at hnode
    cases hnode
    refine ⟨.file _ (known_addFile d place) fun q _ hq => ?_, mode, hparent⟩
    exact absurd (h.known q _ hq).lt (Nat.lt_irrefl _)

theorem drop (h : Grounded v root d) (hbelow : isBelow root place) {id : FileId}
    (hfile : d.node? place = some (.file id)) : Grounded v root (d.drop place) := by
  have hne := isBelow_ne_nil hbelow
  refine h.change hbelow rfl rfl (Table.nodup_erase _ h.keys) (fun q hq => ?_)
    (fun mode => by simp [hfile]) (fun _ hid => ⟨hid.lt, hid.record⟩) fun node hnode => ?_
  · rw [node?_drop hne, if_neg hq]
  · rw [node?_drop hne, if_pos rfl] at hnode
    cases hnode

theorem put (h : Grounded v root d) (hbelow : isBelow root place) {id : FileId}
    (hold : ∀ mode, d.node? place ≠ some (.directory mode)) {mode : Nat}
    (hparent : d.node? place.dropLast = some (.directory mode)) (hknown : Known d id)
    (hnew : ∀ q, d.node? q ≠ some (.file id)) : Grounded v root (d.put place (.file id)) := by
  have hne := isBelow_ne_nil hbelow
  refine h.change hbelow rfl rfl (Table.nodup_set _ _ h.keys) (fun q hq => ?_) hold
    (fun _ hid => ⟨hid.lt, hid.record⟩) fun node hnode => ?_
  · rw [node?_put hne, if_neg hq]
  · rw [node?_put hne, if_pos rfl] at hnode
    cases hnode
    exact ⟨.file id ⟨hknown.lt, hknown.record⟩ fun q _ => hnew q, mode, hparent⟩

/-- A file is moved to another place, where it replaces a file if there is one. -/
theorem move (h : Grounded v root d) {source target : Spot} {id : FileId}
    (hsource : d.node? (source.under root) = some (.file id))
    (htarget : ∀ mode, d.node? (target.under root) ≠ some (.directory mode)) {mode : Nat}
    (hparent : d.node? (target.under root).dropLast = some (.directory mode)) :
    Grounded v root (Vault.move d root source target id) := by
  have hne := source.under_ne_nil root
  have hdirectory : (target.under root).dropLast ≠ source.under root := by
    intro heq
    rw [heq, hsource] at hparent
    cases hparent
  have hparent' : (d.drop (source.under root)).node? (target.under root).dropLast =
      some (.directory mode) := by
    rw [node?_drop hne, if_neg hdirectory, hparent]
  have hknown := h.known _ _ hsource
  refine (h.drop (isBelow_under source root) hsource).put (isBelow_under target root)
    (fun mode' => ?_) hparent' ⟨hknown.lt, hknown.record⟩ fun q => ?_
  · rw [node?_drop hne]
    split
    · simp
    · exact htarget mode'
  · rw [node?_drop hne]
    split
    · simp
    next hq => exact fun hnode => hq (h.single _ q id (isBelow_under source root) hsource hnode)

theorem overwrite (h : Grounded v root d) (id : FileId) (content : Content) :
    Grounded v root (d.overwrite id content) :=
  h.of_nodes (bound_overwrite id content) (home_overwrite id content) (nodes_overwrite id content)
    fun _ hid => hid.overwrite

theorem fill (h : Grounded v root d) (id : FileId) (bytes : Bytes) :
    Grounded v root (d.fill id bytes) := by
  rcases d.fill_eq id bytes with heq | heq
  · rw [heq]
    exact h
  · rw [heq]
    exact h.overwrite id _

end Grounded

/-! ## 3. Files that can be taken away -/

/-- Whatever file below the vault's directory the process may write to, it may also take away. -/
def Removable (root : Place) (d : Disk) : Prop := ∀ q id, isBelow root q →
  d.node? q = some (.file id) → d.mayUse id .write → d.mayChange q

namespace Removable

/-- One place, at which no directory stands, changes. -/
theorem change (h : Removable root d) (hground : Grounded v root d) (place : Place)
    (hbound : d'.bound = d.bound) (hnode : ∀ q, q ≠ place → d'.node? q = d.node? q)
    (hold : ∀ mode, d.node? place ≠ some (.directory mode))
    (huse : ∀ id, Known d id → d'.mayUse id .write = d.mayUse id .write)
    (hnew : ∀ id, d'.node? place = some (.file id) →
      d.mayChange place ∧ ∃ mode, d.node? place.dropLast = some (.directory mode)) :
    Removable root d' := by
  intro q id hbelow hq hwrite
  obtain ⟨hmay, mode, hparent⟩ :
      d.mayChange q ∧ ∃ mode, d.node? q.dropLast = some (.directory mode) := by
    by_cases heq : q = place
    · subst heq
      exact hnew id hq
    · rw [hnode q heq] at hq
      rw [huse id (hground.known q id hq)] at hwrite
      exact ⟨h q id hbelow hq hwrite, hground.parents q _ hbelow hq⟩
  -- the directory above the file is not what has changed
  have hne : q.dropLast ≠ place := fun heq => hold mode (heq ▸ hparent)
  rw [mayChange_congr hbound fun mode' => by rw [hnode _ hne]]
  exact hmay

theorem addDirectory (h : Removable root d) (hground : Grounded v root d)
    (hbelow : isBelow root place) (hnone : d.node? place = none) :
    Removable root (d.addDirectory place) := by
  have hne := isBelow_ne_nil hbelow
  refine h.change hground place rfl (fun q hq => ?_) (fun mode => by simp [hnone]) (fun _ _ => rfl)
    fun id hnode => ?_
  · rw [node?_addDirectory hne, if_neg hq]
  · rw [node?_addDirectory hne, if_pos rfl] at hnode
    cases hnode

theorem addFile (h : Removable root d) (hground : Grounded v root d) (hbelow : isBelow root place)
    (hnone : d.node? place = none) {mode : Nat}
    (hparent : d.node? place.dropLast = some (.directory mode)) (hmay : d.mayChange place) :
    Removable root (d.addFile place).2 := by
  have hne := isBelow_ne_nil hbelow
  refine h.change hground place rfl (fun q hq => ?_) (fun mode => by simp [hnone])
    (fun id hid => ?_) fun _ _ => ⟨hmay, mode, hparent⟩
  · rw [node?_addFile hne, if_neg hq]
  · have hrecord : (d.addFile place).2.record? id = d.record? id := by
      rw [record?_addFile, if_neg (Nat.ne_of_lt hid.lt)]
    exact mayUse_congr hrecord rfl .write

theorem drop (h : Removable root d) (hground : Grounded v root d) (hbelow : isBelow root place)
    {id : FileId} (hfile : d.node? place = some (.file id)) : Removable root (d.drop place) := by
  have hne := isBelow_ne_nil hbelow
  refine h.change hground place rfl (fun q hq => ?_) (fun mode => by simp [hfile]) (fun _ _ => rfl)
    fun id hnode => ?_
  · rw [node?_drop hne, if_neg hq]
  · rw [node?_drop hne, if_pos rfl] at hnode
    cases hnode

theorem move (h : Removable root d) (hground : Grounded v root d) {source target : Spot}
    {id : FileId} (hsource : d.node? (source.under root) = some (.file id))
    (htarget : ∀ mode, d.node? (target.under root) ≠ some (.directory mode)) {mode : Nat}
    (hparent : d.node? (target.under root).dropLast = some (.directory mode))
    (hmay : d.mayChange (target.under root)) :
    Removable root (Vault.move d root source target id) := by
  have hbelow := isBelow_under source root
  have hne := source.under_ne_nil root
  have hparent' : (d.drop (source.under root)).node? (target.under root).dropLast =
      some (.directory mode) := by
    rw [node?_drop hne, if_neg, hparent]
    intro heq
    rw [heq, hsource] at hparent
    cases hparent
  have hsame : (d.drop (source.under root)).mayChange (target.under root) =
      d.mayChange (target.under root) :=
    mayChange_congr rfl fun mode' => by rw [hparent, hparent']
  refine (h.drop hground hbelow hsource).change (hground.drop hbelow hsource) (target.under root)
    rfl (fun q hq => ?_) (fun mode' => ?_) (fun _ _ => rfl)
    fun _ _ => ⟨hsame.trans hmay, mode, hparent'⟩
  · rw [Vault.move, node?_put (target.under_ne_nil root), if_neg hq]
  · rw [node?_drop hne]
    split
    · simp
    · exact htarget mode'

theorem overwrite (h : Removable root d) (id : FileId) (content : Content) :
    Removable root (d.overwrite id content) := by
  intro q id' hbelow hq hwrite
  rw [node?_overwrite] at hq
  rw [mayUse_overwrite id content id' (by decide)] at hwrite
  rw [mayChange_overwrite]
  exact h q id' hbelow hq hwrite

theorem fill (h : Removable root d) (id : FileId) (bytes : Bytes) :
    Removable root (d.fill id bytes) := by
  rcases d.fill_eq id bytes with heq | heq
  · rw [heq]
    exact h
  · rw [heq]
    exact h.overwrite id _

end Removable

/-! ## 4. Where paths lead -/

namespace Grounded

theorem unused (h : Grounded v root d) (q : Place) : d.node? q ≠ some (.file d.nextFile) :=
  fun hq => Nat.lt_irrefl _ (h.known q _ hq).lt

theorem no_link (h : Grounded v root d) {steps : List Name} (hsteps : steps ≠ [])
    (target : Bytes) : d.node? (root ++ steps) ≠ some (.link target) := by
  intro hnode
  rcases h.kinds _ _ (isBelow_iff.mpr ⟨steps, hsteps, rfl⟩) hnode with ⟨_, heq⟩ | ⟨_, heq⟩
  · cases heq
  · cases heq

end Grounded

/-- Whether the path of a spot leads to its place, whatever stands there. -/
def reach (v : Vault) (root : Place) (d : Disk) (spot : Spot) : Except Errno Unit :=
  if maxPath < (v.pathOf spot).size then .error .nameTooLong else d.approach root spot.steps

theorem Spot.dropLast_under (spot : Spot) (root : Place) :
    (spot.under root).dropLast = root ++ spot.steps.dropLast :=
  List.dropLast_append_of_ne_nil spot.steps_ne_nil

theorem Spot.dropLast_staged (number : Nat) (root : Place) :
    (Spot.under (.staged number) root).dropLast = Spot.under .staging root :=
  Spot.dropLast_under _ root

theorem Spot.dropLast_file (user : UInt32) (name : Bytes) (root : Place) :
    (Spot.under (.file user name) root).dropLast = Spot.under (.folder user) root :=
  Spot.dropLast_under _ root

/-- On the way from the vault's directory to a spot there is the directory above it at most. -/
theorem Spot.eq_or_above (root : Place) {spot : Spot} {more : List Name} (hne : more ≠ [])
    (hle : more <+: spot.steps) :
    more = spot.steps ∨ root ++ more = (spot.under root).dropLast := by
  have hlast : more <+: spot.steps.dropLast ++ [spot.steps.getLast spot.steps_ne_nil] := by
    rwa [List.dropLast_concat_getLast]
  rcases List.prefix_concat_iff.mp hlast with heq | hle'
  · exact .inl (heq.trans (List.dropLast_concat_getLast _))
  · have hlength : spot.steps.dropLast.length ≤ 1 := by
      cases spot <;> simp [Spot.steps]
    have hpos := List.length_pos_iff.mpr hne
    have hshort := hle'.length_le
    have heq : more = spot.steps.dropLast := hle'.eq_of_length (by omega)
    right
    rw [heq, Spot.dropLast_under]

/-- Where no link stands right above a spot, its path leads straight down from the vault's
directory.  A link at the spot itself is no hindrance to finding what the path names. -/
theorem trace_spot {mode : Nat} (hbase : d.follow v.base = .ok (.node root (.directory mode)))
    {spot : Spot} (hvalid : spot.Valid) {purpose : Purpose}
    (habove : ∀ target, d.node? (spot.under root).dropLast ≠ some (.link target))
    (hend : ∀ target, d.node? (spot.under root) = some (.link target) → purpose = .name) :
    d.trace purpose (v.pathOf spot) =
      (reach v root d spot).map fun _ => d.foundAt (spot.under root) := by
  have hroot := node?_of_follow hbase
  have hlink (more : List Name) (target : Bytes) (hne : more ≠ []) (hle : more <+: spot.steps)
      (hnode : d.node? (root ++ more) = some (.link target)) :
      more = spot.steps ∧ purpose = .name := by
    rcases Spot.eq_or_above root hne hle with heq | heq
    · rw [heq] at hnode
      exact ⟨heq, hend target hnode⟩
    · rw [heq] at hnode
      exact absurd hnode (habove target)
  rw [reach]
  by_cases hsize : maxPath < (v.pathOf spot).size
  · rw [if_pos hsize, Disk.trace, if_pos hsize]
    rfl
  · rw [if_neg hsize]
    unfold follow Disk.trace at hbase
    split at hbase
    · cases hbase
    · apply trace_pathOf hbase hvalid (Nat.not_lt.mp hsize)
      intro follow
      exact walkWith_plain purpose follow (fun _ => hvalid.plain) spot.steps_ne_nil hlink
        fun target => by simp [hroot]

/-- Every path of a spot leads straight down from the vault's directory. -/
theorem Grounded.trace (h : Grounded v root d) (spot : Spot) (hvalid : spot.Valid)
    (purpose : Purpose) : d.trace purpose (v.pathOf spot) =
      (reach v root d spot).map fun _ => d.foundAt (spot.under root) := by
  obtain ⟨mode, hbase⟩ := h.base
  have hspot (target : Bytes) : d.node? (spot.under root) ≠ some (.link target) :=
    h.no_link spot.steps_ne_nil target
  apply trace_spot hbase hvalid
  · intro target hnode
    rw [Spot.dropLast_under] at hnode
    by_cases hnil : spot.steps.dropLast = []
    · rw [hnil, List.append_nil, node?_of_follow hbase] at hnode
      cases hnode
    · exact absurd hnode (h.no_link hnil target)
  · intro target hnode
    exact absurd hnode (hspot target)

theorem directory_of_reach {spot : Spot} (h : reach v root d spot = .ok ()) :
    ∃ mode, d.node? (spot.under root).dropLast = some (.directory mode) := by
  unfold reach at h
  split at h
  · cases h
  · obtain ⟨mode, hparent, -⟩ := directory_of_approach spot.steps_ne_nil h
    exact ⟨mode, hparent⟩

/-- What stands at a spot makes no difference to the paths that lead no deeper. -/
theorem reach_change {spot spot' : Spot} (hbound : d'.bound = d.bound)
    (hle : spot.steps.length ≤ spot'.steps.length)
    (hentry : ∀ q, q ≠ spot'.under root → d'.entryAt? q = d.entryAt? q) :
    reach v root d' spot = reach v root d spot := by
  have happroach : d'.approach root spot.steps = d.approach root spot.steps := by
    refine approach_congr hbound fun more hmore => hentry _ fun heq => ?_
    have hlength := congrArg List.length (List.append_cancel_left heq)
    omega
  rw [reach, reach, happroach]

theorem reach_mono {spot : Spot} (hbound : d'.bound = d.bound)
    (hnodes : ∀ q mode, d.node? q = some (.directory mode) → d'.node? q = some (.directory mode))
    (h : reach v root d spot = .ok ()) : reach v root d' spot = .ok () := by
  unfold reach at h ⊢
  split at h
  · cases h
  next hsize =>
    rw [if_neg hsize]
    exact approach_mono hbound hnodes h

/-! ## 5. What is listed -/

/-- Whether an entry of a directory is a regular file. -/
def isFile : Node → Bool
  | .file _ => true
  | _ => false

/-- Whether an entry that is seen is a regular file. -/
def showsFile : Entry → Bool
  | .file _ => true
  | _ => false

theorem showsFile_shape (d : Disk) (node : Node) :
    showsFile (d.entryOf node).shape = isFile node := by
  cases node <;> rfl

/-- The names in a directory, and whether files stand under them. -/
def listed (d : Disk) (q : Place) : List (Name × Bool) :=
  (d.entriesOf q).map fun entry => (entry.1, isFile entry.2)

theorem fileNames_eq_listed (d : Disk) (q : Place) :
    fileNames (d.entriesOf q) = ((listed d q).filterMap fun entry =>
      if entry.2 then some (Utf8.repair entry.1) else none).mergeSort byteOrder := by
  have hpick : fileName? = fun entry : Name × Node =>
      if isFile entry.2 then some (Utf8.repair entry.1) else none := by
    funext ⟨name, node⟩
    cases node <;> rfl
  rw [fileNames_eq, listed, List.filterMap_map, hpick]
  rfl

section
variable (hkeys : (d.nodes.entries.map (·.1)).Nodup)
include hkeys

theorem nodup_listed (q : Place) : (listed d q).Nodup := by
  have hnames : ((listed d q).map (·.1)).Nodup := by
    rw [listed, List.map_map]
    exact (enumerates_entriesOf hkeys q).nodup_names
  exact hnames.of_map _

theorem mem_listed {q : Place} {name : Name} {file : Bool} :
    (name, file) ∈ listed d q ↔ ∃ node, d.node? (q ++ [name]) = some node ∧ isFile node = file := by
  rw [listed, List.mem_map]
  constructor
  · rintro ⟨⟨name', node⟩, hmem, heq⟩
    cases heq
    exact ⟨node, ((enumerates_entriesOf hkeys q).mem_iff _ _).mp hmem, rfl⟩
  · rintro ⟨node, hnode, rfl⟩
    exact ⟨(name, node), ((enumerates_entriesOf hkeys q).mem_iff _ _).mpr hnode, rfl⟩

variable (hkeys' : (d'.nodes.entries.map (·.1)).Nodup) {q : Place}
  (h : ∀ name, d'.shapeAt? (q ++ [name]) = d.shapeAt? (q ++ [name]))
include hkeys' h

/-- Directories whose entries have the same shapes have the same names in them. -/
theorem perm_listed : (listed d' q).Perm (listed d q) := by
  refine (List.perm_ext_iff_of_nodup (nodup_listed hkeys' q) (nodup_listed hkeys q)).mpr ?_
  rintro ⟨name, file⟩
  have hshown (d : Disk) : (∃ node, d.node? (q ++ [name]) = some node ∧ isFile node = file) ↔
      ∃ entry, d.shapeAt? (q ++ [name]) = some entry ∧ showsFile entry = file := by
    rw [shapeAt?, entryAt?]
    rcases d.node? (q ++ [name]) with _ | node <;> simp [showsFile_shape]
  rw [mem_listed hkeys, mem_listed hkeys', hshown, hshown, h]

theorem fileNames_congr : fileNames (d'.entriesOf q) = fileNames (d.entriesOf q) := by
  rw [fileNames_eq_listed, fileNames_eq_listed]
  exact mergeSort_congr ((perm_listed hkeys hkeys' h).filterMap _)

theorem length_entriesOf_congr : (d'.entriesOf q).length = (d.entriesOf q).length := by
  have hlength := (perm_listed hkeys hkeys' h).length_eq
  rwa [listed, listed, List.length_map, List.length_map] at hlength

end

/-- The number of files that stand aside. -/
def stagedCount (root : Place) (d : Disk) : Nat :=
  (d.entriesOf (Spot.under .staging root)).length

/-- The entries of the directory aside are the same. -/
def SameAside (root : Place) (d d' : Disk) : Prop := ∀ name : Name,
  d'.entryAt? (Spot.under .staging root ++ [name]) = d.entryAt? (Spot.under .staging root ++ [name])

theorem SameAside.trans {d'' : Disk} (h : SameAside root d d') (h' : SameAside root d' d'') :
    SameAside root d d'' := fun name => (h' name).trans (h name)

theorem Grounded.stagedCount_eq {v' : Vault} (h : Grounded v root d) (h' : Grounded v' root d')
    (hshape : ∀ name : Name, d'.shapeAt? (Spot.under .staging root ++ [name]) =
      d.shapeAt? (Spot.under .staging root ++ [name])) :
    stagedCount root d' = stagedCount root d :=
  length_entriesOf_congr h.keys h'.keys hshape

/-! ## 6. Checking a tree -/

/-- Whether an entry of the table fits into a tree of directories and regular files. -/
def fitsGround (root : Place) (d : Disk) (entry : Place × Node) : Bool :=
  let parent := match d.node? entry.1.dropLast with
    | some (.directory _) => true
    | _ => false
  match entry.2 with
  | .directory _ => !isBelow root entry.1 || parent
  | .file id =>
    id < d.nextFile && (d.record? id).isSome &&
      (!isBelow root entry.1 || parent &&
        d.nodes.entries.all fun other => other.2 ≠ .file id || other.1 = entry.1)
  | _ => !isBelow root entry.1

/-- A disk is grounded if each entry of its table fits. -/
theorem Grounded.of_entries (hbase : ∃ mode, d.follow v.base = .ok (.node root (.directory mode)))
    (hkeys : (d.nodes.entries.map (·.1)).Nodup)
    (hentries : ∀ entry ∈ d.nodes.entries, fitsGround root d entry) : Grounded v root d := by
  have hmem {q : Place} {node : Node} (hne : q ≠ []) (h : d.node? q = some node) :
      (q, node) ∈ d.nodes.entries := Table.mem_of_get? (node?_of_ne hne ▸ h)
  have hfile {q : Place} {id : FileId} (h : d.node? q = some (.file id)) :
      (q, .file id) ∈ d.nodes.entries := hmem (by rintro rfl; cases h) h
  have hparent {q : Place} (h : (match d.node? q with
      | some (.directory _) => true
      | _ => false) = true) : ∃ mode, d.node? q = some (.directory mode) := by
    split at h
    next mode hq => exact ⟨mode, hq⟩
    next => cases h
  have hunder {q : Place} {id : FileId} (hbelow : isBelow root q)
      (h : d.node? q = some (.file id)) : (∃ mode, d.node? q.dropLast = some (.directory mode)) ∧
        ∀ q', d.node? q' = some (.file id) → q' = q := by
    have hfits := hentries _ (hfile h)
    simp only [fitsGround, hbelow, Bool.not_true, Bool.false_or, Bool.and_eq_true,
      List.all_eq_true] at hfits
    exact ⟨hparent hfits.2.1, fun q' h' => by simpa using hfits.2.2 _ (hfile h')⟩
  refine ⟨hbase, hkeys, fun q id h => ?_, fun q node hbelow h => ?_, fun q node hbelow h => ?_,
    fun q q' id hbelow h => (hunder hbelow h).2 q'⟩
  · have hfits := hentries _ (hfile h)
    simp only [fitsGround, Bool.and_eq_true, decide_eq_true_eq] at hfits
    exact ⟨hfits.1.1, Option.isSome_iff_ne_none.mp hfits.1.2⟩
  · have hfits := hentries _ (hmem (isBelow_ne_nil hbelow) h)
    cases node with
    | directory mode => exact .inl ⟨mode, rfl⟩
    | file id => exact .inr ⟨id, rfl⟩
    | _ => simp [fitsGround, hbelow] at hfits
  · have hfits := hentries _ (hmem (isBelow_ne_nil hbelow) h)
    cases node with
    | directory mode =>
      simp only [fitsGround, hbelow, Bool.not_true, Bool.false_or] at hfits
      exact hparent hfits
    | file id => exact (hunder hbelow h).1
    | _ => simp [fitsGround, hbelow] at hfits

/-- Whether an entry of the table is one that the process may take away if it may write to it. -/
def fitsRemoval (root : Place) (d : Disk) (entry : Place × Node) : Bool :=
  match entry.2 with
  | .file id => !isBelow root entry.1 || !d.mayUse id .write || d.mayChange entry.1
  | _ => true

theorem Removable.of_entries (hentries : ∀ entry ∈ d.nodes.entries, fitsRemoval root d entry) :
    Removable root d := by
  intro q id hbelow hq hwrite
  have hfits := hentries _ (Table.mem_of_get? (node?_of_ne (isBelow_ne_nil hbelow) ▸ hq))
  simpa only [fitsRemoval, hbelow, hwrite, Bool.not_true, Bool.false_or] using hfits

end UserVault.Vault
