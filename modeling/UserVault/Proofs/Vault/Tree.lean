import UserVault.Vault.State
import UserVault.Proofs.Disk.Tree
import UserVault.Proofs.Disk.Walk
import UserVault.Proofs.Vault.Layout

/-!
# The tree of a vault

A vault that starts in an empty directory and is left alone has a tree of one form: below the
directory there is nothing but spots, with directories and files of its own where they belong.
`Orderly` says so.  On an orderly disk every path of a spot leads to the place of the spot, and all
that the vault ever does to the tree keeps it orderly.
-/

namespace UserVault.Vault

open Disk

/-- The place of a spot in a vault whose directory is at `root`. -/
def Spot.under (spot : Spot) (root : Place) : Place := root ++ spot.steps

theorem Spot.under_ne_nil (spot : Spot) (root : Place) : spot.under root ≠ [] :=
  fun h => spot.steps_ne_nil (List.append_eq_nil_iff.mp h).2

theorem Spot.under_file (user : UInt32) (name : Bytes) (root : Place) :
    Spot.under (.folder user) root ++ [name] = Spot.under (.file user name) root := by
  simp [Spot.under, Spot.steps]

theorem Spot.under_injective {spot spot' : Spot} {root : Place}
    (h : spot.under root = spot'.under root) : spot = spot' :=
  Spot.steps_injective (List.append_cancel_left h)

/-- An empty directory that a vault can start in.  The process may work in it and in what it makes
there, and the paths of all files of all users are short enough. -/
structure EmptyBase (v : Vault) (d : Disk) (root : Place) : Prop where
  base : ∃ mode, d.follow v.base = .ok (.node root (.directory mode)) ∧ d.allowsChange mode
  empty : ∀ q node, (q, node) ∈ d.nodes.entries → ∀ steps, q = root ++ steps → steps = []
  room : v.base.size + 267 ≤ maxPath
  directories : ∀ access, d.allows (d.grant 0o777) access
  files : ∀ access, access ≠ .search → d.allows (d.grant 0o666) access

/-- An empty disk will do, with the vault right in its root. -/
theorem emptyBase_root (options : Options) :
    EmptyBase { base := { absolute := true, steps := [] }, options } {} [] := by
  refine ⟨⟨0o755, rfl, by decide⟩, (fun _ _ h => nomatch h), ?_, ?_, ?_⟩
  · show 0 + 267 ≤ maxPath
    decide
  · intro access
    cases access <;> decide
  · intro access
    cases access <;> decide

/-- A file that can be read and written. -/
structure Usable (d : Disk) (id : FileId) : Prop where
  lt : id < d.nextFile
  record : ∃ record, d.record? id = some record ∧
    ∀ access, access ≠ .search → d.allows record.mode access

/-- What may stand at a spot. -/
def Fits (d : Disk) (node : Node) : Spot → Prop
  | .staging | .folder _ => ∃ mode, node = .directory mode ∧ ∀ access, d.allows mode access
  | .staged _ | .file _ _ => ∃ id, node = .file id ∧ Usable d id

/-- Whether a place lies below another one. -/
def isBelow (root q : Place) : Bool := root.isPrefixOf q && q ≠ root

/-- The tree of a vault on disk `d`, which was `d₀` before the vault was first used. -/
structure Orderly (v : Vault) (root : Place) (d₀ d : Disk) : Prop where
  bound : d.bound = d₀.bound
  umask : d.umask = d₀.umask
  home : d.home = d₀.home
  outside : ∀ q, isBelow root q = false → d.node? q = d₀.node? q
  inside : ∀ q node, (q, node) ∈ d.nodes.entries → isBelow root q →
    ∃ spot : Spot, spot.Valid ∧ q = spot.under root ∧ Fits d node spot
  keys : ((d.nodes.entries.map (·.1)).filter (isBelow root)).Nodup
  staging : ∃ node, d.node? (Spot.under .staging root) = some node
  folder : ∀ user name node, d.node? (Spot.under (.file user name) root) = some node →
    ∃ node, d.node? (Spot.under (.folder user) root) = some node
  distinct : ∀ (spot spot' : Spot) id, d.node? (spot.under root) = some (.file id) →
    d.node? (spot'.under root) = some (.file id) → spot = spot'

variable {v : Vault} {root : Place} {d₀ d : Disk}

/-! ## 1. Places -/

theorem isBelow_iff {q : Place} :
    isBelow root q = true ↔ ∃ steps, steps ≠ [] ∧ q = root ++ steps := by
  unfold isBelow
  rw [Bool.and_eq_true, List.isPrefixOf_iff_prefix, decide_eq_true_eq]
  constructor
  · rintro ⟨⟨steps, rfl⟩, hne⟩
    refine ⟨steps, ?_, rfl⟩
    rintro rfl
    exact hne (List.append_nil root)
  · rintro ⟨steps, hne, rfl⟩
    refine ⟨⟨steps, rfl⟩, fun h => hne ?_⟩
    have happ : root ++ steps = root ++ [] := by rw [h, List.append_nil]
    exact List.append_cancel_left happ

theorem isBelow_under (spot : Spot) (root : Place) : isBelow root (spot.under root) = true :=
  isBelow_iff.mpr ⟨spot.steps, spot.steps_ne_nil, rfl⟩

theorem isBelow_ne_nil {q : Place} (h : isBelow root q = true) : q ≠ [] := by
  obtain ⟨steps, hne, rfl⟩ := isBelow_iff.mp h
  exact fun h => hne (List.append_eq_nil_iff.mp h).2

theorem ne_under_of_not_isBelow {q : Place} (h : isBelow root q = false) (spot : Spot) :
    q ≠ spot.under root := by
  rintro rfl
  rw [isBelow_under] at h
  cases h

/-! ## 2. What stands at spots -/

namespace Orderly

theorem allows (h : Orderly v root d₀ d) (mode : Nat) (access : Access) :
    d.allows mode access = d₀.allows mode access :=
  allows_congr h.bound mode access

/-- Only what fits stands at a spot. -/
theorem fits (h : Orderly v root d₀ d) {spot : Spot} {node : Node}
    (hnode : d.node? (spot.under root) = some node) : spot.Valid ∧ Fits d node spot := by
  rw [node?_of_ne (spot.under_ne_nil root)] at hnode
  obtain ⟨spot', hvalid, hplace, hfits⟩ :=
    h.inside _ _ (Table.mem_of_get? hnode) (isBelow_under spot root)
  rw [Spot.under_injective hplace]
  exact ⟨hvalid, hfits⟩

theorem spot_cases (h : Orderly v root d₀ d) (spot : Spot) :
    d.node? (spot.under root) = none ∨
      ∃ node, d.node? (spot.under root) = some node ∧ Fits d node spot := by
  cases hnode : d.node? (spot.under root) with
  | none => exact .inl rfl
  | some node => exact .inr ⟨node, rfl, (h.fits hnode).2⟩

theorem folder_cases (h : Orderly v root d₀ d) (user : UInt32) :
    d.node? (Spot.under (.folder user) root) = none ∨
      ∃ mode, d.node? (Spot.under (.folder user) root) = some (.directory mode) ∧
        ∀ access, d.allows mode access := by
  rcases h.spot_cases (.folder user) with hnone | ⟨_, hnode, mode, rfl, hmode⟩
  · exact .inl hnone
  · exact .inr ⟨mode, hnode, hmode⟩

theorem file_cases (h : Orderly v root d₀ d) (user : UInt32) (name : Bytes) :
    d.node? (Spot.under (.file user name) root) = none ∨
      ∃ id, d.node? (Spot.under (.file user name) root) = some (.file id) ∧ Usable d id := by
  rcases h.spot_cases (.file user name) with hnone | ⟨_, hnode, id, rfl, hid⟩
  · exact .inl hnone
  · exact .inr ⟨id, hnode, hid⟩

theorem staged_cases (h : Orderly v root d₀ d) (number : Nat) :
    d.node? (Spot.under (.staged number) root) = none ∨
      ∃ id, d.node? (Spot.under (.staged number) root) = some (.file id) ∧ Usable d id := by
  rcases h.spot_cases (.staged number) with hnone | ⟨_, hnode, id, rfl, hid⟩
  · exact .inl hnone
  · exact .inr ⟨id, hnode, hid⟩

theorem staging_directory (h : Orderly v root d₀ d) :
    ∃ mode, d.node? (Spot.under .staging root) = some (.directory mode) ∧
      ∀ access, d.allows mode access := by
  obtain ⟨node, hnode⟩ := h.staging
  obtain ⟨mode, rfl, hmode⟩ := (h.fits hnode).2
  exact ⟨mode, hnode, hmode⟩

theorem no_link (h : Orderly v root d₀ d) (spot : Spot) (target : Bytes) :
    d.node? (spot.under root) ≠ some (.link target) := by
  intro hnode
  have hfits := (h.fits hnode).2
  cases spot <;> obtain ⟨_, heq, _⟩ := hfits <;> cases heq

end Orderly

/-! ## 3. Where paths lead -/

theorem EmptyBase.node?_below (hbase : EmptyBase v d₀ root) {q : Place}
    (h : isBelow root q = true) : d₀.node? q = none := by
  rw [node?_of_ne (isBelow_ne_nil h)]
  cases hnode : d₀.nodes.get? q with
  | none => rfl
  | some node =>
    obtain ⟨steps, hne, rfl⟩ := isBelow_iff.mp h
    exact absurd (hbase.empty _ _ (Table.mem_of_get? hnode) steps rfl) hne

/-- A disk on which the vault's directory is still where it was, whatever is below it. -/
structure Rooted (v : Vault) (root : Place) (d : Disk) : Prop where
  walk : ∃ mode, d.walk .use maxLinks (if v.base.absolute then [] else d.home) v.base.steps =
    .ok (.node root (.directory mode))
  directory : ∃ mode, d.node? root = some (.directory mode) ∧ d.allowsChange mode

theorem EmptyBase.rooted (hbase : EmptyBase v d₀ root) : Rooted v root d₀ := by
  obtain ⟨mode, hfollow, hmode⟩ := hbase.base
  unfold follow trace at hfollow
  split at hfollow
  · cases hfollow
  · exact ⟨⟨mode, hfollow⟩, mode, node?_of_walk hfollow, hmode⟩

theorem Rooted.mono {d' : Disk} (h : Rooted v root d) (hbound : d'.bound = d.bound)
    (hhome : d'.home = d.home)
    (hnodes : ∀ q node, (∀ id, node ≠ .file id) → d.node? q = some node → d'.node? q = some node) :
    Rooted v root d' := by
  obtain ⟨⟨mode, hwalk⟩, mode', hnode, hmode⟩ := h
  refine ⟨⟨mode, ?_⟩, mode', hnodes _ _ (fun _ => nofun) hnode, ?_⟩
  · rw [hhome]
    exact walk_mono hbound hnodes hwalk
  · rw [allowsChange, allows_congr hbound, allows_congr hbound]
    exact hmode

theorem Orderly.rooted (hbase : EmptyBase v d₀ root) (h : Orderly v root d₀ d) :
    Rooted v root d := by
  -- whatever stood on the disk before still stands there: it is outside the vault
  refine hbase.rooted.mono h.bound h.home fun q node _ hnode => ?_
  rw [h.outside, hnode]
  cases hbelow : isBelow root q with
  | false => rfl
  | true =>
    rw [hbase.node?_below hbelow] at hnode
    cases hnode

theorem length_numeral_le (user : UInt32) : (Decimal.encode user.toNat).length ≤ 10 :=
  Decimal.length_encode_le 10 (by decide) (Nat.lt_trans user.toNat_lt (by decide))

-- A user's numeral takes ten bytes at most and a name 255, each with a slash behind it.
theorem Spot.reach_steps_le {spot : Spot} (hvalid : spot.Valid)
    (hstaged : ∀ number, spot ≠ .staged number) : Path.reach false spot.steps ≤ 267 := by
  cases spot with
  | staging =>
    have hlength : stagingName.length = 8 := by
      rw [stagingName_eq]
      rfl
    show 0 + stagingName.length + 1 ≤ 267
    omega
  | staged number => exact absurd rfl (hstaged number)
  | folder user =>
    have hlength := length_numeral_le user
    show 0 + (Decimal.encode user.toNat).length + 1 ≤ 267
    omega
  | file user name =>
    have hlength := length_numeral_le user
    have hlength' : name.length ≤ 255 := length_le_of_accepts hvalid
    show 0 + (Decimal.encode user.toNat).length + 1 + name.length + 1 ≤ 267
    omega

theorem EmptyBase.size_le (hbase : EmptyBase v d₀ root) {spot : Spot} (hvalid : spot.Valid)
    (hstaged : ∀ number, spot ≠ .staged number) : (v.pathOf spot).size ≤ maxPath := by
  have hsize : (v.pathOf spot).size ≤ _ := v.base.size_append_le spot.steps
  have hreach := Spot.reach_steps_le hvalid hstaged
  have hroom := hbase.room
  omega

/-- No file on its way in can have this number, because its name or path would be too long. -/
def TooLong (v : Vault) (number : Nat) : Prop :=
  maxPath < (v.pathOf (.staged number)).size ∨ maxName < (stagedName number).length

instance (v : Vault) (number : Nat) : Decidable (TooLong v number) :=
  inferInstanceAs (Decidable (_ ∨ _))

variable {purpose : Purpose}

/-- Where the path of a spot leads follows from the vault's directory on. -/
theorem trace_pathOf {mode : Nat}
    (hwalk : d.walk .use maxLinks (if v.base.absolute then [] else d.home) v.base.steps =
      .ok (.node root (.directory mode))) {spot : Spot} {result : Except Errno Found}
    (hvalid : spot.Valid) (hsize : (v.pathOf spot).size ≤ maxPath)
    (hgo : ∀ follow, walkWith d purpose follow root spot.steps = result) :
    d.trace purpose (v.pathOf spot) = result := by
  -- the walk to the vault's directory is taken further by the steps of the spot
  have hclosing : spot.steps ≠ [closing] := by
    intro heq
    have hmem : closing ∈ spot.steps := by
      rw [heq]
      exact List.mem_cons_self
    exact (hvalid.plain hmem).ne_nil rfl
  have hsize' : ¬maxPath < (v.pathOf spot).size := by omega
  rw [Disk.trace, if_neg hsize']
  exact walk_append spot.steps_ne_nil hclosing hwalk hgo

theorem Rooted.trace (h : Rooted v root d) {spot : Spot} {result : Except Errno Found}
    (hvalid : spot.Valid) (hsize : (v.pathOf spot).size ≤ maxPath)
    (hgo : ∀ follow, walkWith d purpose follow root spot.steps = result) :
    d.trace purpose (v.pathOf spot) = result := by
  obtain ⟨⟨mode, hwalk⟩, -⟩ := h
  exact trace_pathOf hwalk hvalid hsize hgo

theorem Rooted.search_root (h : Rooted v root d) :
    ∃ mode, d.node? root = some (.directory mode) ∧ d.allows mode .search := by
  obtain ⟨mode, hnode, hmode⟩ := h.directory
  rw [allowsChange, Bool.and_eq_true] at hmode
  exact ⟨mode, hnode, hmode.2⟩

theorem Rooted.trace_staging (hbase : EmptyBase v d₀ root) (h : Rooted v root d)
    (hlink : ∀ target, d.node? (Spot.under .staging root) ≠ some (.link target)) :
    d.trace purpose (v.pathOf .staging) = .ok (d.foundAt (Spot.under .staging root)) := by
  obtain ⟨mode, hroot, hsearch⟩ := h.search_root
  have hlength : ¬maxName < stagingName.length := by
    rw [stagingName_eq]
    decide
  refine h.trace trivial (hbase.size_le trivial (by simp)) fun follow => ?_
  have hlast := walkWith_last purpose follow hroot hsearch
    plain_stagingName hlink
  rwa [if_neg hlength] at hlast

namespace Orderly

theorem trace_folder (hbase : EmptyBase v d₀ root) (h : Orderly v root d₀ d) (user : UInt32) :
    d.trace purpose (v.pathOf (.folder user)) =
      .ok (d.foundAt (Spot.under (.folder user) root)) := by
  obtain ⟨mode, hroot, hsearch⟩ := (h.rooted hbase).search_root
  have hlength : ¬maxName < (Decimal.encode user.toNat).length := by
    have hle := length_numeral_le user
    show ¬255 < _
    omega
  refine (h.rooted hbase).trace trivial (hbase.size_le trivial (by simp)) fun follow => ?_
  have hlast := walkWith_last purpose follow hroot hsearch
    (plain_numeral user.toNat) (h.no_link (.folder user))
  rwa [if_neg hlength] at hlast

theorem trace_staged (hbase : EmptyBase v d₀ root) (h : Orderly v root d₀ d) (number : Nat) :
    d.trace purpose (v.pathOf (.staged number)) =
      if TooLong v number then .error .nameTooLong
      else .ok (d.foundAt (Spot.under (.staged number) root)) := by
  obtain ⟨mode, hroot, hsearch⟩ := (h.rooted hbase).search_root
  obtain ⟨mode', hstaging, hmode'⟩ := h.staging_directory
  by_cases hsize : maxPath < (v.pathOf (.staged number)).size
  · have hlong : TooLong v number := .inl hsize
    rw [Disk.trace, if_pos hsize, if_pos hlong]
  · have hplace : Spot.under (.staged number) root =
        (root ++ [stagingName]) ++ [stagedName number] := by
      simp [Spot.under, Spot.steps]
    have hlength : stagingName.length ≤ maxName := by
      rw [stagingName_eq]
      decide
    refine (h.rooted hbase).trace trivial (by omega) fun follow => ?_
    rw [Spot.steps, walkWith_into hroot hsearch plain_stagingName hlength hstaging
      (fun heq => (plain_stagedName number).ne_nil (List.cons.inj heq).1)]
    have hlast := walkWith_last purpose follow hstaging (hmode' .search)
      (plain_stagedName number) (fun target => by
        show d.node? ((root ++ [stagingName]) ++ [stagedName number]) ≠ _
        rw [← hplace]
        exact h.no_link _ target)
    show walkWith d purpose follow (root ++ [stagingName]) _ = _
    rw [hplace]
    have hlong : TooLong v number ↔ maxName < (stagedName number).length := by
      rw [TooLong, or_iff_right hsize]
    simp only [hlong]
    exact hlast

theorem trace_file (hbase : EmptyBase v d₀ root) (h : Orderly v root d₀ d) (user : UInt32)
    {name : Bytes} (hname : accepts name) :
    d.trace purpose (v.pathOf (.file user name)) =
      if (d.node? (Spot.under (.folder user) root)).isSome then
        .ok (d.foundAt (Spot.under (.file user name) root))
      else .error .noEntry := by
  obtain ⟨mode, hroot, hsearch⟩ := (h.rooted hbase).search_root
  have hplain := plain_of_accepts hname
  have hclosing : [name] ≠ [closing] := fun heq => hplain.ne_nil (List.cons.inj heq).1
  have hlength : (Decimal.encode user.toNat).length ≤ maxName :=
    Nat.le_trans (length_numeral_le user) (by decide)
  have hlength' : ¬maxName < name.length := by
    have hle : name.length ≤ 255 := length_le_of_accepts hname
    show ¬255 < _
    omega
  refine (h.rooted hbase).trace hname (hbase.size_le hname (by simp)) fun follow => ?_
  rw [Spot.steps]
  -- without the directory of the user the walk ends before its last step
  rcases h.folder_cases user with hnone | ⟨mode', hfolder, hmode'⟩
  · rw [hnone]
    exact walkWith_missing hroot hsearch (plain_numeral _) hlength hnone hclosing
      (List.cons_ne_nil _ _)
  · have hplace : Spot.under (.file user name) root =
        (root ++ [Decimal.encode user.toNat]) ++ [name] := by
      simp [Spot.under, Spot.steps]
    rw [hfolder, walkWith_into hroot hsearch (plain_numeral _) hlength hfolder hclosing]
    have hlast := walkWith_last purpose follow hfolder (hmode' .search)
      hplain (fun target => by
        show d.node? ((root ++ [Decimal.encode user.toNat]) ++ [name]) ≠ _
        rw [← hplace]
        exact h.no_link _ target)
    rw [if_neg hlength'] at hlast
    rw [hplace]
    exact hlast

end Orderly

end UserVault.Vault
