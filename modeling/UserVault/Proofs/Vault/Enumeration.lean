import UserVault.Proofs.Text.Grammar
import UserVault.Proofs.Vault.Ledger

/-!
# Listings of any directory

A user's directory may hold what no vault has put there: links, further directories, and names that
are no well-formed text.  The system brings its entries in an order of its own.  A listing makes
the same names of them in every order.
-/

namespace UserVault.Vault

open Disk

variable {v : Vault} {d : Disk} {user : UInt32} {place : Place}
  {entries entries' : List (Name × Node)}

/-! ## 1. Enumerations -/

/-- The entries of the directory at a place, each of them once, in some order. -/
structure Enumerates (d : Disk) (place : Place) (entries : List (Name × Node)) : Prop where
  nodup : entries.Nodup
  mem_iff : ∀ name node, (name, node) ∈ entries ↔ d.node? (place ++ [name]) = some node

theorem Enumerates.perm (h : Enumerates d place entries) (h' : Enumerates d place entries') :
    entries.Perm entries' := by
  refine (List.perm_ext_iff_of_nodup h.nodup h'.nodup).mpr ?_
  rintro ⟨name, node⟩
  rw [h.mem_iff, h'.mem_iff]

theorem enumerates_entriesOf (hkeys : (d.nodes.entries.map (·.1)).Nodup) (place : Place) :
    Enumerates d place (d.entriesOf place) where
  nodup := by
    rw [entriesOf_eq]
    refine nodup_filterMap (fun entry => place ++ [entry.1]) (fun _ => true) (by simpa using hkeys)
      fun entry _ step hstep => ?_
    rw [entryIn?_eq_some.mp hstep]
    exact ⟨rfl, rfl⟩
  mem_iff name node := by
    rw [mem_entriesOf, node?_of_ne (by simp)]
    exact ⟨Table.get?_of_mem hkeys, Table.mem_of_get?⟩

-- What stands under a name is one thing.
theorem Enumerates.nodup_names (h : Enumerates d place entries) : (entries.map (·.1)).Nodup := by
  refine h.nodup.map_on ?_
  rintro ⟨name, node⟩ hentry ⟨name', node'⟩ hentry' rfl
  have hnode := ((h.mem_iff _ _).mp hentry).symm.trans ((h.mem_iff _ _).mp hentry')
  rw [Option.some.inj hnode]

/-! ## 2. The names of the files -/

/-- The name of an entry that is a regular file, as it stands in the directory. -/
def storedName? (entry : Name × Node) : Option Name :=
  match entry.2 with
  | .file _ => some entry.1
  | _ => none

/-- The names of the regular files among the entries of a directory. -/
def storedNames (entries : List (Name × Node)) : List Name := entries.filterMap storedName?

theorem storedName?_eq_some {entry : Name × Node} {name : Name} :
    storedName? entry = some name ↔ ∃ id, entry = (name, .file id) := by
  obtain ⟨name', node⟩ := entry
  cases node <;> simp [storedName?, eq_comm]

theorem fileNames_eq_storedNames (entries : List (Name × Node)) :
    fileNames entries = ((storedNames entries).map Utf8.repair).mergeSort byteOrder := by
  have hpick : fileName? = fun entry => (storedName? entry).map Utf8.repair := by
    funext ⟨name, node⟩
    cases node <;> rfl
  rw [fileNames_eq, storedNames, List.map_filterMap, hpick]

theorem Enumerates.mem_storedNames (h : Enumerates d place entries) {name : Name} :
    name ∈ storedNames entries ↔ ∃ id, d.node? (place ++ [name]) = some (.file id) := by
  rw [storedNames, List.mem_filterMap]
  constructor
  · rintro ⟨entry, hmem, hpick⟩
    obtain ⟨id, rfl⟩ := storedName?_eq_some.mp hpick
    exact ⟨id, (h.mem_iff _ _).mp hmem⟩
  · rintro ⟨id, hnode⟩
    exact ⟨(name, .file id), (h.mem_iff _ _).mpr hnode, rfl⟩

theorem Enumerates.nodup_storedNames (h : Enumerates d place entries) :
    (storedNames entries).Nodup := by
  refine nodup_filterMap id (fun _ => true) (by simpa using h.nodup_names)
    fun entry _ name hpick => ?_
  obtain ⟨id, rfl⟩ := storedName?_eq_some.mp hpick
  exact ⟨rfl, rfl⟩

/-! ## 3. What a listing makes of them -/

/-- What a listing makes of the entries of a directory, or of the failure to read them. -/
def namesOf : Except Errno (List (Name × Node)) → Except VaultError (List Bytes)
  | .error .noEntry => .error .noFiles
  | .error e => .error (.system { errno := e })
  | .ok entries => if fileNames entries = [] then .error .noFiles else .ok (fileNames entries)

theorem listNames_eq (v : Vault) (d : Disk) (user : UInt32) :
    v.listNames d user = namesOf (d.readDirectory (v.userDirectory user)) := by
  rw [listNames]
  split
  next hread => rw [hread, namesOf]
  next e hne hread => rw [hread, namesOf]; exact hne
  next entries hread =>
    rw [hread, namesOf]
    split
    next hnil => rw [if_pos hnil]
    next hne => rw [if_neg hne]

theorem fileNames_eq_nil : fileNames entries = [] ↔ storedNames entries = [] := by
  rw [fileNames_eq_storedNames, ← List.length_eq_zero_iff, List.length_mergeSort, List.length_map,
    List.length_eq_zero_iff]

theorem fileNames_perm (entries : List (Name × Node)) :
    (fileNames entries).Perm ((storedNames entries).map Utf8.repair) := by
  rw [fileNames_eq_storedNames]
  exact List.mergeSort_perm _ _

theorem Enumerates.fileNames_eq (h : Enumerates d place entries)
    (h' : Enumerates d place entries') : fileNames entries = fileNames entries' := by
  rw [fileNames_eq_storedNames, fileNames_eq_storedNames]
  exact mergeSort_congr (((h.perm h').filterMap _).map _)

theorem Enumerates.eq_nil_iff (h : Enumerates d place entries) :
    fileNames entries = [] ↔ ∀ name id, d.node? (place ++ [name]) ≠ some (.file id) := by
  rw [fileNames_eq_nil, List.eq_nil_iff_forall_not_mem]
  refine forall_congr' fun name => ?_
  rw [h.mem_storedNames, not_exists]

/-! ## 4. Names that are text -/

theorem repair_of_wellFormed {name : Bytes} (h : Utf8.WellFormed name) :
    Utf8.repair name = name := by
  obtain ⟨text, hdecode⟩ := Utf8.wellFormed_iff.mp h
  exact Utf8.repair_of_decode? hdecode

theorem map_repair {names : List Name} (h : ∀ name ∈ names, Utf8.WellFormed name) :
    names.map Utf8.repair = names :=
  (List.map_congr_left fun name hmem => repair_of_wellFormed (h name hmem)).trans (List.map_id _)

theorem pairwise_lt {names : List Bytes} (hle : names.Pairwise (· ≤ ·)) (hnodup : names.Nodup) :
    names.Pairwise (· < ·) := by
  refine (hle.and hnodup).imp fun {a b} h => ?_
  exact List.not_le.mp fun hba => h.2 (List.le_antisymm h.1 hba)

/-! ## 5. The listing of a directory -/

/-- Nothing is found where a path leads. -/
def Absent (d : Disk) (path : Path) : Prop :=
  d.follow path = .error .noEntry ∨ ∃ place, d.follow path = .ok (.vacant place)

/-- A path leads to a directory that may be read. -/
def Readable (d : Disk) (path : Path) (place : Place) : Prop :=
  ∃ mode, d.follow path = .ok (.node place (.directory mode)) ∧ d.allows mode .read

/-- The names that are listed of the directory at a place. -/
structure Canonical (d : Disk) (place : Place) (names : List Bytes) : Prop where
  sorted : names.Pairwise (· ≤ ·)
  /-- In whatever order the entries come, these names are made of them, one for each file. -/
  enumerated : ∀ entries, Enumerates d place entries →
    namesOf (.ok entries) = .ok names ∧ names.Perm ((storedNames entries).map Utf8.repair)
  exact : (∀ name id, d.node? (place ++ [name]) = some (.file id) → Utf8.WellFormed name) →
    names.Pairwise (· < ·) ∧
      ∀ name, name ∈ names ↔ ∃ id, d.node? (place ++ [name]) = some (.file id)

theorem Enumerates.canonical (h : Enumerates d place entries) (hne : fileNames entries ≠ []) :
    Canonical d place (fileNames entries) where
  sorted := by
    rw [fileNames_eq_storedNames]
    exact pairwise_mergeSort _
  enumerated entries' h' := by
    rw [h.fileNames_eq h'] at hne ⊢
    exact ⟨if_neg hne, fileNames_perm entries'⟩
  exact htext := by
    have hmap : (storedNames entries).map Utf8.repair = storedNames entries := by
      refine map_repair fun name hmem => ?_
      obtain ⟨id, hnode⟩ := h.mem_storedNames.mp hmem
      exact htext name id hnode
    have hperm := fileNames_perm entries
    rw [hmap] at hperm
    refine ⟨pairwise_lt ?_ (hperm.nodup_iff.mpr h.nodup_storedNames), fun name => ?_⟩
    · rw [fileNames_eq_storedNames]
      exact pairwise_mergeSort _
    · rw [hperm.mem_iff, h.mem_storedNames]

theorem readDirectory_of_absent {path : Path} (h : Absent d path) :
    d.readDirectory path = .error .noEntry := by
  rcases h with hfollow | ⟨place, hfollow⟩
  · rw [readDirectory, hfollow]
  · rw [readDirectory, hfollow]

theorem readDirectory_of_readable {path : Path} (h : Readable d path place) :
    d.readDirectory path = .ok (d.entriesOf place) := by
  obtain ⟨mode, hfollow, hread⟩ := h
  rw [readDirectory, hfollow]
  exact if_pos hread

/-- What keeps a directory from being read otherwise is told. -/
theorem readDirectory_of_neither {path : Path} (habsent : ¬Absent d path)
    (hread : ∀ place, ¬Readable d path place) :
    ∃ e ≠ Errno.noEntry, d.readDirectory path = .error e := by
  rw [readDirectory]
  split
  next e hfollow =>
    refine ⟨e, ?_, rfl⟩
    rintro rfl
    exact habsent (.inl hfollow)
  next place hfollow => exact absurd (.inr ⟨place, hfollow⟩) habsent
  next place mode hfollow =>
    refine ⟨.accessDenied, by decide, if_neg fun hallows => hread place ⟨mode, hfollow, hallows⟩⟩
  next => exact ⟨.notDirectory, by decide, rfl⟩

theorem namesOf_of_ne {e : Errno} (h : e ≠ .noEntry) :
    namesOf (.error e) = .error (.system { errno := e }) := by
  rw [namesOf]
  exact h

section

variable (hkeys : (d.nodes.entries.map (·.1)).Nodup)
include hkeys

theorem listNames_eq_noFiles_iff :
    v.listNames d user = .error .noFiles ↔ Absent d (v.userDirectory user) ∨
      ∃ place, Readable d (v.userDirectory user) place ∧
        ∀ name id, d.node? (place ++ [name]) ≠ some (.file id) := by
  rw [listNames_eq]
  constructor
  · intro hnone
    by_cases habsent : Absent d (v.userDirectory user)
    · exact .inl habsent
    by_cases hread : ∃ place, Readable d (v.userDirectory user) place
    · obtain ⟨place, hread⟩ := hread
      rw [readDirectory_of_readable hread, namesOf] at hnone
      split at hnone
      next hnil => exact .inr ⟨place, hread, (enumerates_entriesOf hkeys place).eq_nil_iff.mp hnil⟩
      next => cases hnone
    · obtain ⟨e, hne, herror⟩ := readDirectory_of_neither habsent (not_exists.mp hread)
      rw [herror, namesOf_of_ne hne] at hnone
      cases hnone
  · rintro (habsent | ⟨place, hread, hfree⟩)
    · rw [readDirectory_of_absent habsent]
      rfl
    · rw [readDirectory_of_readable hread]
      exact if_pos ((enumerates_entriesOf hkeys place).eq_nil_iff.mpr hfree)

theorem listNames_of_file (hread : Readable d (v.userDirectory user) place) {name : Name}
    {id : FileId} (hnode : d.node? (place ++ [name]) = some (.file id)) :
    ∃ names, v.listNames d user = .ok names ∧ Canonical d place names := by
  have henum := enumerates_entriesOf hkeys place
  have hne : fileNames (d.entriesOf place) ≠ [] := fun hnil =>
    henum.eq_nil_iff.mp hnil name id hnode
  refine ⟨_, ?_, henum.canonical hne⟩
  rw [listNames_eq, readDirectory_of_readable hread]
  exact if_neg hne

end

/-- A user has no files just if nothing stands where the user's directory would, or it can be read
and holds no regular file.  If it can be read and holds one, what is listed of it is the same in
every order.  A directory that may not be read, or something else in its place, is told as a failure
of the system. -/
theorem listing_canonical (v : Vault) {d : Disk} (hkeys : (d.nodes.entries.map (·.1)).Nodup)
    (user : UInt32) :
    (v.listNames d user = .error .noFiles ↔ Absent d (v.userDirectory user) ∨
      ∃ place, Readable d (v.userDirectory user) place ∧
        ∀ name id, d.node? (place ++ [name]) ≠ some (.file id)) ∧
    (∀ place, Readable d (v.userDirectory user) place →
      (∃ name id, d.node? (place ++ [name]) = some (.file id)) →
        ∃ names, v.listNames d user = .ok names ∧
          v.list d user = .ok (names.flatMap (· ++ [0x0A])) ∧ Canonical d place names) ∧
    (¬Absent d (v.userDirectory user) → (∀ place, ¬Readable d (v.userDirectory user) place) →
      ∃ e, v.listNames d user = .error (.system { errno := e })) := by
  refine ⟨listNames_eq_noFiles_iff hkeys, fun place hread hfiles => ?_, fun habsent hread => ?_⟩
  · obtain ⟨name, id, hnode⟩ := hfiles
    obtain ⟨names, hnames, hcanonical⟩ := listNames_of_file hkeys hread hnode
    refine ⟨names, hnames, ?_, hcanonical⟩
    rw [Vault.list, hnames]
    rfl
  · obtain ⟨e, hne, herror⟩ := readDirectory_of_neither habsent hread
    exact ⟨e, by rw [listNames_eq, herror, namesOf_of_ne hne]⟩

/-- In the directory there are two files, one of them under a name that is no text, a directory and
a link to a file. -/
theorem listing_canonical_mixed :
    let v : Vault := { base := { absolute := true, steps := [] } }
    let folder := Spot.under (.folder 9) []
    let disk : Disk :=
      { nodes := ⟨[(folder, .directory 0o755), (folder ++ [[0x62]], .file 0),
          (folder ++ [[0xFF]], .file 1), (folder ++ [[0x61]], .directory 0o755),
          (folder ++ [[0x63]], .link [0x62])]⟩ }
    (disk.nodes.entries.map (·.1)).Nodup ∧ v.listNames disk 8 = .error .noFiles ∧
      ∃ names, v.listNames disk 9 = .ok names ∧
        v.list disk 9 = .ok (names.flatMap (· ++ [0x0A])) ∧ Canonical disk folder names := by
  intro v folder disk
  have hkeys : (disk.nodes.entries.map (·.1)).Nodup := by decide +kernel
  have habsent : Absent disk (v.userDirectory 8) :=
    .inr ⟨Spot.under (.folder 8) [], by decide +kernel⟩
  have hread : Readable disk (v.userDirectory 9) folder :=
    ⟨0o755, by decide +kernel, by decide +kernel⟩
  exact ⟨hkeys, (listing_canonical v hkeys 8).1.mpr (.inl habsent),
    (listing_canonical v hkeys 9).2.1 folder hread ⟨[0x62], 0, by decide +kernel⟩⟩

end UserVault.Vault
