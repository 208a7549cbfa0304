import UserVault.Vault.Retrieval
import UserVault.Vault.Listing
import UserVault.Vault.Upload
import UserVault.Proofs.Vault.Changes

/-!
# Calls on an orderly disk

What each call of the vault comes to on an orderly disk: whether it succeeds, and which change of
the tree it makes then.
-/

namespace UserVault

open Disk

/-! ## 1. Making directories -/

namespace Disk

variable {d : Disk} {p : Path} {place : Place}

-- The directories above come into play only where one of them is missing.
theorem makeDirectories_eq (hne : p.steps ≠ []) (habove : d.makeDirectory p ≠ .error .noEntry) :
    d.makeDirectories p =
      match d.makeDirectory p with
      | .ok made => (.ok (), made.2)
      | .error e => if d.leadsToDirectory p then (.ok (), d) else (.error e, d) := by
  obtain ⟨step, above, hsteps⟩ := List.exists_cons_of_ne_nil (mt List.reverse_eq_nil_iff.mp hne)
  have hpath : { p with steps := (step :: above).reverse } = p := by
    rw [← hsteps, List.reverse_reverse]
  rw [makeDirectories, hsteps, makeDirectoriesFrom]
  simp only [hpath]
  cases hmake : d.makeDirectory p with
  | ok made => rfl
  | error e =>
    cases e with
    | noEntry => exact absurd hmake habove
    | _ => by_cases hleads : d.leadsToDirectory p <;> simp [hleads, Except.map]

theorem makeDirectories_of_vacant (hne : p.steps ≠ []) (hlocate : d.locate p = .ok (.vacant place))
    (hmay : d.mayChange place) : d.makeDirectories p = (.ok (), d.addDirectory place) := by
  have hmake : d.makeDirectory p = .ok (place, d.addDirectory place) := by
    simp only [makeDirectory, hlocate, hmay, if_true]
  rw [makeDirectories_eq hne (by simp [hmake]), hmake]

theorem makeDirectories_of_directory {node : Node} (hne : p.steps ≠ [])
    (hlocate : d.locate p = .ok (.node place node)) (hleads : d.leadsToDirectory p) :
    d.makeDirectories p = (.ok (), d) := by
  have hmake : d.makeDirectory p = .error .exists := by
    simp only [makeDirectory, hlocate]
  rw [makeDirectories_eq hne (by simp [hmake]), hmake]
  simp only [hleads, if_true]

/-- A directory that is neither there nor can be made is refused. -/
theorem makeDirectories_of_error {e : Errno} (hne : p.steps ≠ [])
    (hmake : d.makeDirectory p = .error e) (habove : e ≠ .noEntry)
    (hleads : d.leadsToDirectory p = false) : d.makeDirectories p = (.error e, d) := by
  have hmissing : d.makeDirectory p ≠ .error .noEntry := by
    rw [hmake]
    exact fun heq => habove (Except.error.inj heq)
  rw [makeDirectories_eq hne hmissing, hmake, hleads]
  rfl

end Disk

namespace Vault

variable {v : Vault} {root : Place} {d₀ d : Disk}

theorem steps_pathOf_ne_nil (v : Vault) (spot : Spot) : (v.pathOf spot).steps ≠ [] :=
  fun h => spot.steps_ne_nil (List.append_eq_nil_iff.mp h).2

/-- What is found of an accepted name decides what a retrieval comes to. -/
theorem retrieve_of_accepts (v : Vault) (d : Disk) (user : UInt32) {name : Bytes}
    (hname : accepts name) :
    v.retrieve d user name =
      match d.openRead (v.pathOf (.file user name)) with
      | .error e => .error (.ofLookup e)
      | .ok (.file id) =>
        if (d.contentOf id).size < UInt32.size then
          .ok { length := UInt32.ofNat (d.contentOf id).size, file := id }
        else .error (.tooLarge (d.contentOf id).size)
      | .ok _ => .error .notFound := by
  have hresolve := resolve_of_accepts v user hname
  unfold retrieve
  split
  next hresolve' =>
    rw [hresolve] at hresolve'
    cases hresolve'
  next path hresolve' =>
    rw [hresolve] at hresolve'
    cases hresolve'
    rfl

theorem mayChange_of_directory {place : Place} {mode : Nat}
    (hplace : d.node? place.dropLast = some (.directory mode)) (hmode : d.allowsChange mode) :
    d.mayChange place := by
  simp [mayChange, hplace, hmode]

/-- The names of a vault may be given and taken away. -/
theorem Orderly.mayChange (hbase : EmptyBase v d₀ root) (h : Orderly v root d₀ d) (spot : Spot) :
    d.mayChange (spot.under root) := by
  have hchange {mode : Nat} (hmode : ∀ access, d.allows mode access) : d.allowsChange mode := by
    rw [allowsChange, hmode .write, hmode .search]
    rfl
  cases spot with
  | staging | folder =>
    obtain ⟨mode, hroot, hmode⟩ := (h.rooted hbase).directory
    refine mayChange_of_directory ?_ hmode
    simpa [Spot.under, Spot.steps] using hroot
  | staged number =>
    obtain ⟨mode, hstaging, hmode⟩ := h.staging_directory
    refine mayChange_of_directory ?_ (hchange hmode)
    simpa [Spot.under, Spot.steps] using hstaging
  | file user name =>
    have hparent : (Spot.under (.file user name) root).dropLast =
        Spot.under (.folder user) root := by
      rw [← Spot.under_file, List.dropLast_concat]
    rcases h.folder_cases user with hnone | ⟨mode, hfolder, hmode⟩
    · simp [Disk.mayChange, hparent, hnone]
    · refine mayChange_of_directory ?_ (hchange hmode)
      rwa [hparent]

theorem prepare_eq (hbase : EmptyBase v d₀ root) :
    v.prepare d₀ = (.ok (), d₀.addDirectory (Spot.under .staging root)) := by
  have hnone := hbase.node?_below (isBelow_under .staging root)
  obtain ⟨mode, hroot, hmode⟩ := hbase.rooted.directory
  have hlocate : d₀.locate (v.pathOf .staging) = .ok (.vacant (Spot.under .staging root)) := by
    rw [← foundAt_of_none hnone]
    refine hbase.rooted.trace_staging hbase fun target => ?_
    rw [hnone]
    exact fun heq => nomatch heq
  rw [prepare, stagingDirectory_eq]
  refine makeDirectories_of_vacant (steps_pathOf_ne_nil v _) hlocate
    (mayChange_of_directory ?_ hmode)
  simpa [Spot.under, Spot.steps] using hroot

/-- A vault that has just been prepared has an orderly tree with nothing but the directory for
files on their way in. -/
theorem orderly_prepare (hbase : EmptyBase v d₀ root) : Orderly v root d₀ (v.prepare d₀).2 := by
  rw [prepare_eq hbase]
  -- below the vault's directory nothing stood before, so all there is now is the new one
  have hnode? (q : Place) := node?_addDirectory (d := d₀) (Spot.under_ne_nil .staging root) q
  have hbelow {q : Place} (hq : isBelow root q = true) {node : Node}
      (hnode : (d₀.addDirectory (Spot.under .staging root)).node? q = some node) :
      q = Spot.under .staging root ∧ node = .directory (d₀.grant 0o777) := by
    rw [hnode?] at hnode
    split at hnode
    next heq => exact ⟨heq, (Option.some.inj hnode).symm⟩
    next =>
      rw [hbase.node?_below hq] at hnode
      cases hnode
  refine ⟨rfl, rfl, rfl, ?_, ?_, ?_, ?_, ?_, ?_⟩
  · intro q hq
    rw [hnode?, if_neg (ne_under_of_not_isBelow hq .staging)]
  · intro q node hmem hq
    rcases List.mem_cons.mp hmem with heq | hmem
    · cases heq
      exact ⟨.staging, trivial, rfl, _, rfl, hbase.directories⟩
    · obtain ⟨steps, hne, rfl⟩ := isBelow_iff.mp hq
      exact absurd (hbase.empty _ _ hmem steps rfl) hne
  · show ((Spot.under .staging root :: d₀.nodes.entries.map (·.1)).filter (isBelow root)).Nodup
    rw [List.filter_cons_of_pos (isBelow_under .staging root)]
    have hnil : (d₀.nodes.entries.map (·.1)).filter (isBelow root) = [] := by
      refine List.filter_eq_nil_iff.mpr fun q hq hbelow => ?_
      obtain ⟨entry, hentry, rfl⟩ := List.mem_map.mp hq
      obtain ⟨steps, hne, heq⟩ := isBelow_iff.mp hbelow
      exact hne (hbase.empty entry.1 entry.2 hentry steps heq)
    rw [hnil]
    simp
  · exact ⟨_, by rw [hnode?, if_pos rfl]⟩
  · intro user name node hnode
    cases Spot.under_injective (hbelow (isBelow_under _ _) hnode).1
  · intro spot spot' id hnode hnode'
    cases (hbelow (isBelow_under _ _) hnode).2

namespace Orderly

theorem makeDirectories_folder (hbase : EmptyBase v d₀ root) (h : Orderly v root d₀ d)
    (user : UInt32) :
    d.makeDirectories (v.userDirectory user) = (.ok (), withFolder d root user) := by
  have hlocate : d.locate (v.pathOf (.folder user)) = _ := h.trace_folder hbase user
  rw [userDirectory_eq, withFolder]
  -- either it is vacant and is made, or it is there and found to be a directory
  rcases h.folder_cases user with hnone | ⟨mode, hfolder, -⟩
  · rw [foundAt_of_none hnone] at hlocate
    rw [makeDirectories_of_vacant (steps_pathOf_ne_nil v _) hlocate (h.mayChange hbase _), hnone]
    rfl
  · rw [foundAt_of_some hfolder] at hlocate
    have hfollow : d.follow (v.pathOf (.folder user)) = _ := h.trace_folder hbase user
    have hleads : d.leadsToDirectory (v.pathOf (.folder user)) := by
      rw [leadsToDirectory, hfollow, foundAt_of_some hfolder]
    rw [makeDirectories_of_directory (steps_pathOf_ne_nil v _) hlocate hleads, hfolder]
    rfl

/-! ## 2. Opening files for writing -/

theorem createAt_spot (hbase : EmptyBase v d₀ root) (h : Orderly v root d₀ d) (spot : Spot) :
    d.createAt (spot.under root) = .ok ({ target := .file d.nextFile }, putNew d root spot) := by
  rw [createAt, if_pos (h.mayChange hbase spot)]
  rfl

theorem createNew_staged (hbase : EmptyBase v d₀ root) (h : Orderly v root d₀ d) (number : Nat) :
    d.createNew (v.pathOf (.staged number)) =
      if TooLong v number then .error .nameTooLong
      else if (d.node? (Spot.under (.staged number) root)).isSome then .error .exists
      else .ok ({ target := .file d.nextFile }, putNew d root (.staged number)) := by
  have hlocate : d.locate (v.pathOf (.staged number)) = _ := h.trace_staged hbase number
  rw [createNew, hlocate]
  by_cases hlong : TooLong v number
  · rw [if_pos hlong, if_pos hlong]
  · rw [if_neg hlong, if_neg hlong]
    cases hnode : d.node? (Spot.under (.staged number) root) with
    | none =>
      rw [foundAt_of_none hnode]
      exact h.createAt_spot hbase _
    | some node =>
      rw [foundAt_of_some hnode]
      rfl

/-- Opening a user's file to write it anew makes the file, or empties it. -/
theorem create_file (hbase : EmptyBase v d₀ root) (h : Orderly v root d₀ d) (user : UInt32)
    {name : Bytes} (hname : accepts name) :
    d.create (v.pathOf (.file user name)) =
      if (d.node? (Spot.under (.folder user) root)).isSome then
        match d.node? (Spot.under (.file user name) root) with
        | some (.file id) => .ok ({ target := .file id }, d.overwrite id .empty)
        | _ => .ok ({ target := .file d.nextFile }, putNew d root (.file user name))
      else .error .noEntry := by
  rw [create, h.trace_file hbase user hname]
  by_cases hfolder : (d.node? (Spot.under (.folder user) root)).isSome
  · rw [if_pos hfolder, if_pos hfolder]
    rcases h.file_cases user name with hnone | ⟨id, hnode, hid⟩
    · rw [foundAt_of_none hnone, hnone]
      exact h.createAt_spot hbase _
    · rw [foundAt_of_some hnode, hnode]
      simp only [hid.mayUse .write (by decide), if_true]
  · rw [if_neg hfolder, if_neg hfolder]

/-! ## 3. Renaming and unlinking -/

theorem not_isPrefixOf_parent (user : UInt32) (name : Bytes) (spot : Spot) :
    (Spot.under (.file user name) root).isPrefixOf (spot.under root).dropLast = false := by
  rw [Bool.eq_false_iff, ne_eq, List.isPrefixOf_iff_prefix]
  intro hprefix
  have hlength := hprefix.length_le
  have hsteps : spot.steps.length ≤ 2 := by cases spot <;> simp [Spot.steps]
  have hfile : (Spot.file user name).steps.length = 2 := rfl
  simp only [Spot.under, List.length_append, List.length_dropLast] at hlength
  omega

theorem rename_staged (hbase : EmptyBase v d₀ root) (h : Orderly v root d₀ d) (number : Nat)
    (user : UInt32) {name : Bytes} (hname : accepts name) :
    d.rename (v.pathOf (.staged number)) (v.pathOf (.file user name)) =
      if TooLong v number then .error .nameTooLong
      else
        match d.node? (Spot.under (.staged number) root) with
        | some (.file id) =>
          if (d.node? (Spot.under (.folder user) root)).isSome then
            .ok (move d root (.staged number) (.file user name) id)
          else .error .noEntry
        | _ => .error .noEntry := by
  have hlocate : d.locate (v.pathOf (.staged number)) = _ := h.trace_staged hbase number
  have hlocate' : d.locate (v.pathOf (.file user name)) = _ := h.trace_file hbase user hname
  rw [rename, hlocate]
  by_cases hlong : TooLong v number
  · rw [if_pos hlong, if_pos hlong]
  · rw [if_neg hlong, if_neg hlong]
    rcases h.staged_cases number with hnone | ⟨id, hsource, -⟩
    · rw [foundAt_of_none hnone, hnone]
    · rw [foundAt_of_some hsource, hsource]
      dsimp only
      rw [hlocate']
      by_cases hfolder : (d.node? (Spot.under (.folder user) root)).isSome
      -- both names may change, and the target does not lie below the source
      · have hmay := h.mayChange hbase (.staged number)
        have hmay' := h.mayChange hbase (.file user name)
        rw [if_pos hfolder, if_pos hfolder]
        simp only [place_foundAt, not_isPrefixOf_parent, hmay, hmay', Bool.and_true,
          Bool.false_eq_true, if_false, Bool.not_true]
        rcases h.file_cases user name with hnone | ⟨id', htarget, -⟩
        · rw [foundAt_of_none hnone]
          rfl
        · rw [foundAt_of_some htarget]
          rfl
      · rw [if_neg hfolder, if_neg hfolder]

theorem unlink_file (hbase : EmptyBase v d₀ root) (h : Orderly v root d₀ d) (user : UInt32)
    {name : Bytes} (hname : accepts name) :
    d.unlink (v.pathOf (.file user name)) =
      if (d.node? (Spot.under (.file user name) root)).isSome then
        .ok (take d root (.file user name))
      else .error .noEntry := by
  have hmay := h.mayChange hbase (.file user name)
  have hlocate : d.locate (v.pathOf (.file user name)) = _ := h.trace_file hbase user hname
  rw [unlink, hlocate]
  rcases h.file_cases user name with hnone | ⟨id, hnode, -⟩
  · rw [foundAt_of_none hnone, hnone]
    by_cases hfolder : (d.node? (Spot.under (.folder user) root)).isSome
    · rw [if_pos hfolder]
      rfl
    · rw [if_neg hfolder]
      rfl
  · obtain ⟨node, hfolder⟩ := h.folder user name _ hnode
    rw [foundAt_of_some hnode, hnode, hfolder]
    simp only [Option.isSome_some, if_true, hmay, Bool.not_true, Bool.false_eq_true, if_false]
    rfl

theorem unlink_staged (hbase : EmptyBase v d₀ root) (h : Orderly v root d₀ d) (number : Nat) :
    d.unlink (v.pathOf (.staged number)) =
      if TooLong v number then .error .nameTooLong
      else if (d.node? (Spot.under (.staged number) root)).isSome then
        .ok (take d root (.staged number))
      else .error .noEntry := by
  have hmay := h.mayChange hbase (.staged number)
  have hlocate : d.locate (v.pathOf (.staged number)) = _ := h.trace_staged hbase number
  rw [unlink, hlocate]
  by_cases hlong : TooLong v number
  · rw [if_pos hlong, if_pos hlong]
  · rw [if_neg hlong, if_neg hlong]
    rcases h.staged_cases number with hnone | ⟨id, hnode, -⟩
    · rw [foundAt_of_none hnone, hnone]
      rfl
    · rw [foundAt_of_some hnode, hnode]
      simp only [Option.isSome_some, if_true, hmay, Bool.not_true, Bool.false_eq_true, if_false]
      rfl

/-! ## 4. Reading -/

theorem openRead_file (hbase : EmptyBase v d₀ root) (h : Orderly v root d₀ d) (user : UInt32)
    {name : Bytes} (hname : accepts name) :
    d.openRead (v.pathOf (.file user name)) =
      match d.node? (Spot.under (.file user name) root) with
      | some node => .ok node
      | none => .error .noEntry := by
  rw [openRead, follow, h.trace_file hbase user hname]
  rcases h.file_cases user name with hnone | ⟨id, hnode, hid⟩
  · rw [foundAt_of_none hnone, hnone]
    by_cases hfolder : (d.node? (Spot.under (.folder user) root)).isSome
    · rw [if_pos hfolder]
      rfl
    · rw [if_neg hfolder]
      rfl
  · obtain ⟨node, hfolder⟩ := h.folder user name _ hnode
    rw [foundAt_of_some hnode, hnode, hfolder]
    show d.openFound (.node (Spot.under (.file user name) root) (.file id)) = _
    simp only [openFound, hid.mayUse .read (by decide), if_true]

theorem readDirectory_folder (hbase : EmptyBase v d₀ root) (h : Orderly v root d₀ d)
    (user : UInt32) :
    d.readDirectory (v.userDirectory user) =
      if (d.node? (Spot.under (.folder user) root)).isSome then
        .ok (d.entriesOf (Spot.under (.folder user) root))
      else .error .noEntry := by
  rw [userDirectory_eq, readDirectory, follow, h.trace_folder hbase]
  rcases h.folder_cases user with hnone | ⟨mode, hfolder, hmode⟩
  · rw [foundAt_of_none hnone, hnone]
    rfl
  · rw [foundAt_of_some hfolder, hfolder]
    simp only [hmode .read, if_true, Option.isSome_some]

/-- What a retrieval comes to. -/
theorem retrieve_eq (hbase : EmptyBase v d₀ root) (h : Orderly v root d₀ d) (user : UInt32)
    {name : Bytes} (hname : accepts name) :
    v.retrieve d user name =
      match d.node? (Spot.under (.file user name) root) with
      | some (.file id) =>
        if (d.contentOf id).size < UInt32.size then
          .ok { length := UInt32.ofNat (d.contentOf id).size, file := id }
        else .error (.tooLarge (d.contentOf id).size)
      | _ => .error .notFound := by
  rw [retrieve_of_accepts v d user hname, h.openRead_file hbase user hname]
  rcases h.file_cases user name with hnone | ⟨id, hnode, -⟩
  · rw [hnone]
    rfl
  · rw [hnode]

end Orderly

end Vault

end UserVault
