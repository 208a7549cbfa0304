import Mathlib.Data.List.Nodup
import UserVault.Vault.Retrieval
import UserVault.Proofs.Vault.Calls
import UserVault.Proofs.Vault.Endings

/-!
# Files that are not there

A retrieval of what is no file and a removal of what is not there are no failures of the system, as
long as nothing hinders the search: a file or a device where the path goes on, links without end,
a name or path that is too long, or a directory that may not be searched.  These are reported as
failures, though there is no more of a file behind them than in an empty directory.
-/

namespace UserVault.Vault

open Disk

variable {v : Vault} {d : Disk} {s : State} {user : UInt32} {name : Bytes} {e : Errno}

/-! ## 1. From the user's directory to the file -/

/-- The search for a user's file goes by where the user's directory is found. -/
theorem onward_file (purpose : Purpose) (d : Disk) (user : UInt32) (hname : accepts name)
    (hsize : (v.pathOf (.file user name)).size ≤ maxPath) :
    Onward d purpose maxLinks name (d.follow (v.userDirectory user))
      (d.trace purpose (v.pathOf (.file user name))) := by
  have hpath : v.pathOf (.file user name) =
      { v.pathOf (.folder user) with steps := (v.pathOf (.folder user)).steps ++ [name] } := by
    simp [pathOf, Spot.steps]
  rw [hpath] at hsize ⊢
  rw [userDirectory_eq]
  exact onward_trace purpose d _ (plain_of_accepts hname).ne_nil hsize

/-! ## 2. What a search comes to -/

theorem openRead_of_error {path : Path} (h : d.follow path = .error e) :
    d.openRead path = .error e := by
  rw [openRead, h]
  rfl

theorem openRead_of_vacant {path : Path} {q : Place} (h : d.follow path = .ok (.vacant q)) :
    d.openRead path = .error .noEntry := by
  rw [openRead, h]
  rfl

/-- A search that fails is a failure of the retrieval, unless nothing is there. -/
theorem retrieve_of_error (hname : accepts name)
    (h : d.openRead (v.pathOf (.file user name)) = .error e) :
    v.retrieve d user name = .error (.ofLookup e) := by
  rw [retrieve_of_accepts v d user hname, h]

/-- A removal that finds no name to take away changes nothing. -/
theorem remove_of_error (hname : accepts name)
    (h : s.disk.unlink (v.pathOf (.file user name)) = .error e) :
    (v.remove s user name).1 = Removal.outcome (.error e) ∧
      (v.remove s user name).2.disk = s.disk := by
  obtain ⟨hresult, hdisk⟩ := remove_of_accepts v s user hname
  rw [h] at hresult
  rw [withdraw, h] at hdisk
  exact ⟨hresult, hdisk⟩

theorem unlink_of_error {path : Path} (h : d.locate path = .error e) :
    d.unlink path = .error e := by
  rw [unlink, h]

theorem unlink_of_vacant {path : Path} {q : Place} (h : d.locate path = .ok (.vacant q)) :
    d.unlink path = .error .noEntry := by
  rw [unlink, h]

theorem ofLookup_of_ne (h : e ≠ .noEntry) : VaultError.ofLookup e = .system { errno := e } := by
  cases e with
  | noEntry => exact absurd rfl h
  | _ => rfl

theorem outcome_of_ne (h : e ≠ .noEntry) :
    Removal.outcome (.error e) = .error (.system { errno := e }) := by
  cases e with
  | noEntry => exact absurd rfl h
  | _ => rfl

/-! ## 3. Where nothing is found -/

/-- What does not lead to a file is not found, unless something hinders the search. -/
theorem retrieve_of_no_file (hname : accepts name)
    (h : ∀ place id, d.follow (v.pathOf (.file user name)) ≠ .ok (.node place (.file id))) :
    v.retrieve d user name = .error .notFound ∨
      ∃ e ∈ hindrances, d.openRead (v.pathOf (.file user name)) = .error e ∧
        v.retrieve d user name = .error (.system { errno := e }) := by
  cases hfollow : d.follow (v.pathOf (.file user name)) with
  | error e =>
    have hopen := openRead_of_error hfollow
    rcases hindrance_of_trace (by decide) hfollow with rfl | hmem
    · exact .inl (retrieve_of_error hname hopen)
    · refine .inr ⟨e, hmem, hopen, ?_⟩
      rw [retrieve_of_error hname hopen, ofLookup_of_ne]
      rintro rfl
      exact absurd hmem (by decide)
  | ok found =>
    cases found with
    | vacant q => exact .inl (retrieve_of_error hname (openRead_of_vacant hfollow))
    | node place node =>
      -- whatever it is, it is opened or it may not be read
      have hopen : d.openRead (v.pathOf (.file user name)) = d.openFound (.node place node) := by
        rw [openRead, hfollow]
        rfl
      rw [retrieve_of_accepts v d user hname, hopen]
      cases node with
      | file id => exact absurd hfollow (h place id)
      | link | device => exact .inl rfl
      | directory mode =>
        by_cases hread : d.allows mode .read
        · left
          simp [openFound, hread]
        · refine .inr ⟨.accessDenied, by decide, ?_, ?_⟩
          · simp [openFound, hread]
          · simp [openFound, hread, VaultError.ofLookup]

/-- Where there is no name to take away, a removal is done, unless something hinders the search.
Nothing changes either way. -/
theorem remove_of_no_entry (hname : accepts name)
    (h : ∀ place node, s.disk.locate (v.pathOf (.file user name)) ≠ .ok (.node place node)) :
    (v.remove s user name).2.disk = s.disk ∧
      ((v.remove s user name).1 = .ok .absent ∨
        ∃ e ∈ hindrances, s.disk.locate (v.pathOf (.file user name)) = .error e ∧
          (v.remove s user name).1 = .error (.system { errno := e })) := by
  cases hlocate : s.disk.locate (v.pathOf (.file user name)) with
  | error e =>
    obtain ⟨hresult, hdisk⟩ := remove_of_error hname (unlink_of_error hlocate)
    refine ⟨hdisk, ?_⟩
    rcases hindrance_of_trace (by decide) hlocate with rfl | hmem
    · exact .inl hresult
    · refine .inr ⟨e, hmem, rfl, ?_⟩
      rw [hresult, outcome_of_ne]
      rintro rfl
      exact absurd hmem (by decide)
  | ok found =>
    cases found with
    | vacant q =>
      obtain ⟨hresult, hdisk⟩ := remove_of_error hname (unlink_of_vacant hlocate)
      exact ⟨hdisk, .inl hresult⟩
    | node place node => exact absurd hlocate (h place node)

/-- What is told of a file when the search for it comes to an end in this way. -/
structure Told (v : Vault) (s : State) (user : UInt32) (name : Bytes) (e : Errno) : Prop where
  retrieve : v.retrieve s.disk user name = .error (.ofLookup e)
  remove : (v.remove s user name).1 = Removal.outcome (.error e)
  disk : (v.remove s user name).2.disk = s.disk

theorem told_of_error (hname : accepts name)
    (h : ∀ purpose, s.disk.trace purpose (v.pathOf (.file user name)) = .error e) :
    Told v s user name e := by
  obtain ⟨hresult, hdisk⟩ := remove_of_error hname (unlink_of_error (h .name))
  exact ⟨retrieve_of_error hname (openRead_of_error (h .use)), hresult, hdisk⟩

theorem told_of_vacant {q : Place} (hname : accepts name)
    (h : ∀ purpose, s.disk.trace purpose (v.pathOf (.file user name)) = .ok (.vacant q)) :
    Told v s user name .noEntry := by
  obtain ⟨hresult, hdisk⟩ := remove_of_error hname (unlink_of_vacant (h .name))
  exact ⟨retrieve_of_error hname (openRead_of_vacant (h .use)), hresult, hdisk⟩

/-- Where the user's directory leads decides what is told of a file that is not there. -/
theorem told_by_folder (hname : accepts name)
    (hsize : (v.pathOf (.file user name)).size ≤ maxPath) :
    match s.disk.follow (v.userDirectory user) with
    | .error e => Told v s user name e
    | .ok (.vacant _) => Told v s user name .noEntry
    | .ok (.node place (.directory mode)) =>
      s.disk.allows mode .search → s.disk.node? (place ++ [name]) = none →
        Told v s user name .noEntry
    | .ok (.node _ _) => Told v s user name .notDirectory := by
  have honward (purpose : Purpose) := onward_file purpose s.disk user hname hsize
  cases hfolder : s.disk.follow (v.userDirectory user) with
  | error e =>
    rw [hfolder] at honward
    exact told_of_error hname fun purpose => (honward purpose).of_error
  | ok found =>
    cases found with
    | vacant q =>
      rw [hfolder] at honward
      exact told_of_error hname fun purpose => (honward purpose).of_vacant
    | node place node =>
      have hplace := node?_of_follow hfolder
      rw [hfolder] at honward
      cases node with
      | directory mode =>
        intro hsearch hnone
        refine told_of_vacant hname (q := place ++ [name]) fun purpose => ?_
        obtain ⟨follow, hlast⟩ := (honward purpose).of_node
        have hlink (target : Bytes) : s.disk.node? (place ++ [name]) ≠ some (.link target) := by
          rw [hnone]
          exact fun heq => nomatch heq
        have hlength : ¬maxName < name.length := Nat.not_lt.mpr (length_le_of_accepts hname)
        rw [hlast, walkWith_last purpose follow hplace hsearch (plain_of_accepts hname) hlink,
          if_neg hlength, foundAt_of_none hnone]
      | file | link | device =>
        refine told_of_error hname fun purpose => ?_
        obtain ⟨follow, hlast⟩ := (honward purpose).of_node
        rw [hlast, walkWith, hplace]

/-- A file that may be read is opened with its exact length, or refused for it. -/
theorem retrieve_of_file (hname : accepts name) {place : Place} {id : FileId}
    (h : d.follow (v.pathOf (.file user name)) = .ok (.node place (.file id)))
    (hread : d.mayUse id .read) :
    v.retrieve d user name =
      if (d.contentOf id).bytes.length < UInt32.size then
        .ok { length := UInt32.ofNat (d.contentOf id).bytes.length, file := id }
      else .error (.tooLarge (d.contentOf id).bytes.length) := by
  have hopen : d.openRead (v.pathOf (.file user name)) = .ok (.file id) := by
    rw [openRead, h]
    show d.openFound (.node place (.file id)) = .ok (.file id)
    simp [openFound, hread]
  rw [retrieve_of_accepts v d user hname, hopen, Content.length_bytes]

/-! ## 4. What is told of a file, there or not -/

/-- In any tree, a name that leads to a regular file opens it with its exact length.  One that does
not is not found, and one that is not there is removed without a change, unless something hinders
the search; whether something does is seen from where the user's directory leads. -/
theorem absence_told (v : Vault) (s : State) (user : UInt32) (hname : accepts name) :
    (∀ place id, s.disk.follow (v.pathOf (.file user name)) = .ok (.node place (.file id)) →
      s.disk.mayUse id .read → v.retrieve s.disk user name =
        if (s.disk.contentOf id).bytes.length < UInt32.size then
          .ok { length := UInt32.ofNat (s.disk.contentOf id).bytes.length, file := id }
        else .error (.tooLarge (s.disk.contentOf id).bytes.length)) ∧
    ((∀ place id, s.disk.follow (v.pathOf (.file user name)) ≠ .ok (.node place (.file id))) →
      v.retrieve s.disk user name = .error .notFound ∨
        ∃ e ∈ hindrances, s.disk.openRead (v.pathOf (.file user name)) = .error e ∧
          v.retrieve s.disk user name = .error (.system { errno := e })) ∧
    ((∀ place node, s.disk.locate (v.pathOf (.file user name)) ≠ .ok (.node place node)) →
      (v.remove s user name).2.disk = s.disk ∧
        ((v.remove s user name).1 = .ok .absent ∨
          ∃ e ∈ hindrances, s.disk.locate (v.pathOf (.file user name)) = .error e ∧
            (v.remove s user name).1 = .error (.system { errno := e }))) ∧
    ((v.pathOf (.file user name)).size ≤ maxPath →
      match s.disk.follow (v.userDirectory user) with
      | .error e => Told v s user name e
      | .ok (.vacant _) => Told v s user name .noEntry
      | .ok (.node place (.directory mode)) =>
        s.disk.allows mode .search → s.disk.node? (place ++ [name]) = none →
          Told v s user name .noEntry
      | .ok (.node _ _) => Told v s user name .notDirectory) :=
  ⟨fun _ _ h hread => retrieve_of_file hname h hread, retrieve_of_no_file hname,
    remove_of_no_entry hname, told_by_folder hname⟩

/-- A user has one file, and a link that leads to itself. -/
theorem absence_told_loop :
    let v : Vault := { base := { absolute := true, steps := [] } }
    let disk : Disk :=
      { nodes := ⟨[(Spot.under (.folder 9) [], .directory 0o755),
          (Spot.under (.file 9 [0x61]) [], .file 0),
          (Spot.under (.file 9 [0x66]) [], .link [0x66])]⟩
        files := ⟨[(0, { content := .ofBytes [0x78], mode := 0o644 })]⟩
        nextFile := 1 }
    accepts [0x61] ∧ v.retrieve disk 9 [0x61] = .ok { length := 1, file := 0 } ∧
      accepts [0x62] ∧ Told v { disk } 9 [0x62] .noEntry ∧
      accepts [0x66] ∧ (v.retrieve disk 9 [0x66] = .error .notFound ∨
        ∃ e ∈ hindrances, disk.openRead (v.pathOf (.file 9 [0x66])) = .error e ∧
          v.retrieve disk 9 [0x66] = .error (.system { errno := e })) := by
  intro v disk
  have hname (b : UInt8) (hb : b ∈ [0x61, 0x62, 0x66]) : accepts [b] := by
    revert b
    decide +kernel
  have hfile := hname 0x61 (by decide)
  have hnone := hname 0x62 (by decide)
  have hloop := hname 0x66 (by decide)
  have hfollow : disk.follow (v.pathOf (.file 9 [0x66])) = .error .loop := by decide +kernel
  have hopen : disk.follow (v.pathOf (.file 9 [0x61])) =
      .ok (.node (Spot.under (.file 9 [0x61]) []) (.file 0)) := by decide +kernel
  have hthere : disk.follow (v.userDirectory 9) =
      .ok (.node (Spot.under (.folder 9) []) (.directory 0o755)) := by decide +kernel
  obtain ⟨hopened, -⟩ := absence_told v { disk } 9 hfile
  obtain ⟨-, -, -, hfolder⟩ := absence_told v { disk } 9 hnone
  rw [hthere] at hfolder
  obtain ⟨-, hlost, -⟩ := absence_told v { disk } 9 hloop
  refine ⟨hfile, hopened _ 0 hopen (by decide +kernel),
    hnone, ?_, hloop, hlost fun place id => ?_⟩
  · exact hfolder (by decide +kernel) rfl (by decide +kernel)
  · rw [hfollow]
    exact fun heq => nomatch heq

/-- A file stands where the user's directory would be: there is nothing under any name of the user,
yet neither call says so. -/
theorem absence_hidden :
    let v : Vault := { base := { absolute := true, steps := [] } }
    let disk : Disk :=
      { nodes := ⟨[(Spot.under (.folder 9) [], .file 0)]⟩
        files := ⟨[(0, { content := .ofBytes [0x78], mode := 0o644 })]⟩
        nextFile := 1 }
    accepts [0x66] ∧
      (∀ place node, disk.follow (v.pathOf (.file 9 [0x66])) ≠ .ok (.node place node)) ∧
      (∀ place node, disk.locate (v.pathOf (.file 9 [0x66])) ≠ .ok (.node place node)) ∧
      v.retrieve disk 9 [0x66] = .error (.system { errno := .notDirectory }) ∧
      (v.remove { disk } 9 [0x66]).1 = .error (.system { errno := .notDirectory }) := by
  intro v disk
  have hname : accepts [0x66] := by decide +kernel
  have hfollow : disk.follow (v.pathOf (.file 9 [0x66])) = .error .notDirectory := by
    decide +kernel
  have hlocate : disk.locate (v.pathOf (.file 9 [0x66])) = .error .notDirectory := by
    decide +kernel
  have htold : Told v { disk } 9 [0x66] .notDirectory := by
    refine told_of_error hname fun purpose => ?_
    cases purpose <;> decide +kernel
  refine ⟨hname, fun place node => ?_, fun place node => ?_, htold.retrieve, htold.remove⟩
  · rw [hfollow]
    exact fun heq => nomatch heq
  · rw [hlocate]
    exact fun heq => nomatch heq

end UserVault.Vault
