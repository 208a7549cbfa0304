import UserVault.Proofs.Vault.Endings
import UserVault.Proofs.Vault.Ground

/-!
# Calls in any tree

What the calls of a vault come to at the spots of a grounded tree, and how a store begins and ends
there: it has a file of its own open (`Begun`), which it takes away again if it is given up, as far
as that is allowed.
-/

namespace UserVault.Vault

open Disk

variable {v : Vault} {root : Place} {d d' : Disk}

/-- A store has begun: its file, still empty, stands at a spot of its own.  A new file can be taken
away again, but a file that was there already perhaps cannot. -/
structure Begun (v : Vault) (root : Place) (target : Path) (file : Handle) (staged : Option Path)
    (spot : Spot) (id : FileId) (d : Disk) : Prop where
  ground : Grounded v root d
  path : staged.getD target = v.pathOf spot
  valid : spot.Valid
  handle : file = { target := .file id }
  reach : reach v root d spot = .ok ()
  node : d.node? (spot.under root) = some (.file id)
  empty : d.contentOf id = .empty
  removable : (v.options.atomic = false → Removable root d) → d.mayChange (spot.under root)

/-- Whether a file may come to stand under a user's name. -/
def admits (v : Vault) (root : Place) (d : Disk) (user : UInt32) (name : Bytes) : Bool :=
  match reach v root d (.file user name), d.entryAt? (Spot.under (.file user name) root) with
  | .ok (), none | .ok (), some (.file _) => d.mayChange (Spot.under (.file user name) root)
  | _, _ => false

/-- Whether a file may come to stand under a user's name does not depend on a file aside. -/
theorem admits_congr (hbound : d'.bound = d.bound) {n : Nat}
    (hentry : ∀ q, q ≠ Spot.under (.staged n) root → d'.entryAt? q = d.entryAt? q)
    (user : UInt32) (name : Bytes) : admits v root d' user name = admits v root d user name := by
  have hdepth : (Spot.steps (.file user name)).length ≤ (Spot.steps (.staged n)).length :=
    Nat.le_refl _
  have hreach : reach v root d' (.file user name) = reach v root d (.file user name) :=
    reach_change hbound hdepth hentry
  have hplace : Spot.under (.file user name) root ≠ Spot.under (.staged n) root := fun heq =>
    nomatch Spot.under_injective heq
  have hfolder : (Spot.under (.file user name) root).dropLast ≠ Spot.under (.staged n) root := by
    rw [Spot.dropLast_file]
    exact fun heq => nomatch Spot.under_injective heq
  have hmay : d'.mayChange (Spot.under (.file user name) root) =
      d.mayChange (Spot.under (.file user name) root) :=
    mayChange_congr hbound fun mode => by
      rw [← entryAt?_eq_directory, ← entryAt?_eq_directory, hentry _ hfolder]
  rw [admits, admits, hreach, hentry _ hplace, hmay]

/-- Where a file may come to stand, there is a directory for it that may be changed. -/
theorem directory_of_admits {user : UInt32} {name : Bytes}
    (hadmits : admits v root d user name = true) :
    (∀ mode, d.node? (Spot.under (.file user name) root) ≠ some (.directory mode)) ∧
      (∃ mode, d.node? (Spot.under (.file user name) root).dropLast = some (.directory mode)) ∧
      d.mayChange (Spot.under (.file user name) root) := by
  unfold admits at hadmits
  split at hadmits
  next hreach hnone =>
    have hnone := entryAt?_eq_none.mp hnone
    exact ⟨fun mode => by simp [hnone], directory_of_reach hreach, hadmits⟩
  next hreach hfile =>
    obtain ⟨id, hfile, -⟩ := entryAt?_eq_file.mp hfile
    exact ⟨fun mode => by simp [hfile], directory_of_reach hreach, hadmits⟩
  next => cases hadmits

/-- The vault's own directory is there, so nothing is missing above the directory of a user. -/
theorem reach_folder_ne_noEntry {mode : Nat}
    (hbase : d.follow v.base = .ok (.node root (.directory mode))) (user : UInt32) :
    reach v root d (.folder user) ≠ .error .noEntry := by
  rw [reach, Spot.steps, approach_cons, entryAt?_eq_directory.mpr (node?_of_follow hbase)]
  dsimp only [Disk.approach]
  intro heq
  split at heq
  · cases heq
  · split at heq
    · cases heq
    · split at heq <;> cases heq

/-- Making the directory of a user, where no link stands in its place. -/
theorem makeDirectories_user {mode : Nat}
    (hbase : d.follow v.base = .ok (.node root (.directory mode))) (user : UInt32)
    (hlink : ∀ target, d.node? (Spot.under (.folder user) root) ≠ some (.link target)) :
    d.makeDirectories (v.userDirectory user) =
      match reach v root d (.folder user), d.entryAt? (Spot.under (.folder user) root) with
      | .error e, _ => (.error e, d)
      | .ok (), none =>
        if d.mayChange (Spot.under (.folder user) root) then
          (.ok (), d.addDirectory (Spot.under (.folder user) root))
        else (.error .accessDenied, d)
      | .ok (), some (.directory _) => (.ok (), d)
      | .ok (), some _ => (.error .exists, d) := by
  have habove (target : Bytes) :
      d.node? (Spot.under (.folder user) root).dropLast ≠ some (.link target) := by
    rw [Spot.dropLast_under, show (Spot.steps (.folder user)).dropLast = [] from rfl,
      List.append_nil, node?_of_follow hbase]
    intro heq
    cases heq
  have hvalid : (Spot.folder user).Valid := trivial
  have htrace (purpose : Purpose) : d.trace purpose (v.pathOf (.folder user)) = _ :=
    trace_spot hbase hvalid habove fun target hnode => absurd hnode (hlink target)
  have hlocate : d.locate (v.pathOf (.folder user)) = _ := htrace .name
  have hfollow : d.follow (v.pathOf (.folder user)) = _ := htrace .use
  have hne := steps_pathOf_ne_nil v (.folder user)
  rw [userDirectory_eq]
  cases hreach : reach v root d (.folder user) with
  | error e =>
    rw [hreach] at hlocate hfollow
    apply makeDirectories_of_error hne
    · rw [makeDirectory, hlocate]
      rfl
    · rintro rfl
      exact reach_folder_ne_noEntry hbase user hreach
    · rw [leadsToDirectory, hfollow]
      rfl
  | ok _ =>
    rw [hreach] at hlocate hfollow
    cases hnode : d.node? (Spot.under (.folder user) root) with
    | none =>
      rw [foundAt_of_none hnode] at hlocate hfollow
      rw [entryAt?_eq_none.mpr hnode]
      by_cases hmay : d.mayChange (Spot.under (.folder user) root)
      · rw [makeDirectories_of_vacant hne hlocate hmay, if_pos hmay]
      · rw [if_neg hmay]
        apply makeDirectories_of_error hne
        · rw [makeDirectory, hlocate]
          exact if_neg hmay
        · intro heq
          cases heq
        · rw [leadsToDirectory, hfollow]
          rfl
    | some node =>
      rw [foundAt_of_some hnode] at hlocate hfollow
      have hmake : d.makeDirectory (v.pathOf (.folder user)) = .error .exists := by
        rw [makeDirectory, hlocate]
        rfl
      rw [entryAt?, hnode, Disk.makeDirectories_eq hne (by simp [hmake]), hmake,
        leadsToDirectory, hfollow]
      -- whatever is no directory is in the way
      cases node with
      | directory mode => rfl
      | file id => rfl
      | link target => exact absurd hnode (hlink target)
      | device device => rfl

namespace Grounded

variable {user : UInt32} {name : Bytes} {spot : Spot}

/-- Making the directory of a user. -/
theorem makeDirectories_eq (h : Grounded v root d) (user : UInt32) :
    d.makeDirectories (v.userDirectory user) =
      match reach v root d (.folder user), d.entryAt? (Spot.under (.folder user) root) with
      | .error e, _ => (.error e, d)
      | .ok (), none =>
        if d.mayChange (Spot.under (.folder user) root) then
          (.ok (), d.addDirectory (Spot.under (.folder user) root))
        else (.error .accessDenied, d)
      | .ok (), some (.directory _) => (.ok (), d)
      | .ok (), some _ => (.error .exists, d) := by
  obtain ⟨mode, hbase⟩ := h.base
  exact makeDirectories_user hbase user fun target => h.no_link (Spot.steps_ne_nil _) target

theorem makeDirectories (h : Grounded v root d) (user : UInt32) :
    Grounded v root (d.makeDirectories (v.userDirectory user)).2 := by
  rw [h.makeDirectories_eq]
  split
  · exact h
  next hreach hentry =>
    obtain ⟨mode, hparent⟩ := directory_of_reach hreach
    split
    · exact h.addDirectory (isBelow_under _ root) (entryAt?_eq_none.mp hentry) hparent
    · exact h
  · exact h
  · exact h

theorem removable_makeDirectories (h : Grounded v root d) (hremovable : Removable root d)
    (user : UInt32) : Removable root (d.makeDirectories (v.userDirectory user)).2 := by
  rw [h.makeDirectories_eq]
  split
  · exact hremovable
  next hentry =>
    split
    · exact hremovable.addDirectory h (isBelow_under _ root) (entryAt?_eq_none.mp hentry)
    · exact hremovable
  · exact hremovable
  · exact hremovable

theorem createNew_spot (h : Grounded v root d) (spot : Spot) (hvalid : spot.Valid) :
    d.createNew (v.pathOf spot) =
      match reach v root d spot, d.node? (spot.under root) with
      | .error e, _ => .error e
      | .ok (), none => d.createAt (spot.under root)
      | .ok (), some _ => .error .exists := by
  have hlocate : d.locate (v.pathOf spot) = _ := h.trace spot hvalid .name
  rw [createNew, hlocate, foundAt]
  cases reach v root d spot with
  | error e => rfl
  | ok _ => cases d.node? (spot.under root) <;> rfl

theorem create_spot (h : Grounded v root d) (spot : Spot) (hvalid : spot.Valid) :
    d.create (v.pathOf spot) =
      match reach v root d spot, d.node? (spot.under root) with
      | .error e, _ => .error e
      | .ok (), none => d.createAt (spot.under root)
      | .ok (), some (.file id) =>
        if d.mayUse id .write then .ok ({ target := .file id }, d.overwrite id .empty)
        else .error .accessDenied
      | .ok (), some _ => .error .isDirectory := by
  rw [create, h.trace spot hvalid, foundAt]
  cases reach v root d spot with
  | error e => rfl
  | ok _ =>
    cases hnode : d.node? (spot.under root) with
    | none => rfl
    | some node =>
      rcases h.kinds _ _ (isBelow_under spot root) hnode with ⟨mode, rfl⟩ | ⟨id, rfl⟩ <;> rfl

theorem openRead_spot (h : Grounded v root d) (spot : Spot) (hvalid : spot.Valid) :
    d.openRead (v.pathOf spot) =
      match reach v root d spot, d.node? (spot.under root) with
      | .error e, _ => .error e
      | .ok (), none => .error .noEntry
      | .ok (), some node => d.openFound (.node (spot.under root) node) := by
  have hfollow : d.follow (v.pathOf spot) = _ := h.trace spot hvalid .use
  rw [openRead, hfollow, foundAt]
  cases reach v root d spot with
  | error e => rfl
  | ok _ => cases d.node? (spot.under root) <;> rfl

theorem readDirectory_spot (h : Grounded v root d) (spot : Spot) (hvalid : spot.Valid) :
    d.readDirectory (v.pathOf spot) =
      match reach v root d spot, d.node? (spot.under root) with
      | .error e, _ => .error e
      | .ok (), none => .error .noEntry
      | .ok (), some (.directory mode) =>
        if d.allows mode .read then .ok (d.entriesOf (spot.under root)) else .error .accessDenied
      | .ok (), some _ => .error .notDirectory := by
  have hfollow : d.follow (v.pathOf spot) = _ := h.trace spot hvalid .use
  rw [readDirectory, hfollow, foundAt]
  cases reach v root d spot with
  | error e => rfl
  | ok _ =>
    rcases d.node? (spot.under root) with _ | node
    · rfl
    · cases node <;> rfl

theorem unlink_spot (h : Grounded v root d) (spot : Spot) (hvalid : spot.Valid) :
    d.unlink (v.pathOf spot) =
      match reach v root d spot, d.node? (spot.under root) with
      | .error e, _ => .error e
      | .ok (), none => .error .noEntry
      | .ok (), some (.file _) =>
        if d.mayChange (spot.under root) then .ok (d.drop (spot.under root))
        else .error .accessDenied
      | .ok (), some _ =>
        if d.mayChange (spot.under root) then .error .isDirectory else .error .accessDenied := by
  have hlocate : d.locate (v.pathOf spot) = _ := h.trace spot hvalid .name
  rw [unlink, hlocate, foundAt]
  cases reach v root d spot with
  | error e => rfl
  | ok _ =>
    cases hnode : d.node? (spot.under root) with
    | none => rfl
    | some node =>
      rcases h.kinds _ _ (isBelow_under spot root) hnode with ⟨mode, rfl⟩ | ⟨id, rfl⟩ <;>
        cases hmay : d.mayChange (spot.under root) <;> simp [Except.map, hmay]

/-- A file at the end of a path is taken away, if that is allowed. -/
theorem withdraw_spot (h : Grounded v root d) (spot : Spot) (hvalid : spot.Valid)
    (hreach : reach v root d spot = .ok ()) {id : FileId}
    (hnode : d.node? (spot.under root) = some (.file id)) :
    Vault.withdraw d (v.pathOf spot) =
      if d.mayChange (spot.under root) then d.drop (spot.under root) else d := by
  rw [Vault.withdraw, h.unlink_spot spot hvalid, hreach, hnode]
  cases d.mayChange (spot.under root) <;> rfl

/-- What stands under a user's name stays, or is a file that is taken away. -/
theorem withdraw_cases (h : Grounded v root d) (user : UInt32) (hname : accepts name) :
    Vault.withdraw d (v.pathOf (.file user name)) = d ∨
      ∃ id, d.node? (Spot.under (.file user name) root) = some (.file id) ∧
        Vault.withdraw d (v.pathOf (.file user name)) =
          d.drop (Spot.under (.file user name) root) := by
  rw [Vault.withdraw, h.unlink_spot (.file user name) hname]
  split
  next hunlink =>
    split at hunlink
    · cases hunlink
    · cases hunlink
    next id _ hnode =>
      split at hunlink
      · cases hunlink
        exact .inr ⟨id, hnode, rfl⟩
      · cases hunlink
    · split at hunlink <;> cases hunlink
  next => exact .inl rfl

theorem withdraw_file (h : Grounded v root d) (user : UInt32) (hname : accepts name) :
    Grounded v root (Vault.withdraw d (v.pathOf (.file user name))) := by
  rcases h.withdraw_cases user hname with heq | ⟨id, hnode, heq⟩
  · rw [heq]
    exact h
  · rw [heq]
    exact h.drop (isBelow_under _ root) hnode

/-- A file can be moved to a user's name just if it may be taken away from its own place and may
come to stand there. -/
theorem rename_eq (h : Grounded v root d) (spot : Spot) (hvalid : spot.Valid)
    (hreach : reach v root d spot = .ok ()) {id : FileId}
    (hnode : d.node? (spot.under root) = some (.file id)) (user : UInt32) (hname : accepts name) :
    if d.mayChange (spot.under root) && admits v root d user name then
      d.rename (v.pathOf spot) (v.pathOf (.file user name)) =
        .ok (Vault.move d root spot (.file user name) id)
    else ∃ e, d.rename (v.pathOf spot) (v.pathOf (.file user name)) = .error e := by
  have hlocate : d.locate (v.pathOf spot) = _ := h.trace spot hvalid .name
  have hlocate' : d.locate (v.pathOf (.file user name)) = _ := h.trace (.file user name) hname .name
  rw [rename, hlocate, hlocate', hreach, Except.map, foundAt_of_some hnode, admits]
  dsimp only
  cases reach v root d (.file user name) with
  | error e =>
    rw [Bool.and_false]
    exact ⟨e, rfl⟩
  | ok _ =>
    simp only [Except.map, place_foundAt, Orderly.not_isPrefixOf_parent]
    cases d.mayChange (spot.under root) with
    | false => exact ⟨_, rfl⟩
    | true =>
      cases htarget : d.node? (Spot.under (.file user name) root) with
      | none =>
        rw [foundAt_of_none htarget, entryAt?_eq_none.mpr htarget]
        cases d.mayChange (Spot.under (.file user name) root) with
        | false => exact ⟨_, rfl⟩
        | true => rfl
      | some node =>
        rw [foundAt_of_some htarget]
        rcases h.kinds _ _ (isBelow_under _ root) htarget with ⟨mode, rfl⟩ | ⟨id', rfl⟩
        · rw [entryAt?_eq_directory.mpr htarget]
          cases d.mayChange (Spot.under (.file user name) root) with
          | false => exact ⟨_, rfl⟩
          | true => exact ⟨_, rfl⟩
        · rw [entryAt?_of_file htarget]
          cases d.mayChange (Spot.under (.file user name) root) with
          | false => exact ⟨_, rfl⟩
          | true => rfl

/-- A file that is made at a vacant spot is a beginning. -/
theorem begun_createAt (h : Grounded v root d) (spot : Spot) (hvalid : spot.Valid)
    (hreach : reach v root d spot = .ok ()) (hnone : d.node? (spot.under root) = none)
    {file : Handle} (hcreate : d.createAt (spot.under root) = .ok (file, d')) {target : Path}
    {staged : Option Path} (hpath : staged.getD target = v.pathOf spot) :
    Begun v root target file staged spot d.nextFile d' := by
  obtain ⟨mode, hparent⟩ := directory_of_reach hreach
  have hne := spot.under_ne_nil root
  unfold createAt at hcreate
  split at hcreate
  next hmay =>
    cases hcreate
    refine ⟨h.addFile (isBelow_under spot root) hnone hparent, hpath, hvalid, rfl, ?_, ?_, ?_, ?_⟩
    · rw [← hreach]
      refine reach_change rfl (Nat.le_refl _) fun q hq => ?_
      show (d.addFile _).2.entryAt? q = _
      rw [entryAt?_addFile hne h.unused, if_neg hq]
    · show (d.addFile _).2.node? _ = _
      rw [node?_addFile hne, if_pos rfl]
    · show (d.addFile (spot.under root)).2.contentOf _ = _
      rw [contentOf_addFile, if_pos rfl]
    · intro _
      show (d.addFile (spot.under root)).2.mayChange _
      rw [mayChange_addFile hne]
      exact hmay
  next => cases hcreate

/-- A file that is emptied where it is is a beginning. -/
theorem begun_overwrite (h : Grounded v root d) (hatomic : v.options.atomic = false) (spot : Spot)
    (hvalid : spot.Valid) (hreach : reach v root d spot = .ok ()) {id : FileId}
    (hnode : d.node? (spot.under root) = some (.file id)) (huse : d.mayUse id .write)
    {target : Path} {staged : Option Path} (hpath : staged.getD target = v.pathOf spot) :
    Begun v root target { target := .file id } staged spot id (d.overwrite id .empty) := by
  have hrecord := (h.known _ _ hnode).record
  refine ⟨h.overwrite id _, hpath, hvalid, rfl, ?_, ?_, ?_, ?_⟩
  · rw [← hreach]
    refine reach_change (bound_overwrite id _) (Nat.le_refl _) fun q hq => ?_
    rw [entryAt?_overwrite hrecord hnode fun q' => h.single _ q' id (isBelow_under spot root) hnode,
      if_neg hq]
  · rw [node?_overwrite, hnode]
  · rw [contentOf_overwrite hrecord, if_pos rfl]
  · intro hremovable
    refine hremovable hatomic _ id (isBelow_under spot root) ?_ ?_
    · rw [node?_overwrite, hnode]
    · rw [mayUse_overwrite id _ id (by decide)]
      exact huse

/-- Whatever a store opens is a file at a spot of its own: a new one aside, or the user's. -/
theorem begun_openStore (h : Grounded v root d) (hname : accepts name) {unread : Nat}
    {file : Handle} {staged : Option Path}
    (hopen : v.openStore d (v.pathOf (.file user name)) unread = (.ok (file, staged), d')) :
    ∃ spot id, Begun v root (v.pathOf (.file user name)) file staged spot id d' := by
  unfold openStore at hopen
  by_cases hatomic : v.options.atomic
  · rw [if_pos hatomic] at hopen
    dsimp only at hopen
    rw [stagedPath_eq, h.createNew_spot (.staged _) trivial] at hopen
    split at hopen
    · cases hopen
    next hcreate =>
      cases hopen
      split at hcreate
      · cases hcreate
      next hreach hnone =>
        exact ⟨_, _, h.begun_createAt (.staged _) trivial hreach hnone hcreate rfl⟩
      · cases hcreate
  · rw [if_neg hatomic, h.create_spot (.file user name) hname] at hopen
    split at hopen
    · cases hopen
    next hcreate =>
      cases hopen
      split at hcreate
      · cases hcreate
      next hreach hnone =>
        exact ⟨_, _, h.begun_createAt (.file user name) hname hreach hnone hcreate rfl⟩
      next id hreach hnode =>
        split at hcreate
        next huse =>
          cases hcreate
          exact ⟨_, _, h.begun_overwrite (Bool.eq_false_iff.mpr hatomic) (.file user name) hname
            hreach hnode huse rfl⟩
        next => cases hcreate
      · cases hcreate

theorem begun_beginStore (h : Grounded v root d) (hname : accepts name) {unread : Nat}
    {file : Handle} {staged : Option Path}
    (hbegin : v.beginStore d user (v.pathOf (.file user name)) unread = (.ok (file, staged), d')) :
    ∃ spot id, Begun v root (v.pathOf (.file user name)) file staged spot id d' := by
  have hmake := h.makeDirectories user
  unfold beginStore at hbegin
  split at hbegin
  · cases hbegin
  next hmade =>
    rw [hmade] at hmake
    exact begun_openStore hmake hname hbegin

theorem beginStore_error (h : Grounded v root d) {target : Path} {unread : Nat} {e : StoreError}
    (hbegin : v.beginStore d user target unread = (.error e, d')) : Grounded v root d' := by
  have hmake := h.makeDirectories user
  unfold beginStore at hbegin
  split at hbegin
  next hmade =>
    rw [hmade] at hmake
    cases hbegin
    exact hmake
  next hmade =>
    rw [hmade] at hmake
    rw [Upload.openStore_error hbegin]
    exact hmake

end Grounded

namespace Removable

variable {user : UInt32} {name : Bytes}

/-- A vault that writes in place keeps to what it can take away. -/
theorem openStore (h : Removable root d) (hground : Grounded v root d)
    (hatomic : v.options.atomic = false) (user : UInt32) (hname : accepts name) (unread : Nat) :
    Removable root (v.openStore d (v.pathOf (.file user name)) unread).2 := by
  rw [Vault.openStore, if_neg (Bool.eq_false_iff.mp hatomic),
    hground.create_spot (.file user name) hname]
  cases hreach : reach v root d (.file user name) with
  | error e => exact h
  | ok _ =>
    cases hnode : d.node? (Spot.under (.file user name) root) with
    | none =>
      obtain ⟨mode, hparent⟩ := directory_of_reach hreach
      dsimp only
      by_cases hmay : d.mayChange (Spot.under (.file user name) root)
      · rw [createAt, if_pos hmay]
        exact h.addFile hground (isBelow_under _ root) hnode hparent hmay
      · rw [createAt, if_neg hmay]
        exact h
    | some node =>
      cases node with
      | file id =>
        dsimp only
        by_cases huse : d.mayUse id .write
        · rw [if_pos huse]
          exact h.overwrite id .empty
        · rw [if_neg huse]
          exact h
      | _ => exact h

theorem beginStore (h : Removable root d) (hground : Grounded v root d)
    (hatomic : v.options.atomic = false) (hname : accepts name) {unread : Nat}
    {opened : Except StoreError (Handle × Option Path)}
    (hbegin : v.beginStore d user (v.pathOf (.file user name)) unread = (opened, d')) :
    Removable root d' := by
  have hmake := hground.makeDirectories user
  have hstill := hground.removable_makeDirectories h user
  unfold Vault.beginStore at hbegin
  split at hbegin
  next hmade =>
    rw [hmade] at hstill
    cases hbegin
    exact hstill
  next hmade =>
    rw [hmade] at hmake hstill
    have hopen := hstill.openStore hmake hatomic user hname unread
    rwa [hbegin] at hopen

/-- A payload that has been written in place is where it belongs. -/
theorem endStore (h : Removable root d) (hatomic : v.options.atomic = false) {d₀ : Disk}
    {target : Path} {unread : Nat} {file : Handle} {staged : Option Path}
    (hbegin : v.beginStore d₀ user target unread = (.ok (file, staged), d)) (id : FileId)
    (bytes : Bytes) : Removable root (Vault.endStore (d.fill id bytes) target staged).2 := by
  rw [staged_of_inPlace hatomic hbegin]
  exact h.fill id bytes

theorem withdraw_file (h : Removable root d) (hground : Grounded v root d) (user : UInt32)
    (hname : accepts name) : Removable root (Vault.withdraw d (v.pathOf (.file user name))) := by
  rcases hground.withdraw_cases user hname with heq | ⟨id, hnode, heq⟩
  · rw [heq]
    exact h
  · rw [heq]
    exact h.drop hground (isBelow_under _ root) hnode

end Removable

namespace Begun

variable {target : Path} {file : Handle} {staged : Option Path} {spot : Spot} {id : FileId}
  {user : UInt32} {name : Bytes}

theorem known (h : Begun v root target file staged spot id d) : Known d id :=
  h.ground.known _ _ h.node

theorem single (h : Begun v root target file staged spot id d) (q : Place)
    (hq : d.node? q = some (.file id)) : q = spot.under root :=
  h.ground.single _ q id (isBelow_under spot root) h.node hq

theorem entryAt?_fill (h : Begun v root target file staged spot id d) (bytes : Bytes) (q : Place) :
    (d.fill id bytes).entryAt? q =
      if q = spot.under root then some (.file bytes) else d.entryAt? q :=
  Disk.entryAt?_fill h.known.record h.node h.single h.empty bytes q

theorem reach_fill (h : Begun v root target file staged spot id d) (bytes : Bytes) :
    Vault.reach v root (d.fill id bytes) spot = .ok () := by
  rw [← h.reach]
  refine reach_change (bound_fill id bytes) (Nat.le_refl _) fun q hq => ?_
  rw [h.entryAt?_fill, if_neg hq]

theorem node_fill (h : Begun v root target file staged spot id d) (bytes : Bytes) :
    (d.fill id bytes).node? (spot.under root) = some (.file id) := by
  rw [node?_fill, h.node]

/-- What a store that is given up has written is taken away, if that is allowed. -/
theorem withdraw (h : Begun v root target file staged spot id d) (bytes : Bytes) :
    Vault.withdraw (d.fill id bytes) (staged.getD target) =
      if d.mayChange (spot.under root) then (d.fill id bytes).drop (spot.under root)
      else d.fill id bytes := by
  have hwithdraw := (h.ground.fill id bytes).withdraw_spot spot h.valid (h.reach_fill bytes)
    (h.node_fill bytes)
  rwa [h.path, ← mayChange_fill id bytes]

theorem entryAt?_withdraw (h : Begun v root target file staged spot id d) (bytes : Bytes)
    (q : Place) : (Vault.withdraw (d.fill id bytes) (staged.getD target)).entryAt? q =
      if q = spot.under root then
        if d.mayChange (spot.under root) then none else some (.file bytes)
      else d.entryAt? q := by
  rw [h.withdraw]
  by_cases hmay : d.mayChange (spot.under root)
  · rw [if_pos hmay, if_pos hmay, entryAt?_drop (spot.under_ne_nil root), h.entryAt?_fill]
    split
    · rfl
    · rfl
  · rw [if_neg hmay, if_neg hmay, h.entryAt?_fill]

/-- How much a store has written that is given up shows in no entry. -/
theorem sameShape_withdraw (h : Begun v root target file staged spot id d) (bytes bytes' : Bytes) :
    SameShape (Vault.withdraw (d.fill id bytes) (staged.getD target))
      (Vault.withdraw (d.fill id bytes') (staged.getD target)) := by
  intro q
  rw [shapeAt?, shapeAt?, h.entryAt?_withdraw, h.entryAt?_withdraw]
  by_cases hq : q = spot.under root
  · rw [if_pos hq, if_pos hq]
    split
    · rfl
    · rfl
  · rw [if_neg hq, if_neg hq]

/-- It shows in no file either once the file that was written to has lost its only name. -/
theorem sameTree_withdraw (h : Begun v root target file staged spot id d)
    (hremovable : v.options.atomic = false → Removable root d) (bytes bytes' : Bytes) :
    SameTree (Vault.withdraw (d.fill id bytes) (staged.getD target))
      (Vault.withdraw (d.fill id bytes') (staged.getD target)) := by
  intro q
  have hmay := h.removable hremovable
  rw [h.entryAt?_withdraw, h.entryAt?_withdraw, if_pos hmay, if_pos hmay]

theorem grounded_withdraw (h : Begun v root target file staged spot id d) (bytes : Bytes) :
    Grounded v root (Vault.withdraw (d.fill id bytes) (staged.getD target)) := by
  have hground := h.ground.fill id bytes
  rw [h.withdraw]
  split
  · exact hground.drop (isBelow_under spot root) (h.node_fill bytes)
  · exact hground

/-- A file aside that holds the payload is put in its place, or taken away. -/
theorem grounded_endStore (h : Begun v root (v.pathOf (.file user name)) file staged spot id d)
    (hname : accepts name) (bytes : Bytes) :
    Grounded v root (endStore (d.fill id bytes) (v.pathOf (.file user name)) staged).2 := by
  have hground := h.ground.fill id bytes
  cases hstaged : staged with
  | none => exact hground
  | some path =>
    have hpath : path = v.pathOf spot := by
      have hpath := h.path
      rwa [hstaged] at hpath
    have hwithdraw := h.grounded_withdraw bytes
    rw [hstaged] at hwithdraw
    have hrename :=
      hground.rename_eq spot h.valid (h.reach_fill bytes) (h.node_fill bytes) user hname
    rw [← hpath] at hrename
    split at hrename
    next hadmits =>
      rw [Bool.and_eq_true] at hadmits
      obtain ⟨hold, ⟨mode, hparent⟩, -⟩ := directory_of_admits hadmits.2
      rw [endStore, hrename]
      exact hground.move (h.node_fill bytes) hold hparent
    next =>
      obtain ⟨e, hrename⟩ := hrename
      rw [endStore, hrename]
      exact hwithdraw

end Begun

end UserVault.Vault
