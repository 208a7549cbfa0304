import UserVault.Proofs.Vault.Aside

/-!
# What a store in place touches

A store that writes to the user's file itself writes to what the name leads to, through links if
there are any (`Touched`).  What may be anywhere else in the tree is as it was from the moment that
the file is opened (`WritesThrough`) until the name is taken away (`Altered`).
-/

namespace UserVault.Vault

open Disk Link

variable {v : Vault} {root : Place} {user : UInt32} {name payload : Bytes} {d d' : Disk}
  {u : Upload}

/-! ## 1. The tree before the store -/

/-- What a store in place may touch: the name, the place that it leads to if nothing stands there,
and the file that it leads to, under whatever names. -/
inductive Touched (v : Vault) (root : Place) (user : UInt32) (name : Bytes) (d : Disk) :
    Place → Prop
  | target : Touched v root user name d (Spot.under (.file user name) root)
  | vacant {q : Place} (h : d.follow (v.pathOf (.file user name)) = .ok (.vacant q)) :
    Touched v root user name d q
  | file {place q : Place} {id : FileId}
    (h : d.follow (v.pathOf (.file user name)) = .ok (.node place (.file id)))
    (hq : d.node? q = some (.file id)) : Touched v root user name d q

/-- A tree with whatever stands at the place of the vault, and no link where the directory of the
user does. -/
structure Sited (v : Vault) (root : Place) (user : UInt32) (d : Disk) : Prop where
  base : ∃ node, d.follow v.base = .ok (.node root node)
  folder : ∀ target, d.node? (Spot.under (.folder user) root) ≠ some (.link target)
  known : ∀ q id, d.node? q = some (.file id) → Known d id
  inside : d.node? (Spot.under (.folder user) root) = none →
    ∀ name, d.node? (Spot.under (.file user name) root) = none

/-- Whether an entry of the table, if it is a file, is one that is on the disk. -/
def isKept (d : Disk) (entry : Place × Node) : Bool :=
  match entry.2 with
  | .file id => id < d.nextFile && (d.record? id).isSome
  | _ => true

namespace Sited

/-- Where the user has a directory, the tree can be checked entry by entry. -/
theorem of_entries {node : Node} {mode : Nat} (hbase : d.follow v.base = .ok (.node root node))
    (hfolder : d.node? (Spot.under (.folder user) root) = some (.directory mode))
    (hentries : ∀ entry ∈ d.nodes.entries, isKept d entry) : Sited v root user d := by
  refine ⟨⟨_, hbase⟩, by simp [hfolder], fun q id hnode => ?_, by simp [hfolder]⟩
  have hne : q ≠ [] := by
    rintro rfl
    cases hnode
  rw [node?_of_ne hne] at hnode
  have hkept := hentries _ (Table.mem_of_get? hnode)
  simp only [isKept, Bool.and_eq_true, decide_eq_true_eq] at hkept
  exact ⟨hkept.1, Option.isSome_iff_ne_none.mp hkept.2⟩

variable (h : Sited v root user d)
include h

/-- What is no directory stays what it is. -/
theorem footed_or : Footed v root user d ∨
    ∃ e, d.makeDirectories (v.userDirectory user) = (.error e, d) := by
  obtain ⟨node, hbase⟩ := h.base
  by_cases hnode : ∃ mode, node = .directory mode
  · obtain ⟨mode, rfl⟩ := hnode
    exact .inl ⟨⟨mode, hbase⟩, h.folder, fun q id hq => (h.known q id hq).lt⟩
  · obtain ⟨e, hne, htrace⟩ := trace_beyond (plain_numeral user.toNat).ne_nil hbase
      fun mode heq => hnode ⟨mode, heq⟩
    have htrace (purpose : Purpose) : d.trace purpose (v.pathOf (.folder user)) = .error e :=
      htrace purpose
    refine .inr ⟨e, ?_⟩
    rw [userDirectory_eq]
    apply makeDirectories_of_error (steps_pathOf_ne_nil v (.folder user)) _ hne
    · rw [leadsToDirectory, follow, htrace]
    · rw [makeDirectory, locate, htrace]

theorem makeDirectories_error {e : Errno}
    (hmake : d.makeDirectories (v.userDirectory user) = (.error e, d')) : d' = d := by
  rcases h.footed_or with hfooted | ⟨e', hmake'⟩
  · exact hfooted.makeDirectories_error hmake
  · rw [hmake'] at hmake
    cases hmake
    rfl

theorem makeDirectories_ok (hmake : d.makeDirectories (v.userDirectory user) = (.ok (), d')) :
    Footed v root user d ∧ HasFolder root user d ∧ d' = withFolder d root user := by
  rcases h.footed_or with hfooted | ⟨e, hmake'⟩
  · obtain ⟨rfl, hfolder⟩ := hfooted.makeDirectories_ok hmake
    exact ⟨hfooted, hfolder, rfl⟩
  · rw [hmake'] at hmake
    cases hmake

theorem known_withFolder (q : Place) (id : FileId)
    (hnode : (withFolder d root user).node? q = some (.file id)) :
    Known (withFolder d root user) id := by
  have hmade := placesKept_withFolder d root user
  rcases node?_withFolder d root user q with heq | ⟨-, -, heq⟩
  · rw [heq] at hnode
    obtain ⟨hlt, hrecord⟩ := h.known q id hnode
    refine ⟨Nat.lt_of_lt_of_le hlt hmade.nextFile, ?_⟩
    rwa [hmade.record id hlt]
  · rw [heq] at hnode
    cases hnode

/-- A directory that was missing is empty once it is made. -/
theorem withFolder_cases (name : Bytes) : withFolder d root user = d ∨
    (withFolder d root user).node? (Spot.under (.file user name) root) = none := by
  cases hfolder : d.node? (Spot.under (.folder user) root) with
  | some node =>
    left
    rw [withFolder, hfolder]
    rfl
  | none =>
    right
    rcases node?_withFolder d root user (Spot.under (.file user name) root) with heq | ⟨heq, -⟩
    · rw [heq, h.inside hfolder]
    · cases Spot.under_injective heq

variable (hfooted : Footed v root user d) (hname : accepts name)
include hfooted hname

/-- That the user has a directory makes no other places matter. -/
theorem touched {q : Place} (hq : Touched v root user name (withFolder d root user) q) :
    Touched v root user name d q := by
  rcases h.withFolder_cases name with heq | hnone
  · rwa [heq] at hq
  · -- where nothing stands under the name, it leads nowhere else
    have hfound {found : Found}
        (hfollow : (withFolder d root user).follow (v.pathOf (.file user name)) = .ok found) :
        found = .vacant (Spot.under (.file user name) root) := by
      obtain ⟨-, hfound⟩ := hfooted.withFolder.found_file hname (by simp [hnone]) hfollow
      rw [hfound, foundAt_of_none hnone]
    cases hq with
    | target => exact .target
    | vacant hfollow =>
      cases hfound hfollow
      exact .target
    | file hfollow _ => cases hfound hfollow

/-- What may be taken away before the store may be taken away once a file has been opened. -/
theorem mayChange {opened : Handle × Disk}
    (hcreate : (withFolder d root user).create (v.pathOf (.file user name)) = .ok opened)
    (hmay : d.mayChange (Spot.under (.file user name) root)) :
    (withFolder d root user).mayChange (Spot.under (.file user name) root) := by
  rcases h.withFolder_cases name with heq | hnone
  · rwa [heq]
  · -- nothing stood there, so the file was made
    unfold create at hcreate
    cases hmake : (withFolder d root user).trace .make (v.pathOf (.file user name)) with
    | error e =>
      rw [hmake] at hcreate
      cases hcreate
    | ok found =>
      obtain ⟨-, hfound⟩ := hfooted.withFolder.found_file hname (by simp [hnone]) hmake
      rw [hmake, hfound, foundAt_of_none hnone] at hcreate
      exact (createAt_eq_ok hcreate).1

end Sited

/-! ## 2. The tree once a file is open -/

/-- From `d` on a store has touched no more than it may, and the way to the name is free. -/
structure Altered (v : Vault) (root : Place) (user : UInt32) (name : Bytes) (d d' : Disk) :
    Prop where
  reach : reach v root d (.file user name) = .ok ()
  free : ∀ mode, d'.node? (Spot.under (.file user name) root) ≠ some (.directory mode)
  bound : d'.bound = d.bound
  home : d'.home = d.home
  node : ∀ q node, d.node? q = some node → d'.node? q = some node
  same : ∀ q, ¬Touched v root user name d q → SameAt d d' q

namespace Altered

/-- What is found to write to is not a directory, so what stands under the name is not either. -/
theorem of_make (hfooted : Footed v root user d) (hname : accepts name) {found : Found}
    (hmake : d.trace .make (v.pathOf (.file user name)) = .ok found)
    (hfound : ∀ q mode, found ≠ .node q (.directory mode)) : Altered v root user name d d := by
  obtain ⟨found', hlocate⟩ := locate_of_make hmake
  obtain ⟨hreach, -⟩ := hfooted.found_file hname (fun _ _ => rfl) hlocate
  refine ⟨hreach, fun mode hnode => ?_, rfl, rfl, fun _ _ => id, fun q _ => SameAt.refl d q⟩
  obtain ⟨-, heq⟩ := hfooted.found_file hname (by simp [hnode]) hmake
  rw [foundAt_of_some hnode] at heq
  exact hfound _ mode heq

variable (h : Altered v root user name d d')
include h

theorem addFile {place : Place} (hplace : Touched v root user name d place)
    (hnone : d'.node? place = none)
    (hknown : ∀ q id, d.node? q = some (.file id) → id < d'.nextFile) :
    Altered v root user name d (d'.addFile place).2 := by
  have hne : place ≠ [] := by
    rintro rfl
    cases hnone
  refine ⟨h.reach, fun mode => ?_, h.bound, h.home, fun q node hnode => ?_, fun q hq => ?_⟩
  · rw [node?_addFile hne]
    split
    · simp
    · exact h.free mode
  · have hnode' := h.node q node hnode
    rw [node?_addFile hne, if_neg, hnode']
    rintro rfl
    rw [hnone] at hnode'
    cases hnode'
  · refine (h.same q hq).trans ⟨?_, fun id hid => ?_⟩
    · rw [node?_addFile hne, if_neg]
      rintro rfl
      exact hq hplace
    · rw [(h.same q hq).node] at hid
      rw [record?_addFile, if_neg (Nat.ne_of_lt (hknown q id hid))]

theorem overwrite {id : FileId}
    (hid : ∀ q, ¬Touched v root user name d q → d'.node? q ≠ some (.file id))
    (content : Content) : Altered v root user name d (d'.overwrite id content) := by
  refine ⟨h.reach, fun mode => ?_, ?_, ?_, fun q node hnode => ?_, fun q hq => ?_⟩
  · rw [node?_overwrite]
    exact h.free mode
  · rw [bound_overwrite, h.bound]
  · rw [home_overwrite, h.home]
  · rw [node?_overwrite, h.node q node hnode]
  · refine (h.same q hq).trans ⟨node?_overwrite .., fun id' hid' => ?_⟩
    rw [record?_overwrite, if_neg]
    rintro rfl
    exact hid q hq hid'

theorem folder : ∃ mode, d.node? (Spot.under (.folder user) root) = some (.directory mode) := by
  obtain ⟨mode, hparent⟩ := directory_of_reach h.reach
  rw [Spot.dropLast_file] at hparent
  exact ⟨mode, hparent⟩

theorem locate (hfooted : Footed v root user d) (hname : accepts name) :
    d'.locate (v.pathOf (.file user name)) =
      .ok (d'.foundAt (Spot.under (.file user name) root)) := by
  obtain ⟨mode, hbase⟩ := hfooted.base
  have hbase' : d'.follow v.base = .ok (.node root (.directory mode)) :=
    follow_mono h.bound h.home (fun q node _ => h.node q node) hbase
  obtain ⟨mode', hfolder⟩ := h.folder
  have habove (target : Bytes) :
      d'.node? (Spot.under (.file user name) root).dropLast ≠ some (.link target) := by
    rw [Spot.dropLast_file, h.node _ _ hfolder]
    simp
  have hvalid : (Spot.file user name).Valid := hname
  have hreach : Vault.reach v root d' (.file user name) = .ok () :=
    reach_mono h.bound (fun q mode => h.node q (.directory mode)) h.reach
  rw [Disk.locate, trace_spot hbase' hvalid habove fun _ _ => rfl, hreach]
  rfl

theorem mayChange : d'.mayChange (Spot.under (.file user name) root) =
    d.mayChange (Spot.under (.file user name) root) := by
  obtain ⟨mode, hfolder⟩ := h.folder
  apply mayChange_congr h.bound
  intro mode'
  rw [Spot.dropLast_file, hfolder, h.node _ _ hfolder]

/-- The name is taken away, where there is one and the process may do so. -/
theorem withdraw_cases (hfooted : Footed v root user d) (hname : accepts name) :
    Vault.withdraw d' (v.pathOf (.file user name)) =
        d'.drop (Spot.under (.file user name) root) ∨
      Vault.withdraw d' (v.pathOf (.file user name)) = d' ∧
        (d.mayChange (Spot.under (.file user name) root) →
          d'.node? (Spot.under (.file user name) root) = none) := by
  rw [Vault.withdraw, unlink, h.locate hfooted hname]
  cases hnode : d'.node? (Spot.under (.file user name) root) with
  | none =>
    right
    rw [foundAt_of_none hnode]
    exact ⟨rfl, fun _ => rfl⟩
  | some node =>
    rw [foundAt_of_some hnode, ← h.mayChange]
    dsimp only
    by_cases hmay : d'.mayChange (Spot.under (.file user name) root)
    · left
      cases node with
      | directory mode => exact absurd hnode (h.free mode)
      | file | link | device => simp [hmay]
    · right
      simp [hmay]

/-- When the name has been taken away, nothing else has. -/
theorem sameAt_withdraw (hfooted : Footed v root user d) (hname : accepts name) {q : Place}
    (hq : ¬Touched v root user name d q) :
    SameAt d (Vault.withdraw d' (v.pathOf (.file user name))) q := by
  have hne := Spot.under_ne_nil (.file user name) root
  rcases h.withdraw_cases hfooted hname with heq | ⟨heq, -⟩
  · rw [heq]
    refine (h.same q hq).trans ⟨?_, fun _ _ => rfl⟩
    rw [node?_drop hne, if_neg]
    rintro rfl
    exact hq .target
  · rw [heq]
    exact h.same q hq

theorem node?_withdraw (hfooted : Footed v root user d) (hname : accepts name)
    (hmay : d.mayChange (Spot.under (.file user name) root)) :
    (Vault.withdraw d' (v.pathOf (.file user name))).node? (Spot.under (.file user name) root) =
      none := by
  have hne := Spot.under_ne_nil (.file user name) root
  rcases h.withdraw_cases hfooted hname with heq | ⟨heq, hnone⟩
  · rw [heq, node?_drop hne, if_pos rfl]
  · rw [heq, hnone hmay]

end Altered

/-! ## 3. What is written to -/

/-- An upload has opened what the name leads to: a file that stands nowhere else than where it may
be touched, or a device. -/
inductive WritesThrough (v : Vault) (root : Place) (user : UInt32) (name payload : Bytes) (d : Disk)
    (u : Upload) (d' : Disk) : Prop
  | file (id : FileId) (hrecord : d'.record? id ≠ none)
    (hown : (∀ target, d.node? (Spot.under (.file user name) root) ≠ some (.link target)) →
      d'.node? (Spot.under (.file user name) root) = some (.file id))
    (hapart : ∀ q, ¬Touched v root user name d q → d'.node? q ≠ some (.file id))
    (hkeeps : Keeps payload u d' id) : WritesThrough v root user name payload d u d'
  | device (hdevice : ∀ file, u.handle? = some file → ∃ device, file.target = .device device) :
    WritesThrough v root user name payload d u d'

section
variable (haltered : Altered v root user name d d)
  (hknown : ∀ q id, d.node? q = some (.file id) → Known d id)
  (hremaining : u.remaining = payload.length) {place : Place}
  (hplace : (∀ target, d.node? (Spot.under (.file user name) root) ≠ some (.link target)) →
    place = Spot.under (.file user name) root)
include haltered hknown hremaining hplace

/-- A new file is opened. -/
theorem writesThrough_new (hfollow : d.follow (v.pathOf (.file user name)) = .ok (.vacant place))
    (hhandle : u.handle? = some { target := .file d.nextFile }) :
    Altered v root user name d (d.addFile place).2 ∧
      WritesThrough v root user name payload d u (d.addFile place).2 := by
  have hnone := node?_of_vacant hfollow
  have hne : place ≠ [] := by
    rintro rfl
    cases hnone
  have hlt (q : Place) (id : FileId) (hq : d.node? q = some (.file id)) : id < d.nextFile :=
    (hknown q id hq).lt
  have hempty : (d.addFile place).2.contentOf d.nextFile = .empty := by
    rw [contentOf_addFile, if_pos rfl]
  refine ⟨haltered.addFile (.vacant hfollow) hnone hlt,
    .file d.nextFile (known_addFile d place).record (fun hlink => ?_) (fun q hq => ?_)
      (keeps_empty hhandle rfl rfl hempty hremaining)⟩
  · rw [node?_addFile hne, if_pos (hplace hlink).symm]
  · rw [node?_addFile hne, if_neg]
    · exact fun hnew => Nat.lt_irrefl _ (hlt q _ hnew)
    · rintro rfl
      exact hq (.vacant hfollow)

/-- A file that was there is opened and emptied. -/
theorem writesThrough_over {id : FileId}
    (hfollow : d.follow (v.pathOf (.file user name)) = .ok (.node place (.file id)))
    (hhandle : u.handle? = some { target := .file id }) :
    Altered v root user name d (d.overwrite id .empty) ∧
      WritesThrough v root user name payload d u (d.overwrite id .empty) := by
  have hnode := node?_of_follow hfollow
  have hrecord := (hknown place id hnode).record
  have hapart (q : Place) (hq : ¬Touched v root user name d q) : d.node? q ≠ some (.file id) :=
    fun hid => hq (.file hfollow hid)
  have hempty : (d.overwrite id .empty).contentOf id = .empty := by
    rw [contentOf_overwrite hrecord, if_pos rfl]
  refine ⟨haltered.overwrite hapart .empty,
    .file id (hknown place id hnode).overwrite.record (fun hlink => ?_) (fun q hq => ?_)
      (keeps_empty hhandle rfl rfl hempty hremaining)⟩
  · rw [node?_overwrite, ← hplace hlink]
    exact hnode
  · rw [node?_overwrite]
    exact hapart q hq

end

/-- Once a file has been opened, no more has happened than may. -/
theorem writesThrough_of_create (hfooted : Footed v root user d)
    (hknown : ∀ q id, d.node? q = some (.file id) → Known d id) (hname : accepts name)
    {file : Handle} (hcreate : d.create (v.pathOf (.file user name)) = .ok (file, d'))
    (hhandle : u.handle? = some file) (hremaining : u.remaining = payload.length) :
    Altered v root user name d d' ∧ WritesThrough v root user name payload d u d' := by
  unfold create at hcreate
  cases hmake : d.trace .make (v.pathOf (.file user name)) with
  | error e =>
    rw [hmake] at hcreate
    cases hcreate
  | ok found =>
    have hfollow := follow_of_make hmake
    have hplace (hlink : ∀ target,
        d.node? (Spot.under (.file user name) root) ≠ some (.link target)) :
        found.place = Spot.under (.file user name) root := by
      obtain ⟨-, hfound⟩ := hfooted.found_file hname (fun target h => absurd h (hlink target)) hmake
      rw [hfound, place_foundAt]
    have haltered := Altered.of_make hfooted hname hmake
    rw [hmake] at hcreate
    cases found with
    | vacant place =>
      obtain ⟨-, rfl, rfl⟩ := createAt_eq_ok hcreate
      exact writesThrough_new (haltered (by simp)) hknown hremaining hplace hfollow hhandle
    | node place node =>
      cases node with
      | directory | link => cases hcreate
      | file id =>
        dsimp only at hcreate
        split at hcreate
        · cases hcreate
          exact writesThrough_over (haltered (by simp)) hknown hremaining hplace hfollow hhandle
        · cases hcreate
      | device device =>
        cases hcreate
        refine ⟨haltered (by simp), .device fun file hfile => ?_⟩
        rw [hhandle] at hfile
        cases hfile
        exact ⟨device, rfl⟩

end UserVault.Vault
