import UserVault.Proofs.Vault.Changes
import UserVault.Proofs.Vault.Openings

/-!
# Stores among anything else

Around a vault there may be anything: links, devices, files with many names.  A store only needs to
find its way (`Footed`): the vault's directory is there, and no link stands where the directory of
the user does.  What it does to everything else is then told place by place (`PlacesKept`), and a
file of its own that stands aside (`Apart`) is out of the way of whatever was there before.
-/

namespace UserVault.Vault

open Disk

variable {v : Vault} {root place : Place} {d d' d'' : Disk} {user : UInt32} {name : Bytes}
  {id : FileId} {P Q : Place → Prop}

/-! ## 1. What is left alone -/

/-- What stands at a place is the same on both disks, and what it holds if it is a file. -/
structure SameAt (d d' : Disk) (q : Place) : Prop where
  node : d'.node? q = d.node? q
  record : ∀ id, d.node? q = some (.file id) → d'.record? id = d.record? id

theorem SameAt.refl (d : Disk) (q : Place) : SameAt d d q := ⟨rfl, fun _ _ => rfl⟩

theorem SameAt.trans {q : Place} (h : SameAt d d' q) (h' : SameAt d' d'' q) : SameAt d d'' q where
  node := h'.node.trans h.node
  record id hid := (h'.record id (h.node.trans hid)).trans (h.record id hid)

theorem SameAt.entryAt? {q : Place} (h : SameAt d d' q) : d'.entryAt? q = d.entryAt? q :=
  entryAt?_congr h.node fun id hid => by rw [contentOf, contentOf, h.record id hid]

/-- From `d` to `d'` nothing happened but at the places `P`, and to no file that was there. -/
structure PlacesKept (P : Place → Prop) (d d' : Disk) : Prop where
  node : ∀ q, ¬P q → d'.node? q = d.node? q
  record : ∀ id < d.nextFile, d'.record? id = d.record? id
  nextFile : d.nextFile ≤ d'.nextFile
  bound : d'.bound = d.bound
  home : d'.home = d.home

namespace PlacesKept

theorem refl (P : Place → Prop) (d : Disk) : PlacesKept P d d :=
  ⟨fun _ _ => rfl, fun _ _ => rfl, Nat.le_refl _, rfl, rfl⟩

theorem mono (h : PlacesKept P d d') (hPQ : ∀ q, P q → Q q) : PlacesKept Q d d' :=
  ⟨fun q hq => h.node q fun hP => hq (hPQ q hP), h.record, h.nextFile, h.bound, h.home⟩

theorem trans (h : PlacesKept P d d') (h' : PlacesKept P d' d'') : PlacesKept P d d'' where
  node q hq := (h'.node q hq).trans (h.node q hq)
  record id hid := (h'.record id (Nat.lt_of_lt_of_le hid h.nextFile)).trans (h.record id hid)
  nextFile := Nat.le_trans h.nextFile h'.nextFile
  bound := h'.bound.trans h.bound
  home := h'.home.trans h.home

/-- A place that is as it was before has not changed. -/
theorem restored (h : PlacesKept (· = place) d d') (hnode : d'.node? place = d.node? place) :
    PlacesKept (fun _ => False) d d' := by
  refine ⟨fun q _ => ?_, h.record, h.nextFile, h.bound, h.home⟩
  by_cases hq : q = place
  · rw [hq, hnode]
  · exact h.node q hq

theorem sameAt (h : PlacesKept P d d')
    (hknown : ∀ q id, d.node? q = some (.file id) → id < d.nextFile) {q : Place} (hq : ¬P q) :
    SameAt d d' q :=
  ⟨h.node q hq, fun id hid => h.record id (hknown q id hid)⟩

/-- Where something has come to stand at a vacant place, paths lead to the directories that they
led to. -/
theorem follow (h : PlacesKept (· = place) d d') (hnone : d.node? place = none) {path : Path}
    {mode : Nat} (hfollow : d.follow path = .ok (.node root (.directory mode))) :
    d'.follow path = .ok (.node root (.directory mode)) := by
  apply follow_mono h.bound h.home _ hfollow
  intro q node _ hnode
  rw [h.node q, hnode]
  rintro rfl
  rw [hnone] at hnode
  cases hnode

theorem mayChange (h : PlacesKept (· = place) d d') {q : Place} (hq : q.dropLast ≠ place) :
    d'.mayChange q = d.mayChange q :=
  mayChange_congr h.bound fun mode => by rw [h.node _ hq]

/-- A file that was not there before is written to. -/
theorem overwrite (h : PlacesKept P d d') (hid : d.nextFile ≤ id) (content : Content) :
    PlacesKept P d (d'.overwrite id content) where
  node q hq := by rw [node?_overwrite, h.node q hq]
  record id' hid' := by
    rw [record?_overwrite, if_neg (Nat.ne_of_lt (Nat.lt_of_lt_of_le hid' hid)), h.record id' hid']
  nextFile := by rw [nextFile_overwrite]; exact h.nextFile
  bound := by rw [bound_overwrite, h.bound]
  home := by rw [home_overwrite, h.home]

end PlacesKept

section
variable (hne : place ≠ [])
include hne

theorem placesKept_addDirectory (d : Disk) : PlacesKept (· = place) d (d.addDirectory place) := by
  refine ⟨fun q hq => ?_, fun _ _ => rfl, Nat.le_refl _, rfl, rfl⟩
  rw [node?_addDirectory hne, if_neg hq]

theorem placesKept_addFile (d : Disk) : PlacesKept (· = place) d (d.addFile place).2 := by
  refine ⟨fun q hq => ?_, fun id hid => ?_, Nat.le_succ _, rfl, rfl⟩
  · rw [node?_addFile hne, if_neg hq]
  · rw [record?_addFile, if_neg (Nat.ne_of_lt hid)]

theorem placesKept_drop (d : Disk) : PlacesKept (· = place) d (d.drop place) := by
  refine ⟨fun q hq => ?_, fun _ _ => rfl, Nat.le_refl _, rfl, rfl⟩
  rw [node?_drop hne, if_neg hq]

theorem placesKept_put (d : Disk) (node : Node) : PlacesKept (· = place) d (d.put place node) := by
  refine ⟨fun q hq => ?_, fun _ _ => rfl, Nat.le_refl _, rfl, rfl⟩
  rw [node?_put hne, if_neg hq]

end

theorem placesKept_withFolder (d : Disk) (root : Place) (user : UInt32) :
    PlacesKept (· = Spot.under (.folder user) root) d (withFolder d root user) := by
  unfold withFolder
  split
  · exact PlacesKept.refl _ d
  · exact placesKept_addDirectory (Spot.under_ne_nil _ root) d

/-! ## 2. The directory of the user -/

/-- A store for the user finds its way: the vault's directory is at `root`, and no link stands where
the directory of the user does. -/
structure Footed (v : Vault) (root : Place) (user : UInt32) (d : Disk) : Prop where
  base : ∃ mode, d.follow v.base = .ok (.node root (.directory mode))
  folder : ∀ target, d.node? (Spot.under (.folder user) root) ≠ some (.link target)
  known : ∀ q id, d.node? q = some (.file id) → id < d.nextFile

/-- The spots right in the directory aside, and those right in the directory of the user. -/
inductive Spot.Within (user : UInt32) : Spot → Prop
  | staged (number : Nat) : Within user (.staged number)
  | file {name : Bytes} (hname : accepts name) : Within user (.file user name)

/-- A directory that was missing and has been made. -/
theorem node?_withFolder (d : Disk) (root : Place) (user : UInt32) (q : Place) :
    (withFolder d root user).node? q = d.node? q ∨
      q = Spot.under (.folder user) root ∧ d.node? q = none ∧
        (withFolder d root user).node? q = some (.directory (d.grant 0o777)) := by
  unfold withFolder
  split
  · exact .inl rfl
  next hnone =>
    rw [putFolder, node?_addDirectory (Spot.under_ne_nil _ root)]
    by_cases hq : q = Spot.under (.folder user) root
    · refine .inr ⟨hq, ?_, if_pos hq⟩
      rw [hq]
      simpa using hnone
    · exact .inl (if_neg hq)

/-- Whether an entry of the table, if it is a file, has been given its identity. -/
def isNumbered (d : Disk) (entry : Place × Node) : Bool :=
  match entry.2 with
  | .file id => id < d.nextFile
  | _ => true

namespace Footed

/-- That files have been given their identities can be checked entry by entry. -/
theorem of_entries (hbase : ∃ mode, d.follow v.base = .ok (.node root (.directory mode)))
    (hfolder : ∀ target, d.node? (Spot.under (.folder user) root) ≠ some (.link target))
    (hentries : ∀ entry ∈ d.nodes.entries, isNumbered d entry) : Footed v root user d := by
  refine ⟨hbase, hfolder, fun q id hnode => ?_⟩
  have hne : q ≠ [] := by
    rintro rfl
    cases hnode
  rw [node?_of_ne hne] at hnode
  have hnumbered := hentries _ (Table.mem_of_get? hnode)
  simpa only [isNumbered, decide_eq_true_eq] using hnumbered

theorem withFolder (h : Footed v root user d) : Footed v root user (withFolder d root user) := by
  refine ⟨?_, fun target hnode => ?_, fun q id hnode => ?_⟩
  · obtain ⟨mode, hbase⟩ := h.base
    refine ⟨mode, ?_⟩
    unfold Vault.withFolder
    split
    · exact hbase
    next hnone =>
      have hplaces := placesKept_addDirectory (Spot.under_ne_nil (.folder user) root) d
      exact hplaces.follow (by simpa using hnone) hbase
  · rcases node?_withFolder d root user (Spot.under (.folder user) root) with heq | ⟨-, -, hmade⟩
    · exact h.folder target (heq ▸ hnode)
    · rw [hmade] at hnode
      cases hnode
  · rcases node?_withFolder d root user q with heq | ⟨-, -, hmade⟩
    · rw [heq] at hnode
      exact Nat.lt_of_lt_of_le (h.known q id hnode) (placesKept_withFolder d root user).nextFile
    · rw [hmade] at hnode
      cases hnode

/-- Making the directory of the user changes nothing but that there is one. -/
theorem sameAt_withFolder (h : Footed v root user d) {q : Place}
    (hfolder : q = Spot.under (.folder user) root →
      d.node? (Spot.under (.folder user) root) ≠ none) :
    SameAt d (Vault.withFolder d root user) q where
  node := by
    rcases node?_withFolder d root user q with heq | ⟨heq, hnone, -⟩
    · exact heq
    · exact absurd (heq ▸ hnone) (hfolder heq)
  record id hid := (placesKept_withFolder d root user).record id (h.known q id hid)

theorem makeDirectories_error (h : Footed v root user d) {e : Errno}
    (hmake : d.makeDirectories (v.userDirectory user) = (.error e, d')) : d' = d := by
  obtain ⟨mode, hbase⟩ := h.base
  rw [makeDirectories_user hbase user h.folder] at hmake
  split at hmake
  · cases hmake
    rfl
  · split at hmake
    · cases hmake
    · cases hmake
      rfl
  · cases hmake
  · cases hmake
    rfl

/-- Where the directory of the user can be made, or is one, it is there afterwards. -/
theorem makeDirectories_ok (h : Footed v root user d)
    (hmake : d.makeDirectories (v.userDirectory user) = (.ok (), d')) :
    d' = Vault.withFolder d root user ∧
      ∃ mode, d'.node? (Spot.under (.folder user) root) = some (.directory mode) := by
  obtain ⟨mode, hbase⟩ := h.base
  rw [makeDirectories_user hbase user h.folder] at hmake
  split at hmake
  · cases hmake
  next hentry =>
    have hnone := entryAt?_eq_none.mp hentry
    split at hmake
    · cases hmake
      refine ⟨?_, d.grant 0o777, ?_⟩
      · rw [Vault.withFolder, hnone]
        rfl
      · rw [node?_addDirectory (Spot.under_ne_nil _ root), if_pos rfl]
    · cases hmake
  next mode' _ hentry =>
    have hnode := entryAt?_eq_directory.mp hentry
    cases hmake
    refine ⟨?_, mode', hnode⟩
    rw [Vault.withFolder, hnode]
    rfl
  · cases hmake

/-- Where a path of the user's file leads, unless it is through a link under the very name. -/
theorem trace_file (h : Footed v root user d) (hname : accepts name) {purpose : Purpose}
    (hlink : ∀ target, d.node? (Spot.under (.file user name) root) = some (.link target) →
      purpose = .name) :
    d.trace purpose (v.pathOf (.file user name)) =
      (reach v root d (.file user name)).map fun _ =>
        d.foundAt (Spot.under (.file user name) root) := by
  obtain ⟨mode, hbase⟩ := h.base
  have hvalid : (Spot.file user name).Valid := hname
  refine trace_spot hbase hvalid (fun target => ?_) hlink
  rw [Spot.dropLast_file]
  exact h.folder target

theorem found_file (h : Footed v root user d) (hname : accepts name) {purpose : Purpose}
    (hlink : ∀ target, d.node? (Spot.under (.file user name) root) = some (.link target) →
      purpose = .name) {found : Found}
    (htrace : d.trace purpose (v.pathOf (.file user name)) = .ok found) :
    reach v root d (.file user name) = .ok () ∧
      found = d.foundAt (Spot.under (.file user name) root) := by
  rw [h.trace_file hname hlink] at htrace
  cases hreach : reach v root d (.file user name) with
  | error e =>
    rw [hreach] at htrace
    cases htrace
  | ok _ =>
    rw [hreach] at htrace
    cases htrace
    exact ⟨rfl, rfl⟩

/-! ## 3. A file aside -/

/-- Where no link stands in the way, a spot is found right where it belongs. -/
theorem locate (h : Footed v root user d)
    (hstaging : ∀ target, d.node? (Spot.under .staging root) ≠ some (.link target)) {spot : Spot}
    (hwithin : spot.Within user) :
    d.locate (v.pathOf spot) = (reach v root d spot).map fun _ => d.foundAt (spot.under root) := by
  cases hwithin with
  | staged number =>
    obtain ⟨mode, hbase⟩ := h.base
    have hvalid : (Spot.staged number).Valid := trivial
    refine trace_spot hbase hvalid (fun target => ?_) fun _ _ => rfl
    rw [Spot.dropLast_staged]
    exact hstaging target
  | file hname => exact h.trace_file hname fun _ _ => rfl

end Footed

/-- A call that has put what it found in another place has done so whatever was there. -/
theorem eq_of_rename {old new : Path} {source target : Place} {node : Node}
    {reached : Except Errno Unit} (hold : d.locate old = .ok (.node source node))
    (hnew : d.locate new = reached.map fun _ => d.foundAt target)
    (hrename : d.rename old new = .ok d') : d' = (d.drop source).put target node := by
  rw [Disk.rename, hold, hnew] at hrename
  cases reached with
  | error e => cases hrename
  | ok _ =>
    simp only [Except.map, place_foundAt] at hrename
    split at hrename
    · cases hrename
    · split at hrename
      · cases hrename
      · split at hrename
        · cases hrename
        next place _ _ hfound =>
          have hplace := congrArg Found.place hfound
          rw [place_foundAt] at hplace
          cases hrename
          rw [hplace]
          rfl
        next place hfound =>
          have hplace := congrArg Found.place hfound
          rw [place_foundAt] at hplace
          cases hrename
          rw [hplace]
          rfl

/-- Since `d`, a file has come to stand aside, at a place where nothing was, and nothing else has
happened but that it may have been written to. -/
structure Apart (v : Vault) (root : Place) (number : Nat) (id : FileId) (d d' : Disk) : Prop where
  vacant : d.node? (Spot.under (.staged number) root) = none
  fresh : d.nextFile ≤ id
  reach : reach v root d (.staged number) = .ok ()
  mayChange : d.mayChange (Spot.under (.staged number) root)
  placesKept : PlacesKept (· = Spot.under (.staged number) root) d d'
  lt : id < d'.nextFile
  node : d'.node? (Spot.under (.staged number) root) = some (.file id)
  record : d'.record? id ≠ none

theorem createAt_eq_ok {file : Handle} (h : d.createAt place = .ok (file, d')) :
    d.mayChange place ∧ file = { target := .file d.nextFile } ∧ d' = (d.addFile place).2 := by
  unfold createAt at h
  split at h
  next hmay =>
    cases h
    exact ⟨hmay, rfl, rfl⟩
  next => cases h

theorem Footed.createNew (h : Footed v root user d)
    (hstaging : ∀ target, d.node? (Spot.under .staging root) ≠ some (.link target)) {number : Nat}
    {file : Handle} (hcreate : d.createNew (v.pathOf (.staged number)) = .ok (file, d')) :
    file = { target := .file d.nextFile } ∧ Apart v root number d.nextFile d d' ∧
      d'.contentOf d.nextFile = .empty := by
  have hne := Spot.under_ne_nil (.staged number) root
  rw [Disk.createNew, h.locate hstaging (.staged number)] at hcreate
  cases hreach : Vault.reach v root d (.staged number) with
  | error e =>
    rw [hreach] at hcreate
    cases hcreate
  | ok _ =>
    cases hnode : d.node? (Spot.under (.staged number) root) with
    | some node =>
      rw [hreach, foundAt_of_some hnode] at hcreate
      cases hcreate
    | none =>
      rw [hreach, foundAt_of_none hnode] at hcreate
      obtain ⟨hmay, rfl, rfl⟩ := createAt_eq_ok hcreate
      refine ⟨rfl, ⟨hnode, Nat.le_refl _, hreach, hmay, placesKept_addFile hne d,
        Nat.lt_succ_self _, ?_, ?_⟩, ?_⟩
      · rw [node?_addFile hne, if_pos rfl]
      · rw [record?_addFile, if_pos rfl]
        exact Option.some_ne_none _
      · rw [contentOf_addFile, if_pos rfl]

namespace Apart

variable {number : Nat} (h : Apart v root number id d d')
include h

theorem overwrite (content : Content) : Apart v root number id d (d'.overwrite id content) where
  vacant := h.vacant
  fresh := h.fresh
  reach := h.reach
  mayChange := h.mayChange
  placesKept := h.placesKept.overwrite h.fresh content
  lt := by rw [nextFile_overwrite]; exact h.lt
  node := by rw [node?_overwrite, h.node]
  record := by
    rw [record?_overwrite, if_pos rfl, ne_eq, Option.map_eq_none_iff]
    exact h.record

/-- Once the file aside is gone, all is as it was. -/
theorem drop : PlacesKept (fun _ => False) d (d'.drop (Spot.under (.staged number) root)) := by
  have hne := Spot.under_ne_nil (.staged number) root
  apply (h.placesKept.trans (placesKept_drop hne d')).restored
  rw [node?_drop hne, if_pos rfl, h.vacant]

theorem node_ne {spot : Spot} (hspot : spot ≠ .staged number) :
    d'.node? (spot.under root) = d.node? (spot.under root) :=
  h.placesKept.node _ fun heq => hspot (Spot.under_injective heq)

theorem staging (target : Bytes) : d'.node? (Spot.under .staging root) ≠ some (.link target) := by
  obtain ⟨mode, hstaging⟩ := directory_of_reach h.reach
  rw [Spot.dropLast_staged] at hstaging
  have hne : Spot.staging ≠ .staged number := nofun
  rw [h.node_ne hne, hstaging]
  nofun

variable (hfooted : Footed v root user d)
include hfooted

theorem footed : Footed v root user d' := by
  refine ⟨?_, fun target => ?_, fun q id' hnode => ?_⟩
  · obtain ⟨mode, hbase⟩ := hfooted.base
    exact ⟨mode, h.placesKept.follow h.vacant hbase⟩
  · have hne : Spot.folder user ≠ .staged number := nofun
    rw [h.node_ne hne]
    exact hfooted.folder target
  · by_cases hq : q = Spot.under (.staged number) root
    · rw [hq, h.node] at hnode
      cases hnode
      exact h.lt
    · rw [h.placesKept.node q hq] at hnode
      exact Nat.lt_of_lt_of_le (hfooted.known q id' hnode) h.placesKept.nextFile

theorem locate_staged : d'.locate (v.pathOf (.staged number)) =
    .ok (.node (Spot.under (.staged number) root) (.file id)) := by
  -- what stands at the spot itself makes no difference to the way there
  have hreach : Vault.reach v root d' (.staged number) = .ok () := by
    rw [← h.reach]
    apply reach_change h.placesKept.bound (Nat.le_refl _)
    intro q hq
    exact (h.placesKept.sameAt hfooted.known hq).entryAt?
  rw [(h.footed hfooted).locate h.staging (.staged number), hreach, foundAt_of_some h.node]
  rfl

/-- The file aside can be taken away. -/
theorem withdraw : Vault.withdraw d' (v.pathOf (.staged number)) =
    d'.drop (Spot.under (.staged number) root) := by
  have hmay : d'.mayChange (Spot.under (.staged number) root) = true := by
    rw [h.placesKept.mayChange, h.mayChange]
    rw [Spot.dropLast_staged]
    exact fun heq => nomatch Spot.under_injective heq
  rw [Vault.withdraw, unlink, h.locate_staged hfooted]
  simp only [hmay, Bool.not_true, Bool.false_eq_true, if_false]

/-- Once the file aside has been renamed, it stands under the name of the user's, whatever was there
before, and everything else is as it was. -/
theorem rename (hname : accepts name)
    (hrename : d'.rename (v.pathOf (.staged number)) (v.pathOf (.file user name)) = .ok d'') :
    PlacesKept (· = Spot.under (.file user name) root) d d'' ∧
      d''.node? (Spot.under (.file user name) root) = some (.file id) ∧
      d''.record? id = d'.record? id := by
  have hne := Spot.under_ne_nil (.file user name) root
  have hnew := (h.footed hfooted).locate h.staging (.file hname)
  rw [eq_of_rename (h.locate_staged hfooted) hnew hrename]
  refine ⟨?_, ?_, rfl⟩
  · exact (h.drop.mono fun _ hq => nomatch hq).trans (placesKept_put hne _ _)
  · rw [node?_put hne, if_pos rfl]

end Apart

end UserVault.Vault
