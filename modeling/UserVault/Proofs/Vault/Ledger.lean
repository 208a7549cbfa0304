import Mathlib.Data.List.Nodup
import UserVault.Vault.Listing
import UserVault.Proofs.Vault.Removals
import UserVault.Proofs.Vault.Stores

/-!
# The tree of a vault as a ledger

A ledger maps users and names to contents.  The tree of a vault that works alone agrees with a
ledger, and each operation of the vault does to the tree what the ledger says and answers from it.
-/

namespace UserVault

/-! ## 1. Keys of tables -/

-- The keys of the pairs that `f` picks are those of the table, in the same order.
theorem sublist_filterMap {κ α β : Type} {f : κ × α → Option β} {key : β → κ} {keep : κ → Bool}
    (entries : List (κ × α))
    (h : ∀ entry ∈ entries, ∀ b, f entry = some b → entry.1 = key b ∧ keep entry.1 = true) :
    ((entries.filterMap f).map key).Sublist ((entries.map (·.1)).filter keep) := by
  induction entries with
  | nil => exact .slnil
  | cons entry rest ih =>
    have hrest := ih fun e he => h e (List.mem_cons_of_mem _ he)
    cases hpick : f entry with
    | none =>
      rw [List.filterMap_cons_none hpick, List.map_cons]
      exact hrest.trans (List.Sublist.filter _ (List.sublist_cons_self _ _))
    | some b =>
      obtain ⟨hkey, hkeep⟩ := h entry List.mem_cons_self b hpick
      rw [List.filterMap_cons_some hpick, List.map_cons, List.map_cons,
        List.filter_cons_of_pos hkeep, ← hkey]
      exact hrest.cons_cons _

theorem nodup_filterMap {κ α β : Type} {f : κ × α → Option β} (key : β → κ) (keep : κ → Bool)
    {entries : List (κ × α)} (hnodup : ((entries.map (·.1)).filter keep).Nodup)
    (h : ∀ entry ∈ entries, ∀ b, f entry = some b → entry.1 = key b ∧ keep entry.1 = true) :
    (entries.filterMap f).Nodup :=
  (hnodup.sublist (sublist_filterMap entries h)).of_map

end UserVault

namespace UserVault.Vault

open Disk Link

/-! ## 2. Ledgers -/

/-- What every user has stored under every name. -/
abbrev Ledger := Table (UInt32 × Bytes) Bytes

/-- The names that a ledger has for a user, in the order of a listing. -/
def Ledger.names (l : Ledger) (user : UInt32) : List Bytes :=
  (l.entries.filterMap fun entry =>
    if entry.1.1 = user then some entry.1.2 else none).mergeSort byteOrder

/-- The content of the regular file at a place. -/
def fileAt (d : Disk) (q : Place) : Option Bytes :=
  match d.node? q with
  | some (.file id) => some (d.contentOf id).bytes
  | _ => none

/-- The tree of a vault holds the files of a ledger and no others, and none is on its way in. -/
structure Agrees (v : Vault) (root : Place) (d₀ d : Disk) (l : Ledger) : Prop where
  orderly : Orderly v root d₀ d
  clear : ∀ number, d.node? (Spot.under (.staged number) root) = none
  files : ∀ user name, fileAt d (Spot.under (.file user name) root) = l.get? (user, name)
  keys : (l.entries.map (·.1)).Nodup
  short : ∀ key content, l.get? key = some content → content.length < UInt32.size

variable {v : Vault} {root : Place} {d₀ d d' : Disk} {l : Ledger} {user : UInt32} {name : Bytes}

theorem Table.nodup_set {κ α : Type} [DecidableEq κ] {t : Table κ α} (key : κ) (value : α)
    (h : (t.entries.map (·.1)).Nodup) : ((t.set key value).entries.map (·.1)).Nodup := by
  rw [Table.keys_set]
  split
  · exact h
  next hnone => exact List.nodup_cons.mpr ⟨Table.not_mem_keys (by simpa using hnone), h⟩

theorem Table.nodup_erase {κ α : Type} [DecidableEq κ] {t : Table κ α} (key : κ)
    (h : (t.entries.map (·.1)).Nodup) : ((t.erase key).entries.map (·.1)).Nodup :=
  h.sublist (List.Sublist.map _ List.filter_sublist)

/-! ## 3. Keeping the agreement -/

theorem fileAt_of_file {q : Place} {id : FileId} (h : d.node? q = some (.file id)) :
    fileAt d q = some (d.contentOf id).bytes := by
  rw [fileAt, h]

theorem fileAt_of_none {q : Place} (h : d.node? q = none) : fileAt d q = none := by
  rw [fileAt, h]

-- What holds a file at a spot that was kept holds it still.
theorem SpotsKept.fileAt {P : Spot → Prop} (h : SpotsKept root P d d') {spot : Spot}
    (hspot : ¬P spot) : fileAt d' (spot.under root) = fileAt d (spot.under root) := by
  unfold Vault.fileAt
  rw [h.node spot hspot]
  split
  next id hnode => rw [h.content spot hspot id hnode]
  next => rfl

/-- A vault that has just been prepared has no files. -/
theorem agrees_prepare (hbase : EmptyBase v d₀ root) : Agrees v root d₀ (v.prepare d₀).2 {} := by
  have hnone (spot : Spot) (hspot : spot ≠ .staging) :
      (v.prepare d₀).2.node? (spot.under root) = none := by
    rw [prepare_eq hbase, node?_addDirectory (Spot.under_ne_nil _ _), if_neg,
      hbase.node?_below (isBelow_under spot root)]
    exact fun heq => hspot (Spot.under_injective heq)
  refine ⟨orderly_prepare hbase, fun number => hnone _ (by simp), fun user name => ?_, ?_, ?_⟩
  · rw [fileAt_of_none (hnone _ (by simp))]
    rfl
  · exact List.nodup_nil
  · intro key content hget
    cases hget

/-- A payload that has been stored is in the ledger. -/
theorem Agrees.store (h : Agrees v root d₀ d l) (htree : Orderly v root d₀ d')
    (hkept : SpotsKept root (· = .file user name) (withFolder d root user) d') {id : FileId}
    {payload : Bytes}
    (hnode : d'.node? (Spot.under (.file user name) root) = some (.file id))
    (hcontent : (d'.contentOf id).bytes = payload) (hshort : payload.length < UInt32.size) :
    Agrees v root d₀ d' (l.set (user, name) payload) := by
  -- neither the user's directory nor the file is the spot of any other file
  have hfolder := spotsKept_withFolder d root user
  refine ⟨htree, fun number => ?_, fun user' name' => ?_, Table.nodup_set _ _ h.keys, ?_⟩
  · rw [hkept.node _ (by simp), hfolder.node _ (by simp), h.clear number]
  · rw [Table.get?_set]
    split
    next heq =>
      cases heq
      rw [fileAt_of_file hnode, hcontent]
    next hne =>
      rw [hkept.fileAt, hfolder.fileAt (by simp), h.files]
      intro heq
      cases heq
      exact hne rfl
  · intro key content hget
    rw [Table.get?_set] at hget
    split at hget
    · cases hget
      exact hshort
    · exact h.short key content hget

/-- A file that has been removed is in the ledger no more. -/
theorem Agrees.remove (h : Agrees v root d₀ d l) (user : UInt32) (name : Bytes) :
    Agrees v root d₀ (Vault.clear d root (.file user name)) (l.erase (user, name)) := by
  -- only this one spot has changed, and nothing stands there now
  have hkept := spotsKept_clear d root (.file user name)
  have htree := orderly_clear h.orderly (.inr ⟨user, name, rfl⟩)
  refine ⟨htree, fun number => ?_, fun user' name' => ?_, Table.nodup_erase _ h.keys, ?_⟩
  · rw [hkept.node _ (by simp), h.clear number]
  · rw [Table.get?_erase]
    split
    next heq =>
      cases heq
      exact fileAt_of_none (node?_clear_self d root _)
    next hne =>
      rw [hkept.fileAt, h.files]
      intro heq
      cases heq
      exact hne rfl
  · intro key content hget
    rw [Table.get?_erase] at hget
    split at hget
    · cases hget
    · exact h.short key content hget

/-! ## 4. The order of a listing -/

theorem compare_eq_lt_iff {a b : Bytes} : compare a b = .lt ↔ a < b := by
  induction a generalizing b with
  | nil => cases b <;> simp
  | cons x a ih =>
    cases b with
    | nil => simp
    | cons y b =>
      rw [List.compare_cons_cons, Ordering.then_eq_lt, List.cons_lt_cons_iff, ih,
        Std.compare_eq_lt, Std.compare_eq_iff_eq]

theorem byteOrder_iff {a b : Bytes} : byteOrder a b ↔ a ≤ b := by
  have hswap : compare a b = (compare b a).swap := Std.OrientedCmp.eq_swap
  rw [byteOrder, ← List.not_lt, ← compare_eq_lt_iff, hswap]
  cases compare b a <;> simp

theorem pairwise_mergeSort (names : List Bytes) :
    (names.mergeSort byteOrder).Pairwise (· ≤ ·) := by
  have htrans (a b c : Bytes) (hab : byteOrder a b = true) (hbc : byteOrder b c = true) :
      byteOrder a c = true :=
    byteOrder_iff.mpr (List.le_trans (byteOrder_iff.mp hab) (byteOrder_iff.mp hbc))
  have htotal (a b : Bytes) : (byteOrder a b || byteOrder b a) = true := by
    rw [Bool.or_eq_true, byteOrder_iff, byteOrder_iff]
    exact List.le_total a b
  exact (List.pairwise_mergeSort htrans htotal names).imp byteOrder_iff.mp

/-- The order of a listing leaves no choice. -/
theorem mergeSort_congr {names names' : List Bytes} (h : names.Perm names') :
    names.mergeSort byteOrder = names'.mergeSort byteOrder :=
  List.Perm.eq_of_pairwise (fun _ _ _ _ hab hba => List.le_antisymm hab hba)
    (pairwise_mergeSort names) (pairwise_mergeSort names')
    ((List.mergeSort_perm _ _).trans (h.trans (List.mergeSort_perm _ _).symm))

/-! ## 5. Answers from the ledger -/

/-- A retrieval opens just what the ledger says. -/
theorem Agrees.retrieve (hbase : EmptyBase v d₀ root) (h : Agrees v root d₀ d l) (user : UInt32)
    (hname : accepts name) :
    match l.get? (user, name) with
    | some content => ∃ file, v.retrieve d user name = .ok file ∧
        file.length = UInt32.ofNat content.length ∧ (d.contentOf file.file).bytes = content
    | none => v.retrieve d user name = .error .notFound := by
  have hfile := h.files user name
  have hretrieve := h.orderly.retrieve_eq hbase user hname
  rcases h.orderly.file_cases user name with hnone | ⟨id, hnode, -⟩
  · rw [fileAt_of_none hnone] at hfile
    rw [hnone] at hretrieve
    rw [← hfile]
    exact hretrieve
  · rw [fileAt_of_file hnode] at hfile
    have hshort := h.short _ _ hfile.symm
    rw [Content.length_bytes] at hshort
    rw [hnode] at hretrieve
    dsimp only at hretrieve
    rw [if_pos hshort] at hretrieve
    rw [← hfile]
    exact ⟨_, hretrieve, by rw [Content.length_bytes], rfl⟩

-- What an entry of the whole tree is in the directory at `q`.
def entryIn? (q : Place) (entry : Place × Node) : Option (Name × Node) :=
  match entry.1.getLast? with
  | some name => if entry.1.dropLast = q then some (name, entry.2) else none
  | none => none

theorem entriesOf_eq (d : Disk) (q : Place) :
    d.entriesOf q = d.nodes.entries.filterMap (entryIn? q) := rfl

theorem entryIn?_eq_some {q : Place} {entry : Place × Node} {step : Name × Node} :
    entryIn? q entry = some step ↔ entry = (q ++ [step.1], step.2) := by
  constructor
  · intro h
    unfold entryIn? at h
    split at h
    next name hlast =>
      split at h
      next hplace =>
        cases h
        rw [← hplace, List.dropLast_append_getLast? name hlast]
      next => cases h
    next => cases h
  · intro h
    simp [entryIn?, h]

theorem mem_entriesOf {q : Place} {step : Name × Node} :
    step ∈ d.entriesOf q ↔ (q ++ [step.1], step.2) ∈ d.nodes.entries := by
  rw [entriesOf_eq, List.mem_filterMap]
  constructor
  · rintro ⟨entry, hmem, hpick⟩
    rw [← entryIn?_eq_some.mp hpick]
    exact hmem
  · exact fun hmem => ⟨_, hmem, entryIn?_eq_some.mpr rfl⟩

-- What a directory of a user has is what stands in it.
theorem Orderly.mem_entries (h : Orderly v root d₀ d) :
    (∃ id, (name, .file id) ∈ d.entriesOf (Spot.under (.folder user) root)) ↔
      ∃ id, d.node? (Spot.under (.file user name) root) = some (.file id) := by
  constructor
  · rintro ⟨id, hmem⟩
    rw [mem_entriesOf, Spot.under_file] at hmem
    have hne := Table.get?_ne_none hmem
    rw [← node?_of_ne (Spot.under_ne_nil _ _)] at hne
    rcases h.file_cases user name with hnone | ⟨id', hnode, -⟩
    · exact absurd hnone hne
    · exact ⟨id', hnode⟩
  · rintro ⟨id, hnode⟩
    rw [node?_of_ne (Spot.under_ne_nil _ _)] at hnode
    refine ⟨id, ?_⟩
    rw [mem_entriesOf, Spot.under_file]
    exact Table.mem_of_get? hnode

/-- The files that a directory of a user has are those of the ledger. -/
theorem Agrees.exists_file (h : Agrees v root d₀ d l) :
    (∃ id, d.node? (Spot.under (.file user name) root) = some (.file id)) ↔
      ∃ content, l.get? (user, name) = some content := by
  rw [← h.files]
  rcases h.orderly.file_cases user name with hnone | ⟨id, hnode, -⟩
  · simp [fileAt_of_none hnone, hnone]
  · simp [fileAt_of_file hnode, hnode]

-- Only names that are accepted stand in a directory of a user.
theorem Orderly.accepts_of_mem (h : Orderly v root d₀ d) {node : Node}
    (hmem : (name, node) ∈ d.entriesOf (Spot.under (.folder user) root)) : accepts name := by
  rw [mem_entriesOf, Spot.under_file] at hmem
  obtain ⟨spot, hvalid, heq, -⟩ := h.inside _ node hmem (isBelow_under _ root)
  rw [← Spot.under_injective heq] at hvalid
  exact hvalid

/-- The names that a listing finds in a directory of a user. -/
def fileName? (entry : Name × Node) : Option Bytes :=
  match entry.2 with
  | .file _ => some (Utf8.repair entry.1)
  | _ => none

theorem fileNames_eq (entries : List (Name × Node)) :
    fileNames entries = (entries.filterMap fileName?).mergeSort byteOrder := rfl

/-- A listing has the names under which files stand in the user's directory. -/
theorem Orderly.mem_fileNames (h : Orderly v root d₀ d) :
    name ∈ (d.entriesOf (Spot.under (.folder user) root)).filterMap fileName? ↔
      ∃ id, d.node? (Spot.under (.file user name) root) = some (.file id) := by
  rw [List.mem_filterMap, ← h.mem_entries]
  constructor
  · rintro ⟨⟨raw, node⟩, hmem, hpick⟩
    have hrepair := repair_of_accepts (h.accepts_of_mem hmem)
    cases node with
    | file id =>
      simp only [fileName?, hrepair, Option.some.injEq] at hpick
      exact ⟨id, hpick ▸ hmem⟩
    | directory | link | device => cases hpick
  · rintro ⟨id, hmem⟩
    have hrepair := repair_of_accepts (h.accepts_of_mem hmem)
    exact ⟨_, hmem, by simp only [fileName?, hrepair]⟩

-- Different entries of a directory have different names, and these are names of users' files.
theorem Orderly.nodup_fileNames (h : Orderly v root d₀ d) (user : UInt32) :
    ((d.entriesOf (Spot.under (.folder user) root)).filterMap fileName?).Nodup := by
  rw [entriesOf_eq, List.filterMap_filterMap]
  refine nodup_filterMap (fun name => Spot.under (.file user name) root) (isBelow root) h.keys
    fun entry hentry name hpick => ?_
  obtain ⟨step, hstep, hname⟩ := Option.bind_eq_some_iff.mp hpick
  have hkey := entryIn?_eq_some.mp hstep
  have haccepts : accepts step.1 := h.accepts_of_mem (mem_entriesOf.mpr (hkey ▸ hentry))
  have heq : step.1 = name := by
    unfold fileName? at hname
    split at hname
    · rw [repair_of_accepts haccepts] at hname
      exact Option.some.inj hname
    · cases hname
  rw [hkey, Spot.under_file, heq]
  exact ⟨rfl, isBelow_under _ root⟩

theorem Ledger.mem_names : name ∈ l.names user ↔ ∃ content, l.get? (user, name) = some content := by
  rw [Ledger.names, List.mem_mergeSort, List.mem_filterMap]
  constructor
  · rintro ⟨⟨⟨user', name'⟩, content⟩, hmem, hpick⟩
    dsimp only at hpick
    split at hpick
    next huser =>
      cases hpick
      subst huser
      exact Option.ne_none_iff_exists'.mp (Table.get?_ne_none hmem)
    next => cases hpick
  · rintro ⟨content, hget⟩
    exact ⟨_, Table.mem_of_get? hget, if_pos rfl⟩

/-- A listing has just the names that the ledger has for the user. -/
theorem Agrees.fileNames (h : Agrees v root d₀ d l) (user : UInt32) :
    fileNames (d.entriesOf (Spot.under (.folder user) root)) = l.names user := by
  rw [fileNames_eq, Ledger.names]
  refine mergeSort_congr ((List.perm_ext_iff_of_nodup (h.orderly.nodup_fileNames user) ?_).mpr
    fun name => ?_)
  · refine nodup_filterMap (fun name => (user, name)) (fun _ => true) ?_ ?_
    · rw [List.filter_eq_self.mpr fun _ _ => rfl]
      exact h.keys
    · rintro ⟨⟨user', name'⟩, content⟩ - name hpick
      dsimp only at hpick
      split at hpick
      next huser =>
        cases hpick
        exact ⟨by rw [huser], rfl⟩
      next => cases hpick
  · rw [h.orderly.mem_fileNames, h.exists_file, ← Ledger.mem_names, Ledger.names,
      List.mem_mergeSort]

/-- What a listing answers from a ledger. -/
def Ledger.list (l : Ledger) (user : UInt32) : Except VaultError Bytes :=
  match l.names user with
  | [] => .error .noFiles
  | names => .ok (listingText names)

/-- A listing has the names of the files in the directory of the user, where there are any. -/
theorem Orderly.list_eq (hbase : EmptyBase v d₀ root) (h : Orderly v root d₀ d) (user : UInt32) :
    v.list d user =
      match fileNames (d.entriesOf (Spot.under (.folder user) root)) with
      | [] => .error .noFiles
      | names => .ok (listingText names) := by
  rw [Vault.list, listNames, h.readDirectory_folder hbase user]
  rcases h.folder_cases user with hnone | ⟨mode, hfolder, -⟩
  · have hnames : fileNames (d.entriesOf (Spot.under (.folder user) root)) = [] := by
      rw [fileNames_eq]
      refine List.eq_nil_iff_forall_not_mem.mpr fun name hmem => ?_
      -- a file cannot be without the directory of its user
      obtain ⟨id, hnode⟩ := h.mem_fileNames.mp (List.mem_mergeSort.mp hmem)
      obtain ⟨node, hfolder⟩ := h.folder user name _ hnode
      rw [hnone] at hfolder
      cases hfolder
    rw [hnone, hnames]
    rfl
  · rw [hfolder]
    dsimp only [Option.isSome_some]
    rw [if_pos rfl]
    dsimp only
    cases fileNames (d.entriesOf (Spot.under (.folder user) root)) <;> rfl

theorem Agrees.list (hbase : EmptyBase v d₀ root) (h : Agrees v root d₀ d l) (user : UInt32) :
    v.list d user = l.list user := by
  rw [h.orderly.list_eq hbase user, h.fileNames, Ledger.list]

/-! ## 6. What the tree looks like -/

/-- Below `root` there are the files of the ledger, each in the directory of its user and with the
content that the ledger says, and apart from them nothing but directories. -/
structure Mirrors (root : Place) (d : Disk) (l : Ledger) : Prop where
  files : ∀ q content, isBelow root q →
    (fileAt d q = some content ↔ ∃ (user : UInt32) (name : Bytes),
      q = root ++ [Decimal.encode user.toNat, name] ∧ l.get? (user, name) = some content)
  others : ∀ q node, isBelow root q → d.node? q = some node →
    (∃ mode, node = .directory mode) ∨ ∃ id, node = .file id

theorem Agrees.mirrors (h : Agrees v root d₀ d l) : Mirrors root d l := by
  have hspot {q : Place} {node : Node} (hbelow : isBelow root q) (hnode : d.node? q = some node) :
      ∃ spot : Spot, q = spot.under root ∧ Fits d node spot := by
    rw [node?_of_ne (isBelow_ne_nil hbelow)] at hnode
    obtain ⟨spot, -, hplace, hfits⟩ := h.orderly.inside q node (Table.mem_of_get? hnode) hbelow
    exact ⟨spot, hplace, hfits⟩
  constructor
  · intro q content hbelow
    constructor
    · intro hfile
      cases hnode : d.node? q with
      | none =>
        rw [fileAt_of_none hnode] at hfile
        cases hfile
      | some node =>
        obtain ⟨spot, rfl, hfits⟩ := hspot hbelow hnode
        cases spot with
        | staging | folder =>
          obtain ⟨mode, rfl, -⟩ := hfits
          simp only [fileAt, hnode] at hfile
          cases hfile
        | staged number =>
          rw [h.clear number] at hnode
          cases hnode
        | file user name =>
          rw [h.files] at hfile
          exact ⟨user, name, rfl, hfile⟩
    · rintro ⟨user, name, rfl, hget⟩
      exact (h.files user name).trans hget
  · intro q node hbelow hnode
    obtain ⟨spot, -, hfits⟩ := hspot hbelow hnode
    cases spot with
    | staging | folder =>
      obtain ⟨mode, rfl, -⟩ := hfits
      exact .inl ⟨mode, rfl⟩
    | staged | file =>
      obtain ⟨id, rfl, -⟩ := hfits
      exact .inr ⟨id, rfl⟩

/-- From `d` to `d'` nothing happened below `root`, neither to the tree nor to what the files hold,
but at the spots of which `P` holds. -/
def SubtreeKept (root : Place) (P : Spot → Prop) (d d' : Disk) : Prop :=
  ∀ q, isBelow root q → (∀ spot, P spot → q ≠ spot.under root) →
    d'.node? q = d.node? q ∧ fileAt d' q = fileAt d q

theorem SpotsKept.subtreeKept {P : Spot → Prop} (h : SpotsKept root P d d')
    (hd : Orderly v root d₀ d) (hd' : Orderly v root d₀ d') : SubtreeKept root P d d' := by
  -- away from the spots there is nothing on either disk
  have hspot {d : Disk} (hd : Orderly v root d₀ d) {q : Place} (hq : isBelow root q)
      (hne : ∀ spot : Spot, q ≠ spot.under root) : d.node? q = none := by
    cases hnode : d.node? q with
    | none => rfl
    | some node =>
      rw [node?_of_ne (isBelow_ne_nil hq)] at hnode
      obtain ⟨spot, -, hplace, -⟩ := hd.inside q node (Table.mem_of_get? hnode) hq
      exact absurd hplace (hne spot)
  intro q hq hP
  by_cases hexists : ∃ spot : Spot, q = spot.under root
  · obtain ⟨spot, rfl⟩ := hexists
    have hne : ¬P spot := fun hspot => hP spot hspot rfl
    exact ⟨h.node spot hne, h.fileAt hne⟩
  · have hne (spot : Spot) : q ≠ spot.under root := fun heq => hexists ⟨spot, heq⟩
    have hnone := hspot hd hq hne
    have hnone' := hspot hd' hq hne
    exact ⟨by rw [hnone, hnone'], by rw [fileAt_of_none hnone, fileAt_of_none hnone']⟩

end UserVault.Vault
