import UserVault.Disk.Calls

/-!
# What a change of the tree changes

Each operation on the tree is described by what stands at every place after it, what every file
holds, and which entries there are.
-/

namespace UserVault

/-! ## 1. Entries of tables -/

namespace Table

variable {κ α : Type} [DecidableEq κ] {t : Table κ α} {key : κ} {value : α}

theorem mem_of_get? (h : t.get? key = some value) : (key, value) ∈ t.entries := by
  obtain ⟨entries⟩ := t
  induction entries with
  | nil => simp [get?] at h
  | cons entry rest ih =>
    obtain ⟨k, v⟩ := entry
    by_cases hk : key = k
    · subst hk
      have hv : v = value := by simpa [get?] using h
      rw [hv]
      exact List.mem_cons_self
    · have hb : (key == k) = false := beq_false_of_ne hk
      simp only [get?, List.lookup_cons, hb] at h
      exact List.mem_cons_of_mem _ (ih h)

theorem get?_ne_none (h : (key, value) ∈ t.entries) : t.get? key ≠ none := by
  intro hnone
  have hne := List.lookup_eq_none_iff.mp hnone _ h
  simp at hne

/-- Where each key has one entry, an entry is what its key has. -/
theorem get?_of_mem (hkeys : (t.entries.map (·.1)).Nodup) (h : (key, value) ∈ t.entries) :
    t.get? key = some value := by
  obtain ⟨entries⟩ := t
  induction entries with
  | nil => cases h
  | cons entry rest ih =>
    obtain ⟨k, v⟩ := entry
    obtain ⟨hnot, hrest⟩ := List.nodup_cons.mp hkeys
    rcases List.mem_cons.mp h with heq | hmem
    · cases heq
      simp [get?]
    · have hne : key ≠ k := by
        rintro rfl
        exact hnot (List.mem_map.mpr ⟨_, hmem, rfl⟩)
      have hb : (key == k) = false := beq_false_of_ne hne
      simp only [get?, List.lookup_cons, hb]
      exact ih hrest hmem

theorem mem_replace {entry : κ × α} {entries : List (κ × α)}
    (h : entry ∈ replace key value entries) : entry = (key, value) ∨ entry ∈ entries := by
  induction entries with
  | nil => cases h
  | cons first rest ih =>
    unfold replace at h
    split at h
    · rcases List.mem_cons.mp h with h | h
      · exact .inl h
      · exact .inr (List.mem_cons_of_mem _ h)
    · rcases List.mem_cons.mp h with h | h
      · exact .inr (h ▸ List.mem_cons_self)
      · exact (ih h).imp_right (List.mem_cons_of_mem _)

theorem mem_set {entry : κ × α} (h : entry ∈ (t.set key value).entries) :
    entry = (key, value) ∨ entry ∈ t.entries := by
  unfold set at h
  split at h
  · exact mem_replace h
  · exact List.mem_cons.mp h

theorem keys_replace (key : κ) (value : α) (entries : List (κ × α)) :
    (replace key value entries).map (·.1) = entries.map (·.1) := by
  induction entries with
  | nil => rfl
  | cons first rest ih =>
    unfold replace
    split
    next h => simp [h]
    next => simp [ih]

theorem keys_set (t : Table κ α) (key : κ) (value : α) :
    (t.set key value).entries.map (·.1) =
      if (t.get? key).isSome then t.entries.map (·.1) else key :: t.entries.map (·.1) := by
  unfold set
  split
  · exact keys_replace key value t.entries
  · rfl

theorem replace_replace (key : κ) (value value' : α) (entries : List (κ × α)) :
    replace key value' (replace key value entries) = replace key value' entries := by
  induction entries with
  | nil => rfl
  | cons first rest ih =>
    by_cases h : first.1 = key
    · simp [replace, h]
    · simp [replace, h, ih]

/-- Of two values that a key is given one after the other, the first leaves no trace. -/
theorem set_set (t : Table κ α) (key : κ) (value value' : α) :
    (t.set key value).set key value' = t.set key value' := by
  have hsome : ((t.set key value).get? key).isSome := by
    rw [get?_set, if_pos rfl]
    rfl
  rw [set, if_pos hsome, set, set]
  by_cases h : (t.get? key).isSome
  · rw [if_pos h, if_pos h, replace_replace]
  · rw [if_neg h, if_neg h]
    simp [replace]

theorem not_mem_keys (h : t.get? key = none) : key ∉ t.entries.map (·.1) := by
  intro hmem
  obtain ⟨entry, hentry, rfl⟩ := List.mem_map.mp hmem
  exact get?_ne_none hentry h

end Table

namespace Disk

variable {d : Disk} {place : Place}

/-! ## 2. What stands at a place -/

theorem node?_of_ne (hq : place ≠ []) : d.node? place = d.nodes.get? place := if_neg hq

theorem node?_put (hplace : place ≠ []) (node : Node) (q : Place) :
    (d.put place node).node? q = if q = place then some node else d.node? q := by
  by_cases hq : q = []
  · rw [hq, if_neg (Ne.symm hplace)]
    rfl
  · rw [node?_of_ne hq, node?_of_ne hq]
    exact Table.get?_set d.nodes place q node

theorem node?_drop (hplace : place ≠ []) (q : Place) :
    (d.drop place).node? q = if q = place then none else d.node? q := by
  by_cases hq : q = []
  · rw [hq, if_neg (Ne.symm hplace)]
    rfl
  · rw [node?_of_ne hq, node?_of_ne hq]
    exact Table.get?_erase d.nodes place q

theorem node?_addFile (hplace : place ≠ []) (q : Place) :
    (d.addFile place).2.node? q = if q = place then some (.file d.nextFile) else d.node? q :=
  node?_put hplace (.file d.nextFile) q

theorem node?_addDirectory (hplace : place ≠ []) (q : Place) :
    (d.addDirectory place).node? q =
      if q = place then some (.directory (d.grant 0o777)) else d.node? q := by
  by_cases hq : q = []
  · rw [hq, if_neg (Ne.symm hplace)]
    rfl
  · rw [node?_of_ne hq, node?_of_ne hq]
    exact Table.get?_add d.nodes place q _

/-- Writing to a file changes the table of files and nothing else. -/
theorem overwrite_eq (d : Disk) (id : FileId) (content : Content) :
    ∃ files, d.overwrite id content = { d with files } := by
  unfold overwrite
  split
  · exact ⟨_, rfl⟩
  · exact ⟨d.files, rfl⟩

@[simp] theorem nodes_overwrite (id : FileId) (content : Content) :
    (d.overwrite id content).nodes = d.nodes := by
  obtain ⟨files, h⟩ := d.overwrite_eq id content
  rw [h]

@[simp] theorem node?_overwrite (id : FileId) (content : Content) (q : Place) :
    (d.overwrite id content).node? q = d.node? q := by
  rw [node?, node?, nodes_overwrite]

@[simp] theorem nextFile_overwrite (id : FileId) (content : Content) :
    (d.overwrite id content).nextFile = d.nextFile := by
  obtain ⟨files, h⟩ := d.overwrite_eq id content
  rw [h]

@[simp] theorem bound_overwrite (id : FileId) (content : Content) :
    (d.overwrite id content).bound = d.bound := by
  obtain ⟨files, h⟩ := d.overwrite_eq id content
  rw [h]

@[simp] theorem umask_overwrite (id : FileId) (content : Content) :
    (d.overwrite id content).umask = d.umask := by
  obtain ⟨files, h⟩ := d.overwrite_eq id content
  rw [h]

@[simp] theorem home_overwrite (id : FileId) (content : Content) :
    (d.overwrite id content).home = d.home := by
  obtain ⟨files, h⟩ := d.overwrite_eq id content
  rw [h]

/-! ## 3. What files hold -/

theorem record?_overwrite (id : FileId) (content : Content) (id' : FileId) :
    (d.overwrite id content).record? id' =
      if id' = id then
        (d.record? id).map fun record =>
          { content, mode := if d.bound then withoutRights record.mode else record.mode }
      else d.record? id' := by
  -- a file without a record is not written to, and has none afterwards either
  unfold overwrite
  cases hrecord : d.record? id with
  | none =>
    by_cases hid : id' = id
    · simp [hid, hrecord]
    · simp [hid]
  | some record =>
    show Table.get? (d.files.set id _) id' = _
    rw [Table.get?_set]
    rfl

theorem contentOf_overwrite {id : FileId} (hrecord : d.record? id ≠ none) (content : Content)
    (id' : FileId) :
    (d.overwrite id content).contentOf id' = if id' = id then content else d.contentOf id' := by
  rw [contentOf, record?_overwrite]
  by_cases hid : id' = id
  · obtain ⟨record, hsome⟩ := Option.ne_none_iff_exists'.mp hrecord
    simp [hid, hsome]
  · simp [hid, contentOf]

theorem record?_addFile (id : FileId) :
    (d.addFile place).2.record? id =
      if id = d.nextFile then some { mode := d.grant 0o666 } else d.record? id :=
  Table.get?_set d.files d.nextFile id _

theorem contentOf_addFile (id : FileId) :
    (d.addFile place).2.contentOf id = if id = d.nextFile then .empty else d.contentOf id := by
  rw [contentOf, record?_addFile]
  by_cases hid : id = d.nextFile
  · simp [hid]
  · simp [hid, contentOf]

/-! ## 4. Files that are written from their start -/

theorem withoutRights_withoutRights (mode : Nat) :
    withoutRights (withoutRights mode) = withoutRights mode := by
  have h (mask : Nat) (hmask : mask &&& 0o010 = 0o010) :
      mode &&& mask &&& 0o010 = mode &&& 0o010 := by rw [Nat.and_assoc, hmask]
  unfold withoutRights
  by_cases hzero : mode &&& 0o010 = 0
  · rw [if_pos hzero, h _ (by decide), if_pos hzero, Nat.and_assoc]
    rfl
  · rw [if_neg hzero, h _ (by decide), if_neg hzero, Nat.and_assoc]
    rfl

theorem overwrite_overwrite (id : FileId) (content content' : Content) :
    (d.overwrite id content).overwrite id content' = d.overwrite id content' := by
  rw [overwrite, record?_overwrite, if_pos rfl, bound_overwrite]
  cases hrecord : d.record? id with
  | none => simp [overwrite, hrecord]
  | some record =>
    have hmode : (if d.bound then withoutRights (if d.bound then withoutRights record.mode
        else record.mode) else if d.bound then withoutRights record.mode else record.mode) =
        if d.bound then withoutRights record.mode else record.mode := by
      cases d.bound with
      | true => exact withoutRights_withoutRights record.mode
      | false => rfl
    simp only [Option.map_some, hmode]
    simp only [overwrite, hrecord, Table.set_set]

/-- The disk after `bytes` have been written to a file that was empty. -/
def fill (d : Disk) (id : FileId) (bytes : Bytes) : Disk :=
  if bytes = [] then d else d.overwrite id (.ofBytes bytes)

@[simp] theorem fill_nil (id : FileId) : d.fill id [] = d := if_pos rfl

theorem fill_eq (d : Disk) (id : FileId) (bytes : Bytes) :
    d.fill id bytes = d ∨ d.fill id bytes = d.overwrite id (.ofBytes bytes) := by
  unfold fill
  split
  · exact .inl rfl
  · exact .inr rfl

@[simp] theorem nodes_fill (id : FileId) (bytes : Bytes) : (d.fill id bytes).nodes = d.nodes := by
  rcases d.fill_eq id bytes with h | h <;> rw [h]
  exact nodes_overwrite id _

@[simp] theorem node?_fill (id : FileId) (bytes : Bytes) (q : Place) :
    (d.fill id bytes).node? q = d.node? q := by rw [node?, node?, nodes_fill]

@[simp] theorem bound_fill (id : FileId) (bytes : Bytes) : (d.fill id bytes).bound = d.bound := by
  rcases d.fill_eq id bytes with h | h <;> rw [h]
  exact bound_overwrite id _

@[simp] theorem umask_fill (id : FileId) (bytes : Bytes) : (d.fill id bytes).umask = d.umask := by
  rcases d.fill_eq id bytes with h | h <;> rw [h]
  exact umask_overwrite id _

/-- What an empty file holds after bytes have been written to it. -/
theorem contentOf_fill {id : FileId} (hempty : d.contentOf id = .empty)
    (hrecord : d.record? id ≠ none) (bytes : Bytes) :
    (d.fill id bytes).contentOf id = .ofBytes bytes := by
  unfold fill
  split
  next h =>
    rw [hempty, h]
    rfl
  next => rw [contentOf_overwrite hrecord, if_pos rfl]

/-- Writing where the last write has ended goes on as if it had been one write. -/
theorem perform_fill {id : FileId} (hempty : d.contentOf id = .empty)
    (hrecord : d.record? id ≠ none) (before : Bytes) {bytes : Bytes} (hne : bytes ≠ []) :
    (d.fill id before).perform { target := .file id, offset := before.length } bytes =
      .ok (d.fill id (before ++ bytes)) := by
  have hwrite : (Content.ofBytes before).writeAt before.length bytes =
      .ofBytes (before ++ bytes) := by
    simp [Content.writeAt, Content.ofBytes]
  have hne' : before ++ bytes ≠ [] := fun h => hne (List.append_eq_nil_iff.mp h).2
  unfold perform
  dsimp only
  rw [contentOf_fill hempty hrecord, hwrite, fill, fill, if_neg hne']
  split
  · rfl
  · rw [overwrite_overwrite]

/-! ## 5. Permissions -/

theorem allows_congr {d' : Disk} (h : d'.bound = d.bound) (mode : Nat) (access : Access) :
    d'.allows mode access = d.allows mode access := by
  rw [allows, allows, h]

/-- Writing to a file takes no right to read or write it away. -/
theorem allows_withoutRights {mode : Nat} {access : Access} (haccess : access ≠ .search)
    (h : d.allows mode access) : d.allows (withoutRights mode) access := by
  unfold allows at h ⊢
  cases hbound : d.bound with
  | false => rfl
  | true =>
    rw [hbound] at h
    simp only [Bool.not_true, Bool.false_or, ne_eq, decide_not, Bool.not_eq_true',
      decide_eq_false_iff_not] at h ⊢
    unfold withoutRights
    cases access with
    | search => exact absurd rfl haccess
    | read =>
      split
      · rw [Nat.and_assoc]
        exact h
      · rw [Nat.and_assoc]
        exact h
    | write =>
      split
      · rw [Nat.and_assoc]
        exact h
      · rw [Nat.and_assoc]
        exact h

/-- Writing to a file gives no right to it either. -/
theorem allows_of_withoutRights {mode : Nat} {access : Access}
    (h : d.allows (withoutRights mode) access) : d.allows mode access := by
  unfold allows at h ⊢
  cases hbound : d.bound with
  | false => rfl
  | true =>
    rw [hbound] at h
    simp only [Bool.not_true, Bool.false_or, ne_eq, decide_not, Bool.not_eq_true',
      decide_eq_false_iff_not] at h ⊢
    intro hnone
    refine h ?_
    unfold withoutRights
    split
    · rw [Nat.and_assoc, Nat.and_comm 0o3777, ← Nat.and_assoc, hnone, Nat.zero_and]
    · rw [Nat.and_assoc, Nat.and_comm 0o1777, ← Nat.and_assoc, hnone, Nat.zero_and]

theorem mayUse_congr {d' : Disk} {id : FileId} (hrecord : d'.record? id = d.record? id)
    (hbound : d'.bound = d.bound) (access : Access) :
    d'.mayUse id access = d.mayUse id access := by
  rw [mayUse, mayUse, hrecord, allows_congr hbound]

theorem mayUse_overwrite (id : FileId) (content : Content) (id' : FileId) {access : Access}
    (haccess : access ≠ .search) :
    (d.overwrite id content).mayUse id' access = d.mayUse id' access := by
  have hrecord := record?_overwrite (d := d) id content id'
  by_cases heq : id' = id
  · subst heq
    rw [if_pos rfl] at hrecord
    rw [mayUse, mayUse, hrecord, allows_congr (bound_overwrite ..)]
    cases d.record? id' with
    | none => rfl
    | some record =>
      rw [Option.map_some, Option.map_some, Option.map_some, Option.getD_some, Option.getD_some]
      dsimp only
      split
      · exact Bool.eq_iff_iff.mpr ⟨allows_of_withoutRights, allows_withoutRights haccess⟩
      · rfl
  · rw [if_neg heq] at hrecord
    exact mayUse_congr hrecord (bound_overwrite ..) access

end Disk

end UserVault
