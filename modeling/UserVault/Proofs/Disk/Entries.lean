import UserVault.Proofs.Disk.Tree
import UserVault.Proofs.Disk.Walk

/-!
# What is seen of a tree

Two disks may number their files in different ways and still look the same: at each place stands
the same entry, a file counting as what it holds.  How far plain steps can be taken, and what may be
changed, depends on the entries alone.
-/

namespace UserVault.Disk

/-- What stands at a place, as far as it is seen. -/
inductive Entry
  | directory (mode : Nat)
  | file (content : Bytes)
  | link (target : Bytes)
  | device (device : Device)
  deriving DecidableEq, Repr

def entryOf (d : Disk) : Node → Entry
  | .directory mode => .directory mode
  | .file id => .file (d.contentOf id).bytes
  | .link target => .link target
  | .device device => .device device

/-- An entry, as far as it is seen without looking into files. -/
def Entry.shape : Entry → Entry
  | .file _ => .file []
  | entry => entry

/-- The entry at a place. -/
def entryAt? (d : Disk) (q : Place) : Option Entry := (d.node? q).map d.entryOf

/-- What stands at a place, whatever it holds. -/
def shapeAt? (d : Disk) (q : Place) : Option Entry := (d.entryAt? q).map Entry.shape

/-- The same entries are in both trees. -/
def SameTree (d d' : Disk) : Prop := ∀ q, d'.entryAt? q = d.entryAt? q

/-- The same entries are in both trees, but files may differ in what they hold. -/
def SameShape (d d' : Disk) : Prop := ∀ q, d'.shapeAt? q = d.shapeAt? q

variable {d d' : Disk} {place q : Place}

/-! ## 1. Entries and nodes -/

theorem entryAt?_eq_none : d.entryAt? q = none ↔ d.node? q = none := Option.map_eq_none_iff

theorem entryAt?_eq_directory {mode : Nat} :
    d.entryAt? q = some (.directory mode) ↔ d.node? q = some (.directory mode) := by
  rw [entryAt?]
  rcases d.node? q with _ | node
  · simp
  · cases node <;> simp [entryOf]

theorem entryAt?_eq_file {content : Bytes} :
    d.entryAt? q = some (.file content) ↔
      ∃ id, d.node? q = some (.file id) ∧ (d.contentOf id).bytes = content := by
  rw [entryAt?]
  rcases d.node? q with _ | node
  · simp
  · cases node <;> simp [entryOf]

theorem entryAt?_of_file {id : FileId} (h : d.node? q = some (.file id)) :
    d.entryAt? q = some (.file (d.contentOf id).bytes) := by
  rw [entryAt?, h]
  rfl

theorem shapeAt?_congr (h : d'.entryAt? q = d.entryAt? q) : d'.shapeAt? q = d.shapeAt? q := by
  rw [shapeAt?, shapeAt?, h]

theorem SameTree.shape (h : SameTree d d') : SameShape d d' := fun q => shapeAt?_congr (h q)

/-- An entry stays if the node does, and what it holds if it is a file. -/
theorem entryAt?_congr (hnode : d'.node? q = d.node? q)
    (hcontent : ∀ id, d.node? q = some (.file id) → d'.contentOf id = d.contentOf id) :
    d'.entryAt? q = d.entryAt? q := by
  rw [entryAt?, entryAt?, hnode]
  cases hq : d.node? q with
  | none => rfl
  | some node =>
    cases node with
    | file id => simp [entryOf, hcontent id hq]
    | _ => rfl

/-! ## 2. Changes -/

theorem entryAt?_addDirectory (hplace : place ≠ []) (q : Place) :
    (d.addDirectory place).entryAt? q =
      if q = place then some (.directory (d.grant 0o777)) else d.entryAt? q := by
  by_cases hq : q = place
  · rw [if_pos hq, entryAt?_eq_directory, node?_addDirectory hplace, if_pos hq]
  · rw [if_neg hq]
    refine entryAt?_congr ?_ fun _ _ => rfl
    rw [node?_addDirectory hplace, if_neg hq]

theorem entryAt?_drop (hplace : place ≠ []) (q : Place) :
    (d.drop place).entryAt? q = if q = place then none else d.entryAt? q := by
  by_cases hq : q = place
  · rw [if_pos hq, entryAt?_eq_none, node?_drop hplace, if_pos hq]
  · rw [if_neg hq]
    refine entryAt?_congr ?_ fun _ _ => rfl
    rw [node?_drop hplace, if_neg hq]

theorem entryAt?_put (hplace : place ≠ []) (node : Node) (q : Place) :
    (d.put place node).entryAt? q = if q = place then some (d.entryOf node) else d.entryAt? q := by
  by_cases hq : q = place
  · rw [if_pos hq, entryAt?, node?_put hplace, if_pos hq]
    cases node <;> rfl
  · rw [if_neg hq]
    refine entryAt?_congr ?_ fun _ _ => rfl
    rw [node?_put hplace, if_neg hq]

/-- A new file is empty, where its identity was not in use. -/
theorem entryAt?_addFile (hplace : place ≠ [])
    (hnew : ∀ q, d.node? q ≠ some (.file d.nextFile)) (q : Place) :
    (d.addFile place).2.entryAt? q = if q = place then some (.file []) else d.entryAt? q := by
  by_cases hq : q = place
  · rw [if_pos hq, entryAt?_eq_file]
    refine ⟨d.nextFile, by rw [node?_addFile hplace, if_pos hq], ?_⟩
    rw [contentOf_addFile, if_pos rfl]
    rfl
  · rw [if_neg hq]
    refine entryAt?_congr (by rw [node?_addFile hplace, if_neg hq]) fun id hid => ?_
    rw [contentOf_addFile, if_neg]
    rintro rfl
    exact hnew q hid

section
variable {id : FileId} (hrecord : d.record? id ≠ none) (hnode : d.node? place = some (.file id))
  (hsingle : ∀ q, d.node? q = some (.file id) → q = place)
include hrecord hnode hsingle

/-- Writing to a file that has one name changes the entry of this name. -/
theorem entryAt?_overwrite (content : Content) (q : Place) :
    (d.overwrite id content).entryAt? q =
      if q = place then some (.file content.bytes) else d.entryAt? q := by
  by_cases hq : q = place
  · rw [if_pos hq, entryAt?_eq_file]
    refine ⟨id, by rw [node?_overwrite, hq, hnode], ?_⟩
    rw [contentOf_overwrite hrecord, if_pos rfl]
  · rw [if_neg hq]
    refine entryAt?_congr (node?_overwrite id content q) fun id' hid' => ?_
    rw [contentOf_overwrite hrecord, if_neg]
    rintro rfl
    exact hq (hsingle q hid')

theorem entryAt?_fill (hempty : d.contentOf id = .empty) (bytes : Bytes) (q : Place) :
    (d.fill id bytes).entryAt? q = if q = place then some (.file bytes) else d.entryAt? q := by
  by_cases hnil : bytes = []
  · rw [hnil, fill_nil]
    split
    next hq =>
      rw [hq, entryAt?_of_file hnode, hempty]
      rfl
    next => rfl
  · rw [fill, if_neg hnil, entryAt?_overwrite hrecord hnode hsingle, Content.bytes_ofBytes]

end

/-! ## 3. What depends on entries alone -/

theorem approach_cons (d : Disk) (place : Place) (step : Name) (steps : List Name) :
    d.approach place (step :: steps) =
      match d.entryAt? place with
      | none => .error .noEntry
      | some (.directory mode) =>
        if !d.allows mode .search then .error .accessDenied
        else if maxName < step.length then .error .nameTooLong
        else d.approach (place ++ [step]) steps
      | some _ => .error .notDirectory := by
  rw [approach, entryAt?]
  rcases d.node? place with _ | node
  · rfl
  · cases node <;> rfl

theorem approach_congr (hbound : d'.bound = d.bound) {start : Place} {steps : List Name}
    (h : ∀ more, more.length < steps.length →
      d'.entryAt? (start ++ more) = d.entryAt? (start ++ more)) :
    d'.approach start steps = d.approach start steps := by
  induction steps generalizing start with
  | nil => rfl
  | cons step steps ih =>
    have hstart := h [] (Nat.succ_pos _)
    rw [List.append_nil] at hstart
    have hnext : d'.approach (start ++ [step]) steps = d.approach (start ++ [step]) steps := by
      refine ih fun more hmore => ?_
      rw [List.append_assoc]
      exact h _ (Nat.succ_lt_succ hmore)
    simp only [approach_cons, hstart, allows_congr hbound, hnext]

/-- Where plain steps can be taken, they can be taken as long as the directories are there. -/
theorem approach_mono (hbound : d'.bound = d.bound)
    (hnodes : ∀ q mode, d.node? q = some (.directory mode) → d'.node? q = some (.directory mode))
    {start : Place} {steps : List Name} (h : d.approach start steps = .ok ()) :
    d'.approach start steps = .ok () := by
  induction steps generalizing start with
  | nil => rfl
  | cons step steps ih =>
    rw [approach] at h ⊢
    split at h
    · cases h
    next mode hstart =>
      rw [hnodes start mode hstart]
      simp only [allows_congr hbound]
      split at h
      · cases h
      next hsearch =>
        rw [if_neg hsearch]
        split at h
        · cases h
        next hlength =>
          rw [if_neg hlength]
          exact ih h
    · cases h

/-- Plain steps can be taken to a place only if there is a directory above it. -/
theorem directory_of_approach {start : Place} {steps : List Name} (hne : steps ≠ [])
    (h : d.approach start steps = .ok ()) :
    ∃ mode, d.node? (start ++ steps).dropLast = some (.directory mode) ∧
      d.allows mode .search := by
  induction steps generalizing start with
  | nil => exact absurd rfl hne
  | cons step steps ih =>
    rw [approach_cons] at h
    split at h
    · cases h
    next mode hstart =>
      split at h
      · cases h
      next hsearch =>
        split at h
        · cases h
        · by_cases hlast : steps = []
          · subst hlast
            refine ⟨mode, ?_, by simpa using hsearch⟩
            rw [List.dropLast_concat]
            exact entryAt?_eq_directory.mp hstart
          · have hrest := ih hlast h
            rwa [List.append_assoc] at hrest
    · cases h

theorem mayChange_iff : d.mayChange place = true ↔
    ∀ mode, d.node? place.dropLast = some (.directory mode) → d.allowsChange mode = true := by
  have hfree (hbound : d.bound = false) (mode : Nat) : d.allowsChange mode = true := by
    simp [allowsChange, allows, hbound]
  rw [mayChange]
  cases hbound : d.bound with
  | false => simpa using fun mode _ => hfree hbound mode
  | true =>
    rcases d.node? place.dropLast with _ | node
    · simp
    · cases node <;> simp

theorem mayChange_congr (hbound : d'.bound = d.bound)
    (hparent : ∀ mode, d'.node? place.dropLast = some (.directory mode) ↔
      d.node? place.dropLast = some (.directory mode)) :
    d'.mayChange place = d.mayChange place := by
  rw [Bool.eq_iff_iff, mayChange_iff, mayChange_iff]
  simp only [hparent, allowsChange, allows_congr hbound]

/-- What comes to stand at a place does not change the directory that it is in. -/
theorem mayChange_addFile (hplace : place ≠ []) :
    (d.addFile place).2.mayChange place = d.mayChange place := by
  have hne : place.dropLast ≠ place := by
    intro heq
    have hlength := congrArg List.length heq
    have hpos := List.length_pos_iff.mpr hplace
    rw [List.length_dropLast] at hlength
    omega
  have hnode := node?_addFile (d := d) hplace place.dropLast
  rw [if_neg hne] at hnode
  have hbound : (d.addFile place).2.bound = d.bound := rfl
  exact mayChange_congr hbound fun mode => by rw [hnode]

@[simp] theorem mayChange_overwrite (id : FileId) (content : Content) (q : Place) :
    (d.overwrite id content).mayChange q = d.mayChange q :=
  mayChange_congr (bound_overwrite id content) fun mode => by rw [node?_overwrite]

@[simp] theorem mayChange_fill (id : FileId) (bytes : Bytes) (q : Place) :
    (d.fill id bytes).mayChange q = d.mayChange q :=
  mayChange_congr (bound_fill id bytes) fun mode => by rw [node?_fill]

end UserVault.Disk
