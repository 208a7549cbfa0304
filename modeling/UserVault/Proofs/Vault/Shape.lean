import Mathlib.Data.Set.Function
import UserVault.Proofs.Vault.Standing

/-!
# The shape of a vault's tree

Whatever a crowd does, and whatever names and bodies it brings, what there is below the vault's
directory has one shape: the directory for files on their way in, directories of users, and regular
files in them.  A directory of a user stays once it is there.  Nothing outside is touched.
-/

namespace UserVault.Vault

open Disk

variable {v : Vault} {root : Place} {d₀ : Disk} {c : Crowd}

/-! ## 1. The shape -/

/-- The path of the file that a store has aside: it has been made, and neither been put in its
place nor discarded. -/
def Crowd.aside? (c : Crowd) (i : Nat) : Option Path :=
  match c.stores i with
  | some p => p.upload.opened?.join
  | none => none

/-- What a crowd has made of the disk `d₀`, with the vault's directory at `root`. -/
structure Crowd.Shaped (v : Vault) (root : Place) (d₀ : Disk) (c : Crowd) : Prop where
  /-- The vault's directory has directories only: that for files on their way in, and those of
  users. -/
  base : ∀ name node, c.state.disk.node? (root ++ [name]) = some node →
    (∃ mode, node = .directory mode) ∧
      (name = stagingName ∨ ∃ user : UInt32, Decimal.IsNumeral name user.toNat)
  staging : ∃ mode, c.state.disk.node? (root ++ [stagingName]) = some (.directory mode)
  /-- A user's directory has regular files only, under names that are accepted. -/
  files : ∀ (user : UInt32) name node,
    c.state.disk.node? (root ++ [Decimal.encode user.toNat, name]) = some node →
      (∃ id, node = .file id) ∧ accepts name
  /-- There is nothing further down. -/
  depth : ∀ steps node, c.state.disk.node? (root ++ steps) = some node → steps.length ≤ 2
  /-- A user has a directory only if somebody has come with an order under an accepted name. -/
  begun : ∀ (user : UInt32) node,
    c.state.disk.node? (root ++ [Decimal.encode user.toNat]) = some node →
      ∃ i p, c.stores i = some p ∧ p.order.user = user ∧ accepts p.order.name
  /-- On their way in there are regular files, one for each store that has a file aside. -/
  regular : ∀ name node, c.state.disk.node? (root ++ [stagingName, name]) = some node →
    ∃ id, node = .file id
  aside : Set.BijOn c.aside? {i | c.aside? i ≠ none}
    {path | ∃ name node, path = some (v.stagingDirectory.join name) ∧
      c.state.disk.node? (root ++ [stagingName, name]) = some node}
  inPlace : v.options.atomic = false →
    ∀ name, c.state.disk.node? (root ++ [stagingName, name]) = none
  /-- All places outside the vault are as they were, and so are all files that were there. -/
  outside : ∀ q, (∀ name steps, q ≠ root ++ name :: steps) →
    c.state.disk.node? q = d₀.node? q
  record : ∀ id, id < d₀.nextFile → c.state.disk.record? id = d₀.record? id

/-- What stands below a vault's directory stands at a spot. -/
theorem Orderly.exists_spot {d : Disk} (h : Orderly v root d₀ d) {steps : List Name}
    (hsteps : steps ≠ []) {node : Node} (hnode : d.node? (root ++ steps) = some node) :
    ∃ spot : Spot, spot.Valid ∧ steps = spot.steps ∧ Fits d node spot := by
  have hbelow : isBelow root (root ++ steps) = true := isBelow_iff.mpr ⟨steps, hsteps, rfl⟩
  rw [node?_of_ne (isBelow_ne_nil hbelow)] at hnode
  obtain ⟨spot, hvalid, hplace, hfits⟩ := h.inside _ _ (Table.mem_of_get? hnode) hbelow
  exact ⟨spot, hvalid, List.append_cancel_left hplace, hfits⟩

-- The two kinds of entries that are two steps down are told apart by the first step.
theorem Orderly.exists_staged {d : Disk} (h : Orderly v root d₀ d) {name : Name} {node : Node}
    (hnode : d.node? (root ++ [stagingName, name]) = some node) :
    ∃ number id, name = stagedName number ∧ node = .file id ∧
      d.node? (Spot.under (.staged number) root) = some node := by
  obtain ⟨spot, -, hsteps, hfits⟩ := h.exists_spot (by simp) hnode
  cases spot with
  | staging | folder => simp [Spot.steps] at hsteps
  | file user name' =>
    exact absurd (List.cons.inj hsteps).1.symm (Spot.numeral_ne_stagingName _)
  | staged number =>
    obtain ⟨id, rfl, -⟩ := hfits
    have hname : name = stagedName number := (List.cons.inj (List.cons.inj hsteps).2).1
    subst hname
    exact ⟨number, id, rfl, rfl, hnode⟩

theorem Orderly.exists_file {d : Disk} (h : Orderly v root d₀ d) {user : UInt32} {name : Name}
    {node : Node} (hnode : d.node? (root ++ [Decimal.encode user.toNat, name]) = some node) :
    (∃ id, node = .file id) ∧ accepts name := by
  obtain ⟨spot, hvalid, hsteps, hfits⟩ := h.exists_spot (by simp) hnode
  cases spot with
  | staging | folder => simp [Spot.steps] at hsteps
  | staged number => exact absurd (List.cons.inj hsteps).1 (Spot.numeral_ne_stagingName _)
  | file user' name' =>
    obtain ⟨id, rfl, -⟩ := hfits
    have hname : name = name' := (List.cons.inj (List.cons.inj hsteps).2).1
    exact ⟨⟨id, rfl⟩, hname ▸ hvalid⟩

theorem Crowd.aside?_eq_some {i : Nat} {path : Path} :
    c.aside? i = some path ↔
      ∃ p, c.stores i = some p ∧ p.upload.opened? = some (some path) := by
  unfold aside?
  cases c.stores i with
  | none => simp
  | some p => simp [Option.join_eq_some_iff]

/-- Files aside and the stores that have them belong together, one by one. -/
theorem Crowd.Standing.bijOn_aside (h : c.Standing v root d₀) :
    Set.BijOn c.aside? {i | c.aside? i ≠ none}
      {path | ∃ name node, path = some (v.stagingDirectory.join name) ∧
        c.state.disk.node? (root ++ [stagingName, name]) = some node} := by
  have htree := h.tidy.tree
  refine ⟨fun i hi => ?_, fun i hi j hj heq => ?_, ?_⟩
  · obtain ⟨path, hpath⟩ := Option.ne_none_iff_exists'.mp hi
    obtain ⟨p, hp, hopened⟩ := Crowd.aside?_eq_some.mp hpath
    -- a store that is over has nothing open, and any other one has its file at a spot
    rcases h.tidy.stores i p hp with ⟨result, hstage⟩ | ⟨-, hplaced⟩
    · rw [Upload.opened?, hstage] at hopened
      cases hopened
    · obtain ⟨spot, hown⟩ := hplaced.opened _ hopened
      generalize hstaged : some path = staged at hown
      cases hown with
      | inPlace => cases hstaged
      | aside hatomic number hfits =>
        cases hstaged
        obtain ⟨id, hnode, -⟩ := (h.stores i p hp).aside number hopened
        refine ⟨stagedName number, .file id, ?_, hnode⟩
        rw [hpath, stagedName, join_stagedName]
  · obtain ⟨path, hpath⟩ := Option.ne_none_iff_exists'.mp hi
    obtain ⟨p, hp, hopened⟩ := Crowd.aside?_eq_some.mp hpath
    obtain ⟨q, hq, hopened'⟩ := Crowd.aside?_eq_some.mp (heq.symm.trans hpath)
    by_contra hne
    exact h.distinct i j p q path hne hp hq hopened hopened'
  · rintro - ⟨name, node, rfl, hnode⟩
    obtain ⟨number, id, rfl, rfl, hspot⟩ := htree.exists_staged hnode
    obtain ⟨i, p, hp, hopened⟩ := h.owned number _ hspot
    have haside := Crowd.aside?_eq_some.mpr ⟨p, hp, hopened⟩
    refine ⟨i, ?_, ?_⟩
    · show c.aside? i ≠ none
      rw [haside]
      exact Option.some_ne_none _
    · rw [haside, stagedName, join_stagedName]

/-- A crowd in which all stand well has given the tree its shape. -/
theorem Crowd.Standing.shaped (h : c.Standing v root d₀) : c.Shaped v root d₀ := by
  have htree := h.tidy.tree
  refine ⟨fun name node hnode => ?_, ?_, fun user name node => htree.exists_file,
    fun steps node hnode => ?_, fun user node hnode => ?_, fun name node hnode => ?_,
    h.bijOn_aside, fun hinPlace name => ?_, fun q hq => ?_, h.fresh.records⟩
  · obtain ⟨spot, -, hsteps, hfits⟩ := htree.exists_spot (by simp) hnode
    cases spot with
    | staged | file => simp [Spot.steps] at hsteps
    | staging =>
      obtain ⟨mode, rfl, -⟩ := hfits
      exact ⟨⟨mode, rfl⟩, .inl (List.cons.inj hsteps).1⟩
    | folder user =>
      obtain ⟨mode, rfl, -⟩ := hfits
      refine ⟨⟨mode, rfl⟩, .inr ⟨user, ?_⟩⟩
      rw [(List.cons.inj hsteps).1]
      exact Decimal.isNumeral_encode _
  · obtain ⟨mode, hnode, -⟩ := htree.staging_directory
    exact ⟨mode, hnode⟩
  · by_cases hsteps : steps = []
    · rw [hsteps]
      exact Nat.zero_le 2
    · obtain ⟨spot, -, rfl, -⟩ := htree.exists_spot hsteps hnode
      cases spot <;> simp [Spot.steps]
  · exact h.folders user node hnode
  · obtain ⟨-, id, -, rfl, -⟩ := htree.exists_staged hnode
    exact ⟨id, rfl⟩
  · -- a file aside would be some store's, and stores have none
    cases hnode : c.state.disk.node? (root ++ [stagingName, name]) with
    | none => rfl
    | some node =>
      obtain ⟨number, id, rfl, rfl, hspot⟩ := htree.exists_staged hnode
      obtain ⟨i, p, hp, hopened⟩ := h.owned number _ hspot
      rcases h.tidy.stores i p hp with ⟨result, hstage⟩ | ⟨-, hplaced⟩
      · rw [Upload.opened?, hstage] at hopened
        cases hopened
      · obtain ⟨spot, hown⟩ := hplaced.opened _ hopened
        generalize hstaged : some (v.pathOf (.staged number)) = staged at hown
        cases hown with
        | inPlace => cases hstaged
        | aside hatomic =>
          rw [hinPlace] at hatomic
          cases hatomic
  · refine htree.outside q ?_
    cases hbelow : isBelow root q with
    | false => rfl
    | true =>
      obtain ⟨steps, hne, rfl⟩ := isBelow_iff.mp hbelow
      obtain ⟨name, steps', rfl⟩ := List.exists_cons_of_ne_nil hne
      exact absurd rfl (hq name steps')

/-! ## 2. All that a crowd can come to -/

namespace Crowd

/-- No step takes a user's directory away. -/
theorem Standing.folder_step (hbase : EmptyBase v d₀ root) (h : c.Standing v root d₀)
    (action : Action) (user : UInt32) {node : Node}
    (hnode : c.state.disk.node? (Spot.under (.folder user) root) = some node) :
    (c.step v action).state.disk.node? (Spot.under (.folder user) root) = some node := by
  cases action with
  | advanceStore i fault =>
    simp only [Crowd.step]
    split
    · exact hnode
    next p hp =>
      split
      · exact ((h.tidy.stores i p hp).advances hbase h.tidy.tree h.fresh (h.stores i p hp)
          fault).recordsKept.folder user node hnode
      · exact hnode
  | advanceRemoval i fault =>
    simp only [Crowd.step]
    split
    · exact hnode
    next p hp =>
      split
      · obtain ⟨r, hrecords⟩ := (h.tidy.removals i p hp).recordsKept hbase h.tidy.tree fault
        exact hrecords.folder user node hnode
      · exact hnode
  | store | remove | restore | list | read =>
    simp only [Crowd.step]
    first
      | exact hnode
      | split <;> exact hnode

theorem Standing.folder_run (hbase : EmptyBase v d₀ root) (h : c.Standing v root d₀)
    (actions : List Action) (user : UInt32) {node : Node}
    (hnode : c.state.disk.node? (Spot.under (.folder user) root) = some node) :
    (run v c actions).state.disk.node? (Spot.under (.folder user) root) = some node :=
  (run_induction
    (motive := fun c => c.Standing v root d₀ ∧
      c.state.disk.node? (Spot.under (.folder user) root) = some node) actions
    (fun _ action hc => ⟨hc.1.step hbase action, hc.1.folder_step hbase action user hc.2⟩)
    ⟨h, hnode⟩).2

/-- A vault that starts in an empty directory can be prepared, and whatever a crowd does in it
then, step by step, at any moment its tree has its shape.  A user's directory that is there at some
moment is there from then on. -/
theorem shaped_run (hbase : EmptyBase v d₀ root) (actions : List Action) :
    (v.prepare d₀).1 = .ok () ∧ (run v (start v d₀) actions).Shaped v root d₀ ∧
      ∀ (later : List Action) (user : UInt32) (node : Node),
        (run v (start v d₀) actions).state.disk.node? (root ++ [Decimal.encode user.toNat]) =
          some node →
        (run v (start v d₀) (actions ++ later)).state.disk.node?
          (root ++ [Decimal.encode user.toNat]) = some node := by
  have hstanding := standing_run hbase actions
  refine ⟨by rw [prepare_eq hbase], hstanding.shaped, fun later user node hnode => ?_⟩
  rw [run, List.foldl_append]
  exact hstanding.folder_run hbase later user hnode

/-- Of two stores one is under way and the other one has a name that is not accepted. -/
theorem shaped_run_two :
    let v : Vault := { base := { absolute := true, steps := [] } }
    let d : Disk := {}
    let actions : List Action :=
      [.store 0 ⟨7, [0x61], 3, .ofBytes [1, 2]⟩, .store 1 ⟨8, [0x2F], 0, .ofBytes []⟩,
        .advanceStore 0 none, .advanceStore 0 none, .advanceStore 1 none, .remove 0 7 [0x61],
        .advanceRemoval 0 none]
    (v.prepare d).1 = .ok () ∧ (run v (start v d) actions).Shaped v [] d ∧
      ∀ (later : List Action) (user : UInt32) (node : Node),
        (run v (start v d) actions).state.disk.node? ([] ++ [Decimal.encode user.toNat]) =
          some node →
        (run v (start v d) (actions ++ later)).state.disk.node?
          ([] ++ [Decimal.encode user.toNat]) = some node := by
  intro v d actions
  exact shaped_run (emptyBase_root _) actions

end Crowd

end UserVault.Vault
