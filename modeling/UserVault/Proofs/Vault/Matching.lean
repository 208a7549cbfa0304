import UserVault.Proofs.Vault.Landings
import UserVault.Proofs.Vault.Removals

/-!
# Vaults that cannot be told apart

Two vaults that share a directory and nothing else, neither the way in which they write nor the size
of their chunks nor their turns, do the same in trees that look the same (`Matched`), and leave
trees that look the same.  The trees may number their files in different ways, and differ in the
permissions of files as long as these forbid nothing.
-/

namespace UserVault.Vault

open Disk Link

variable {v v' : Vault} {root : Place} {d d' : Disk}

/-- The trees of two vaults look the same, and nothing is forbidden in them. -/
structure Matched (v v' : Vault) (root : Place) (d d' : Disk) : Prop where
  tree : SameTree d d'
  bound : d'.bound = d.bound
  umask : d'.umask = d.umask
  left : Unhindered v root d
  right : Unhindered v' root d'
  room : Roomy v root d

theorem matched_refl (hbase : v'.base = v.base) (h : Unhindered v root d) (hroom : Roomy v root d) :
    Matched v v' root d d := ⟨fun _ => rfl, rfl, rfl, h, h.of_base hbase, hroom⟩

theorem pathOf_of_base (hbase : v'.base = v.base) (spot : Spot) :
    v'.pathOf spot = v.pathOf spot := by
  rw [pathOf, pathOf, hbase]

theorem resolve_of_base (hbase : v'.base = v.base) (user : UInt32) (name : Bytes) :
    v'.resolve user name = v.resolve user name := by
  unfold resolve userDirectory
  rw [hbase]

namespace Matched

/-! ## 1. What does not tell them apart -/

theorem mayChange_eq (h : Matched v v' root d d') (place : Place) :
    d'.mayChange place = d.mayChange place := by
  refine mayChange_congr h.bound fun mode => ?_
  rw [← entryAt?_eq_directory, ← entryAt?_eq_directory, h.tree]

/-- The same kind of node stands at both places, and files hold the same. -/
theorem node_cases (h : Matched v v' root d d') {q : Place} (hbelow : isBelow root q) :
    (d.node? q = none ∧ d'.node? q = none) ∨
      (∃ mode, d.node? q = some (.directory mode) ∧ d'.node? q = some (.directory mode)) ∨
      ∃ id id', d.node? q = some (.file id) ∧ d'.node? q = some (.file id') ∧
        (d'.contentOf id').bytes = (d.contentOf id).bytes := by
  have htree := h.tree q
  cases hnode : d.node? q with
  | none =>
    rw [entryAt?_eq_none.mpr hnode, entryAt?_eq_none] at htree
    exact .inl ⟨rfl, htree⟩
  | some node =>
    rcases h.left.ground.kinds q node hbelow hnode with ⟨mode, rfl⟩ | ⟨id, rfl⟩
    · rw [entryAt?_eq_directory.mpr hnode, entryAt?_eq_directory] at htree
      exact .inr (.inl ⟨mode, rfl, htree⟩)
    · rw [entryAt?_of_file hnode, entryAt?_eq_file] at htree
      obtain ⟨id', hnode', hcontent⟩ := htree
      exact .inr (.inr ⟨id, id', rfl, hnode', hcontent⟩)

variable (hbase : v'.base = v.base)
include hbase

theorem reach_eq (h : Matched v v' root d d') (spot : Spot) :
    reach v' root d' spot = reach v root d spot := by
  rw [reach, reach, pathOf_of_base hbase, approach_congr h.bound fun more _ => h.tree _]

theorem admits_eq (h : Matched v v' root d d') (user : UInt32) (name : Bytes) :
    admits v' root d' user name = admits v root d user name := by
  rw [admits, admits, h.reach_eq hbase, h.tree, h.mayChange_eq]

theorem roomy (h : Matched v v' root d d') : Roomy v' root d' := by
  have haside : SameAside root d d' := fun name => h.tree _
  obtain ⟨n, hshort, hfree⟩ := h.room.congr haside
  refine ⟨n, ?_, hfree⟩
  unfold TooLong at hshort ⊢
  rwa [pathOf_of_base hbase]

/-! ## 2. What they do -/

theorem makeDirectories (h : Matched v v' root d d') (user : UInt32) :
    (d'.makeDirectories (v'.userDirectory user)).1 = (d.makeDirectories (v.userDirectory user)).1 ∧
      Matched v v' root (d.makeDirectories (v.userDirectory user)).2
        (d'.makeDirectories (v'.userDirectory user)).2 := by
  have hleft := h.left.makeDirectories user
  have hright := h.right.makeDirectories user
  have hroom := h.room.congr hleft.aside
  have hne := Spot.under_ne_nil (.folder user) root
  have hboth : (d'.makeDirectories (v'.userDirectory user)).1 =
        (d.makeDirectories (v.userDirectory user)).1 ∧
      SameTree (d.makeDirectories (v.userDirectory user)).2
        (d'.makeDirectories (v'.userDirectory user)).2 := by
    rw [h.left.ground.makeDirectories_eq, h.right.ground.makeDirectories_eq, h.reach_eq hbase,
      h.tree, h.mayChange_eq]
    cases reach v root d (.folder user) with
    | error e => exact ⟨rfl, h.tree⟩
    | ok _ =>
      rcases d.entryAt? (Spot.under (.folder user) root) with _ | entry
      · cases d.mayChange (Spot.under (.folder user) root) with
        | false => exact ⟨rfl, h.tree⟩
        | true =>
          refine ⟨rfl, fun q => ?_⟩
          show (d'.addDirectory _).entryAt? q = (d.addDirectory _).entryAt? q
          rw [entryAt?_addDirectory hne, entryAt?_addDirectory hne, grant, grant, h.umask, h.tree]
      · cases entry <;> exact ⟨rfl, h.tree⟩
  exact ⟨hboth.1, hboth.2, by rw [hleft.bound, hright.bound, h.bound],
    by rw [hleft.umask, hright.umask, h.umask], hleft.unhindered, hright.unhindered, hroom⟩

variable {s s' : State}

/-- Two stores of the same payload, all of which is there, both succeed or both fail. -/
theorem store (h : Matched v v' root s.disk s'.disk) (user : UInt32) (name : Bytes)
    {length : UInt32} {payload : Bytes} (hlength : payload.length = length.toNat) :
    let stored := v.store s user name length (.ofBytes payload)
    let stored' := v'.store s' user name length (.ofBytes payload)
    stored'.result.isOk = stored.result.isOk ∧
      Matched v v' root stored.state.disk stored'.state.disk ∧
      SameAside root s.disk stored.state.disk := by
  have hfront : (Source.ofBytes payload).front = payload ++ [] := by
    rw [Source.front_ofBytes, List.append_nil]
  by_cases hname : accepts name
  · obtain ⟨hmade, hmatched⟩ := h.makeDirectories hbase user
    obtain ⟨hresult, hlands⟩ := h.left.store h.room user hname hlength hfront
    obtain ⟨hresult', hlands'⟩ := h.right.store (h.roomy hbase) user hname hlength hfront
    rw [hmade, hmatched.admits_eq hbase] at hresult' hlands'
    refine ⟨hresult'.trans hresult.symm, ⟨fun q => ?_, ?_, ?_, hlands.unhindered,
      hlands'.unhindered, ?_⟩, (h.left.makeDirectories user).aside.trans hlands.aside⟩
    · rw [hlands.entry, hlands'.entry, hmatched.tree]
    · rw [hlands.bound, hlands'.bound, hmatched.bound]
    · rw [hlands.umask, hlands'.umask, hmatched.umask]
    · exact hmatched.room.congr hlands.aside
  · obtain ⟨fault, hresolve⟩ := resolve_of_not_accepts v user hname
    obtain ⟨fault', hresolve'⟩ := resolve_of_not_accepts v' user hname
    rw [store_of_resolve hresolve, store_of_resolve hresolve']
    exact ⟨rfl, h, fun _ => rfl⟩

/-- A file is taken away on both sides, or stays on both. -/
theorem unlink (h : Matched v v' root d d') (user : UInt32) {name : Bytes} (hname : accepts name) :
    (d'.unlink (v'.pathOf (.file user name))).map (fun _ => ()) =
        (d.unlink (v.pathOf (.file user name))).map (fun _ => ()) ∧
      Matched v v' root (withdraw d (v.pathOf (.file user name)))
        (withdraw d' (v'.pathOf (.file user name))) ∧
      SameAside root d (withdraw d (v.pathOf (.file user name))) := by
  have hplace := isBelow_under (.file user name) root
  have hne := Spot.under_ne_nil (.file user name) root
  rw [withdraw, withdraw, h.left.ground.unlink_spot (.file user name) hname,
    h.right.ground.unlink_spot (.file user name) hname, h.reach_eq hbase, h.mayChange_eq]
  cases reach v root d (.file user name) with
  | error e => exact ⟨rfl, h, fun _ => rfl⟩
  | ok _ =>
    rcases h.node_cases hplace with ⟨hnode, hnode'⟩ | ⟨mode, hnode, hnode'⟩ |
      ⟨id, id', hnode, hnode', -⟩
    · rw [hnode, hnode']
      exact ⟨rfl, h, fun _ => rfl⟩
    · rw [hnode, hnode']
      cases d.mayChange (Spot.under (.file user name) root) with
      | false => exact ⟨rfl, h, fun _ => rfl⟩
      | true => exact ⟨rfl, h, fun _ => rfl⟩
    · rw [hnode, hnode', h.left.mayChange hplace hnode]
      have haside : SameAside root d (d.drop (Spot.under (.file user name) root)) := fun name' => by
        rw [entryAt?_drop hne, if_neg (aside_ne_file name' user name)]
      refine ⟨rfl, ⟨fun q => ?_, h.bound, h.umask, h.left.drop hplace hnode,
        h.right.drop hplace hnode', h.room.congr haside⟩, haside⟩
      show (d'.drop _).entryAt? q = (d.drop _).entryAt? q
      rw [entryAt?_drop hne, entryAt?_drop hne, h.tree]

theorem remove (h : Matched v v' root s.disk s'.disk) (user : UInt32) (name : Bytes) :
    (v'.remove s' user name).1 = (v.remove s user name).1 ∧
      Matched v v' root (v.remove s user name).2.disk (v'.remove s' user name).2.disk ∧
      SameAside root s.disk (v.remove s user name).2.disk := by
  by_cases hname : accepts name
  · obtain ⟨hresult, hdisk⟩ := remove_of_accepts v s user hname
    obtain ⟨hresult', hdisk'⟩ := remove_of_accepts v' s' user hname
    obtain ⟨hsame, hmatched⟩ := h.unlink hbase user hname
    rw [hresult, hresult', hdisk, hdisk', hsame]
    exact ⟨rfl, hmatched⟩
  · obtain ⟨fault, hresolve⟩ := resolve_of_not_accepts v user hname
    have hresolve' := (resolve_of_base hbase user name).trans hresolve
    rw [remove_of_resolve hresolve, remove_of_resolve hresolve']
    exact ⟨rfl, h, fun _ => rfl⟩

/-- What is handed out is the same. -/
theorem retrieve (h : Matched v v' root d d') (user : UInt32) (name : Bytes) :
    (v'.retrieve d' user name).map (fun opened => (d'.contentOf opened.file).bytes) =
      (v.retrieve d user name).map fun opened => (d.contentOf opened.file).bytes := by
  have hplace := isBelow_under (.file user name) root
  by_cases hname : accepts name
  · unfold Vault.retrieve
    rw [resolve_of_accepts v user hname, resolve_of_accepts v' user hname]
    dsimp only
    rw [h.left.ground.openRead_spot (.file user name) hname,
      h.right.ground.openRead_spot (.file user name) hname, h.reach_eq hbase]
    cases reach v root d (.file user name) with
    | error e => rfl
    | ok _ =>
      rcases h.node_cases hplace with ⟨hnode, hnode'⟩ | ⟨mode, hnode, hnode'⟩ |
        ⟨id, id', hnode, hnode', hcontent⟩
      · rw [hnode, hnode']
        rfl
      · rw [hnode, hnode']
        simp only [openFound, allows_congr h.bound]
        by_cases hread : d.allows mode .read
        · simp only [hread, if_true, Except.map]
        · simp only [hread, Bool.false_eq_true, if_false, Except.map]
      · have hmay := (h.left.usable _ id hplace hnode).mayUse .read (by decide)
        have hmay' := (h.right.usable _ id' hplace hnode').mayUse .read (by decide)
        have hsize : (d'.contentOf id').size = (d.contentOf id).size := by
          rw [← Content.length_bytes, ← Content.length_bytes, hcontent]
        rw [hnode, hnode']
        simp only [openFound, hmay, hmay', if_true, hsize]
        split
        · simp only [Except.map, hcontent]
        · rfl
  · obtain ⟨fault, hresolve⟩ := resolve_of_not_accepts v user hname
    rw [Vault.retrieve, Vault.retrieve, resolve_of_base hbase, hresolve]
    rfl

theorem list (h : Matched v v' root d d') (user : UInt32) : v'.list d' user = v.list d user := by
  have hplace := isBelow_under (.folder user) root
  have hnames : v'.listNames d' user = v.listNames d user := by
    rw [listNames, listNames, userDirectory_eq, userDirectory_eq,
      h.left.ground.readDirectory_spot (.folder user) trivial,
      h.right.ground.readDirectory_spot (.folder user) trivial, h.reach_eq hbase]
    cases reach v root d (.folder user) with
    | error e => rfl
    | ok _ =>
      rcases h.node_cases hplace with ⟨hnode, hnode'⟩ | ⟨mode, hnode, hnode'⟩ |
        ⟨id, id', hnode, hnode', -⟩
      · rw [hnode, hnode']
      · have hlisted := fileNames_congr h.left.ground.keys h.right.ground.keys
          (q := Spot.under (.folder user) root) fun name => h.tree.shape _
        rw [hnode, hnode']
        simp only [allows_congr h.bound]
        cases d.allows mode .read with
        | false => rfl
        | true => simp only [if_true, hlisted]
      · rw [hnode, hnode']
  rw [Vault.list, Vault.list, hnames]

end Matched

end UserVault.Vault
