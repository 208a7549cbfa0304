import UserVault.Vault.Retrieval
import UserVault.Vault.Listing
import UserVault.Proofs.Vault.Alike
import UserVault.Proofs.Vault.Ledger
import UserVault.Proofs.Vault.Shape

/-!
# What a user sees of a disk

All that a user can ask a vault about is in the user's own directory.  On disks that are alike there
the answers are the same, and so is everything below the directory.
-/

namespace UserVault.Disk

/-- What there is to see at a place: of a file its content and permissions, not its identity. -/
inductive Sight
  | directory (mode : Nat)
  | file (record : Option FileRecord)
  | link (target : Bytes)
  | device (device : Device)

def sight? (d : Disk) (place : Place) : Option Sight :=
  (d.node? place).map fun
    | .directory mode => .directory mode
    | .file id => .file (d.record? id)
    | .link target => .link target
    | .device device => .device device

end UserVault.Disk

namespace UserVault.Vault

open Disk

variable {v : Vault} {root : Place} {d₀ d d' : Disk} {user : UInt32} {name : Bytes}
  {ρ ρ' : FileId → FileId → Prop}

/-- The spots of a user: the user's directory and all files in it. -/
def Mine (user : UInt32) : Spot → Prop
  | .folder user' => user' = user
  | .file user' _ => user' = user
  | .staging | .staged _ => False

/-! ## 1. The subtree -/

section
variable {W : Spot → Prop} {spot : Spot} (h : Alike root W ρ d d') (hspot : W spot)
include h hspot

/-- Disks that are alike at a spot show the same there. -/
theorem Alike.sight?_eq : d'.sight? (spot.under root) = d.sight? (spot.under root) := by
  have hpair := h.node spot hspot
  unfold sight?
  generalize d.node? (spot.under root) = node at hpair ⊢
  generalize d'.node? (spot.under root) = node' at hpair ⊢
  cases hpair with
  | vacant => rfl
  | directory mode => rfl
  | file id id' hid => simp only [Option.map_some, h.record id id' hid]

theorem Alike.fileAt_eq : fileAt d' (spot.under root) = fileAt d (spot.under root) := by
  have hpair := h.node spot hspot
  unfold fileAt
  generalize d.node? (spot.under root) = node at hpair ⊢
  generalize d'.node? (spot.under root) = node' at hpair ⊢
  cases hpair with
  | vacant => rfl
  | directory mode => rfl
  | file id id' hid => simp only [h.contentOf hid]

end

/-- Disks that are alike at a user's spots show the same in the user's directory. -/
theorem Alike.sight_eq (h : Alike root (Mine user) ρ d d') (htree : Orderly v root d₀ d)
    (htree' : Orderly v root d₀ d') (steps : List Name) :
    d'.sight? (root ++ Decimal.encode user.toNat :: steps) =
      d.sight? (root ++ Decimal.encode user.toNat :: steps) := by
  match steps with
  | [] =>
    have hfolder : Mine user (.folder user) := rfl
    exact h.sight?_eq hfolder
  | [name] =>
    have hfile : Mine user (.file user name) := rfl
    exact h.sight?_eq hfile
  | _ :: _ :: _ =>
    -- nothing stands as far down as that
    have hnone {d : Disk} (htree : Orderly v root d₀ d) {name name' : Name} {more : List Name} :
        d.node? (root ++ Decimal.encode user.toNat :: name :: name' :: more) = none := by
      cases hnode : d.node? (root ++ Decimal.encode user.toNat :: name :: name' :: more) with
      | none => rfl
      | some node =>
        obtain ⟨spot, -, hsteps, -⟩ := htree.exists_spot (List.cons_ne_nil _ _) hnode
        have hlength := congrArg List.length hsteps
        cases spot <;> simp [Spot.steps] at hlength
    rw [sight?, hnone htree', sight?, hnone htree]
    rfl

/-! ## 2. Answers -/

theorem Alike.listNames_eq (h : Alike root (Mine user) ρ d d') (hbase : EmptyBase v d₀ root)
    (htree : Orderly v root d₀ d) (htree' : Orderly v root d₀ d') :
    v.listNames d' user = v.listNames d user := by
  have hfolder := (h.node (.folder user) rfl).isSome_eq
  have hfiles (name : Bytes) :
      (∃ id, d'.node? (Spot.under (.file user name) root) = some (.file id)) ↔
        ∃ id, d.node? (Spot.under (.file user name) root) = some (.file id) := by
    have hpair := h.node (.file user name) rfl
    generalize d.node? (Spot.under (.file user name) root) = node at hpair ⊢
    generalize d'.node? (Spot.under (.file user name) root) = node' at hpair ⊢
    cases hpair <;> simp
  have hnames : fileNames (d'.entriesOf (Spot.under (.folder user) root)) =
      fileNames (d.entriesOf (Spot.under (.folder user) root)) := by
    rw [fileNames_eq, fileNames_eq]
    refine mergeSort_congr ((List.perm_ext_iff_of_nodup (htree'.nodup_fileNames user)
      (htree.nodup_fileNames user)).mpr fun name => ?_)
    rw [htree'.mem_fileNames, htree.mem_fileNames, hfiles]
  unfold listNames
  rw [htree'.readDirectory_folder hbase, htree.readDirectory_folder hbase, hfolder]
  by_cases hsome : (d.node? (Spot.under (.folder user) root)).isSome
  · rw [if_pos hsome, if_pos hsome]
    simp only [hnames]
  · rw [if_neg hsome, if_neg hsome]

/-- What two openings of files came to is the same but for the identities of the files. -/
inductive Opened.Twin (ρ : FileId → FileId → Prop) :
    Except VaultError Opened → Except VaultError Opened → Prop
  | error (e : VaultError) : Opened.Twin ρ (.error e) (.error e)
  | ok (length : UInt32) (id id' : FileId) (h : ρ id id') :
    Opened.Twin ρ (.ok { length, file := id }) (.ok { length, file := id' })

theorem Opened.Twin.mono {result result' : Except VaultError Opened}
    (h : Opened.Twin ρ result result') (hρ : ∀ id id', ρ id id' → ρ' id id') :
    Opened.Twin ρ' result result' := by
  cases h with
  | error e => exact .error e
  | ok length id id' h => exact .ok length id id' (hρ id id' h)

theorem Alike.retrieve (h : Alike root (Mine user) ρ d d') (hbase : EmptyBase v d₀ root)
    (htree : Orderly v root d₀ d) (htree' : Orderly v root d₀ d') (name : Bytes) :
    Opened.Twin ρ (v.retrieve d user name) (v.retrieve d' user name) := by
  by_cases hname : accepts name
  · rw [htree.retrieve_eq hbase user hname, htree'.retrieve_eq hbase user hname]
    have hpair := h.node (.file user name) rfl
    generalize d.node? (Spot.under (.file user name) root) = node at hpair ⊢
    generalize d'.node? (Spot.under (.file user name) root) = node' at hpair ⊢
    cases hpair with
    | vacant => exact .error _
    | directory mode => exact .error _
    | file id id' hid =>
      dsimp only
      rw [h.contentOf hid]
      split
      · exact .ok _ id id' hid
      · exact .error _
  · obtain ⟨fault, hresolve⟩ := resolve_of_not_accepts v user hname
    simp only [Vault.retrieve, hresolve]
    exact .error _

/-- A restore and its twin. -/
structure Restoring.Twin (ρ : FileId → FileId → Prop) (r r' : Restoring) : Prop where
  result : Opened.Twin ρ r.result r'.result
  sent : r'.sent = r.sent
  short : r'.short = r.short

theorem Restoring.Twin.mono {r r' : Restoring} (h : Restoring.Twin ρ r r')
    (hρ : ∀ id id', ρ id id' → ρ' id id') : Restoring.Twin ρ' r r' :=
  ⟨h.result.mono hρ, h.sent, h.short⟩

/-- Twins read the same. -/
theorem Restoring.Twin.read {r r' : Restoring} {W : Spot → Prop} (h : Restoring.Twin ρ r r')
    (halike : Alike root W ρ d d') (count : Nat) :
    Restoring.Twin ρ (r.read d count) (r'.read d' count) := by
  obtain ⟨result, sent, short⟩ := r
  obtain ⟨result', sent', short'⟩ := r'
  obtain ⟨hresult, rfl, rfl⟩ := h
  cases hresult with
  | error e => exact ⟨.error e, rfl, rfl⟩
  | ok length id id' hid =>
    simp only [Restoring.read, readAt, halike.contentOf hid]
    split
    · split
      · exact ⟨.ok length id id' hid, rfl, rfl⟩
      · exact ⟨.ok length id id' hid, rfl, rfl⟩
    · exact ⟨.ok length id id' hid, rfl, rfl⟩

end UserVault.Vault
