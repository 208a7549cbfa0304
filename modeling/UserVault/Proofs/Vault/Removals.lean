import UserVault.Proofs.Vault.Endings
import UserVault.Proofs.Vault.Moves

/-!
# Removals on an orderly disk

The one step of a removal that touches the disk takes the user's file away, if there is one.  A
removal that nobody disturbs comes to its end and has done just that.
-/

namespace UserVault.Vault

open Disk

variable {v : Vault} {root : Place} {d₀ : Disk} {user : UInt32} {name : Bytes} {r : Removal}
  {s : State} {fault : Option Errno}

/-- What a step of a removal may do to the removal and the disk. -/
inductive Removal.Move (root : Place) (user : UInt32) (name : Bytes) (fault : Option Errno)
    (d : Disk) (r : Removal) : Removal → Disk → Prop
  | idle (turn : Turn) (stage : Removal.Stage)
    (hstage : r.stage = .unlinking → fault ≠ none ∨
      d.node? (Spot.under (.file user name) root) = none) :
    Move root user name fault d r { r with turn, stage } d
  | unlinked (hstage : r.stage = .unlinking) (hfault : fault = none)
    (hnode : (d.node? (Spot.under (.file user name) root)).isSome) :
    Move root user name fault d r (r.settle (.ok .deleted)) (take d root (.file user name))

/-- On an orderly disk every step of a removal is one of the moves. -/
theorem removal_step (fault : Option Errno) (hbase : EmptyBase v d₀ root)
    (h : Orderly v root d₀ s.disk) (hname : accepts name)
    (htarget : r.target = v.pathOf (.file user name)) :
    Removal.Move root user name fault s.disk r (r.step fault s).1 (r.step fault s).2.disk := by
  cases hstage : r.stage with
  | takingTurn =>
    simp only [Removal.step, hstage, State.advance]
    split <;> exact .idle _ _ (by simp [hstage])
  | unlinking =>
    simp only [Removal.step, hstage, htarget, h.unlink_file hbase user hname]
    -- the call succeeds where the file is there and nothing from outside makes it fail
    by_cases hnode : (s.disk.node? (Spot.under (.file user name) root)).isSome
    · rw [if_pos hnode]
      cases fault with
      | none => exact .unlinked hstage rfl hnode
      | some e => exact .idle r.turn _ fun _ => .inl (Option.some_ne_none e)
    · rw [if_neg hnode]
      have hnone : s.disk.node? (Spot.under (.file user name) root) = none := by simpa using hnode
      cases fault with
      | none => exact .idle r.turn _ fun _ => .inr hnone
      | some e => exact .idle r.turn _ fun _ => .inl (Option.some_ne_none e)
  | givingTurn result =>
    simp only [Removal.step, hstage, State.advance]
    exact .idle _ _ (by simp [hstage])
  | finished result =>
    simp only [Removal.step, hstage]
    exact .idle r.turn r.stage (by simp [hstage])

theorem Removal.Move.target_eq {d d' : Disk} {r' : Removal}
    (h : Removal.Move root user name fault d r r' d') : r'.target = r.target := by
  cases h <;> rfl

theorem Removal.Move.nextFile_eq {d d' : Disk} {r' : Removal}
    (h : Removal.Move root user name fault d r r' d') : d'.nextFile = d.nextFile := by
  cases h <;> rfl

theorem Removal.Move.orderly {d d' : Disk} {r' : Removal} (htree : Orderly v root d₀ d)
    (h : Removal.Move root user name fault d r r' d') : Orderly v root d₀ d' := by
  cases h with
  | idle => exact htree
  | unlinked => exact orderly_take htree (.inr ⟨user, name, rfl⟩)

/-! ## Whole removals -/

/-- A removal under a name that is accepted takes the user's file away, and is no less a success
where there is none. -/
theorem remove_eq (user : UInt32) (hbase : EmptyBase v d₀ root) (h : Orderly v root d₀ s.disk)
    (hname : accepts name) :
    (∃ removed, (v.remove s user name).1 = .ok removed) ∧
      (v.remove s user name).2.disk = clear s.disk root (.file user name) := by
  obtain ⟨hresult, hdisk⟩ := remove_of_accepts v s user hname
  rw [withdraw, h.unlink_file hbase user hname] at hdisk
  rw [h.unlink_file hbase user hname] at hresult
  rw [hresult, hdisk, clear]
  by_cases hnode : (s.disk.node? (Spot.under (.file user name) root)).isSome
  · rw [if_pos hnode, if_pos hnode]
    exact ⟨⟨_, rfl⟩, rfl⟩
  · rw [if_neg hnode, if_neg hnode]
    exact ⟨⟨_, rfl⟩, rfl⟩

theorem remove_of_resolve {e : VaultError} (hresolve : v.resolve user name = .error e)
    (s : State) : v.remove s user name = (.error e, s) := by
  simp [remove, Removal.start, hresolve, Removal.run, Removal.stepsLeft, Removal.runFor,
    Removal.result?]

/-- A removal under a name that is not accepted does nothing at all. -/
theorem remove_of_not_accepts (v : Vault) (s : State) (user : UInt32) (hname : ¬accepts name) :
    (∃ fault, (v.remove s user name).1 = .error (.invalidName fault)) ∧
      (v.remove s user name).2 = s := by
  obtain ⟨fault, hresolve⟩ := resolve_of_not_accepts v user hname
  rw [remove_of_resolve hresolve]
  exact ⟨⟨fault, rfl⟩, rfl⟩

end UserVault.Vault
