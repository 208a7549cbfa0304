import UserVault.Proofs.Link.Segments
import UserVault.Proofs.Vault.Openings
import UserVault.Proofs.Vault.Removals

/-!
# Chunks do not show

How much of a payload is copied at once makes no difference to a store that finds all of its
payload, or that cannot begin.  A store whose payload is cut off leaves a file that depends on it,
but no name of this file, unless it has written in place to a file that it cannot take away.
-/

namespace UserVault.Vault

open Disk Link

/-- The vault that copies `size` bytes at once. -/
def withChunk (v : Vault) (size : Nat) : Vault :=
  { v with options := { v.options with chunkSize := size } }

variable {v v' : Vault} {root : Place} {s s' : State} {user : UInt32} {name : Bytes}
  {length : UInt32} {body body' : Source} {P : Prop}

/-- Two states that have the same disk.  Suppose `P`; then a vault that writes in place can take
away what it writes. -/
structure Level (P : Prop) (v : Vault) (root : Place) (s s' : State) : Prop where
  disk : s'.disk = s.disk
  ground : Grounded v root s.disk
  removable : P → v.options.atomic = false → Removable root s.disk

/-- Two states whose disks have the same entries.  Suppose `P`; then the files hold the same. -/
structure Lookalike (P : Prop) (v : Vault) (root : Place) (s s' : State) : Prop where
  shape : SameShape s.disk s'.disk
  tree : P → SameTree s.disk s'.disk
  ground : Grounded v root s.disk
  ground' : Grounded v root s'.disk

theorem Level.lookalike (h : Level P v root s s') : Lookalike P v root s s' := by
  refine ⟨fun q => ?_, fun _ q => ?_, h.ground, ?_⟩
  · rw [h.disk]
  · rw [h.disk]
  · rw [h.disk]
    exact h.ground

/-- A store that leaves the stream good leaves the same of it, however that is cut. -/
theorem same_of_store (hbody : body.Same body') {result : Except StoreError Unit}
    (hresult : (v.store s user name length body).result = result)
    (hresult' : (v'.store s' user name length body').result = result) {unread : Nat}
    (hunread : Upload.unread? result = some unread) :
    (v.store s user name length body).body.Same (v'.store s' user name length body').body := by
  -- zeros stand for what may be missing of the payload
  obtain ⟨whole, hwhole⟩ : ∃ whole, whole = body.front ++ List.replicate length.toNat 0 := ⟨_, rfl⟩
  have hlength : (whole.take length.toNat).length = length.toNat := by
    rw [List.length_take, hwhole, List.length_append, List.length_replicate]
    omega
  have hfront : body.front ++ List.replicate length.toNat 0 =
      whole.take length.toNat ++ whole.drop length.toNat := by rw [List.take_append_drop, hwhole]
  have hleft := storeWith_unread v (fun _ => none) s user name hlength hfront
  have hleft' := storeWith_unread v' (fun _ => none) s' user name hlength (hbody.front ▸ hfront)
  rw [← store, hresult, hunread] at hleft
  rw [← store, hresult', hunread] at hleft'
  obtain ⟨-, hrest, hbarrier⟩ := hleft
  obtain ⟨-, hrest', hbarrier'⟩ := hleft'
  exact ⟨List.append_cancel_right (hrest.trans hrest'.symm), hbarrier.trans hbody.ended,
    hbarrier'.trans hbody.ended'⟩

/-- What two stores come to, on disks that were the same: the same, or both are cut off and leave
disks that look the same. -/
inductive Stored.Agree (P : Prop) (v : Vault) (root : Place) (stored stored' : Stored) : Prop
  | same (hresult : stored'.result = stored.result) (hbody : stored.body.Same stored'.body)
    (hstate : Level P v root stored.state stored'.state)
  | cut {fault fault' : Fault} (hresult : stored.result = .error (.transport fault))
    (hresult' : stored'.result = .error (.transport fault'))
    (hstate : Lookalike P v root stored.state stored'.state)

theorem Stored.Agree.of_result {w : Vault} {result : Except StoreError Unit} {d : Disk}
    (hbody : body.Same body')
    (hstore : (v.store s user name length body).result = result ∧
      (v.store s user name length body).state.disk = d)
    (hstore' : (v'.store s' user name length body').result = result ∧
      (v'.store s' user name length body').state.disk = d)
    (hground : Grounded w root d)
    (hremovable : P → w.options.atomic = false → Removable root d) {unread : Nat}
    (hunread : Upload.unread? result = some unread) :
    Stored.Agree P w root (v.store s user name length body)
      (v'.store s' user name length body') := by
  have hsame := same_of_store hbody hstore.1 hstore'.1 hunread
  have hdisk := hstore'.2.trans hstore.2.symm
  refine .same (hstore'.1.trans hstore.1.symm) hsame ⟨hdisk, ?_, ?_⟩
  · rw [hstore.2]
    exact hground
  · rw [hstore.2]
    exact hremovable

theorem Stored.Agree.of_cut {w : Vault} {stored stored' : Stored} {fault fault' : Fault}
    {d d' : Disk} (hstore : stored.result = .error (.transport fault) ∧ stored.state.disk = d)
    (hstore' : stored'.result = .error (.transport fault') ∧ stored'.state.disk = d')
    (hshape : SameShape d d') (htree : P → SameTree d d') (hground : Grounded w root d)
    (hground' : Grounded w root d') : Stored.Agree P w root stored stored' := by
  obtain ⟨hresult, rfl⟩ := hstore
  obtain ⟨hresult', rfl⟩ := hstore'
  exact .cut hresult hresult' ⟨hshape, htree, hground, hground'⟩

/-- What a store that could not begin leaves unread is its whole payload. -/
theorem unread?_of_beginStore {d d' : Disk} {target : Path} {unread : Nat} {e : StoreError}
    (h : v.beginStore d user target unread = (.error e, d')) :
    Upload.unread? (.error e) = some unread := by
  unfold beginStore at h
  split at h
  · cases h
    rfl
  · unfold openStore at h
    split at h
    · dsimp only at h
      split at h <;> cases h
      rfl
    · split at h <;> cases h
      rfl

theorem unread?_endStore (d : Disk) (target : Path) (staged : Option Path) :
    Upload.unread? (endStore d target staged).1 = some 0 := by
  unfold endStore
  split
  · rfl
  · split <;> rfl

/-- Neither the chunks of two stores nor the segments of their payload show. -/
theorem store_agree (h : Level P v root s s') (hbody : body.Same body') (size size' : Nat)
    (user : UInt32) (name : Bytes) (length : UInt32) :
    Stored.Agree P v root ((v.withChunk size).store s user name length body)
      ((v.withChunk size').store s' user name length body') := by
  by_cases hname : accepts name
  · -- what is done before the copying begins does not depend on chunks
    cases hbegin : v.beginStore s.disk user (v.pathOf (.file user name)) length.toNat with
    | mk opened d =>
      cases opened with
      | error e =>
        have hstore := store_of_error (v := v.withChunk size) (s := s) hname body hbegin
        have hstore' := store_of_error (v := v.withChunk size') (s := s') hname body'
          (h.disk ▸ hbegin)
        have hremovable := fun hp hatomic =>
          (h.removable hp hatomic).beginStore h.ground hatomic hname hbegin
        exact .of_result hbody hstore hstore' (h.ground.beginStore_error hbegin) hremovable
          (unread?_of_beginStore hbegin)
      | ok opened =>
        obtain ⟨file, staged⟩ := opened
        obtain ⟨spot, id, hbegun⟩ := h.ground.begun_beginStore hname hbegin
        have hremovable := fun hp hatomic =>
          (h.removable hp hatomic).beginStore h.ground hatomic hname hbegin
        have hrecord := hbegun.known.record
        rw [hbegun.handle] at hbegin
        have hbegin' := h.disk ▸ hbegin
        by_cases hfront : body.front.length < length.toNat
        · obtain ⟨_, written, hstore⟩ := store_of_cut (v := v.withChunk size) (s := s)
            hname hbegun.empty hrecord hbegin hfront
          obtain ⟨_, written', hstore'⟩ := store_of_cut (v := v.withChunk size')
            (s := s') hname hbegun.empty hrecord hbegin' (hbody.front ▸ hfront)
          exact .of_cut hstore hstore' (hbegun.sameShape_withdraw written written')
            (fun hp => hbegun.sameTree_withdraw (hremovable hp) written written')
            (hbegun.grounded_withdraw written) (hbegun.grounded_withdraw written')
        · have hlength : (body.front.take length.toNat).length = length.toNat := by
            rw [List.length_take]
            omega
          have hwhole := (List.take_append_drop length.toNat body.front).symm
          have hstore := store_of_front (v := v.withChunk size) (s := s) hname hbegun.empty hrecord
            hbegin hlength hwhole
          have hstore' := store_of_front (v := v.withChunk size') (s := s') hname hbegun.empty
            hrecord hbegin' hlength (hbody.front.symm.trans hwhole)
          exact .of_result hbody hstore hstore' (hbegun.grounded_endStore hname _)
            (fun hp hatomic => (hremovable hp hatomic).endStore hatomic hbegin id _)
            (unread?_endStore _ _ _)
  · obtain ⟨fault, hresolve⟩ := resolve_of_not_accepts v user hname
    rw [store_of_resolve (v := v.withChunk size) hresolve,
      store_of_resolve (v := v.withChunk size') hresolve]
    exact .same rfl hbody h

end UserVault.Vault
