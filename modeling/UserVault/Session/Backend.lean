import UserVault.Protocol.ReplyWriter
import UserVault.Vault.Busy
import UserVault.Vault.Retrieval
import UserVault.Vault.Listing

/-!
# Backends

A session needs four operations of whatever keeps the files.  They share a state; a store also
takes its payload from the session's input, and never gives any of it back.
-/

namespace UserVault.Session

open Link Vault

/-- What a store of a backend comes to. -/
structure StoreOutcome (σ : Type) where
  result : Except StoreError Unit
  /-- The input after the store. -/
  input : Source
  state : σ

structure Backend (σ : Type) where
  store : σ → (user : UInt32) → (name : Bytes) → (length : UInt32) → Source → StoreOutcome σ
  /-- The length of the file, and the file as a source of what it holds. -/
  retrieve : σ → (user : UInt32) → (name : Bytes) → Except VaultError (UInt32 × Source) × σ
  remove : σ → (user : UInt32) → (name : Bytes) → Except VaultError Removed × σ
  list : σ → (user : UInt32) → Except VaultError Bytes × σ
  load_store_le : ∀ state user name length input,
    (store state user name length input).input.load ≤ input.load

/-- A vault that no other party works in. -/
def Backend.ofVault (v : Vault) : Backend Vault.State where
  store s user name length input :=
    let stored := v.store s user name length input
    ⟨stored.result, stored.body, stored.state⟩
  retrieve s user name :=
    match v.retrieve s.disk user name with
    | .ok file => (.ok (file.length, .ofBytes (s.disk.contentOf file.file).bytes), s)
    | .error e => (.error e, s)
  remove s user name := v.remove s user name
  list s user := (v.list s.disk user, s)
  load_store_le _ _ _ _ _ := load_body_storeWith_le ..

/-- A vault in which an upload may be under way. -/
def Backend.ofBusy (v : Vault) : Backend Vault.Busy where
  store b user name length input :=
    let (stored, b) := b.store v user name length input
    ⟨stored.result, stored.body, b⟩
  retrieve b user name :=
    let (result, state) := (Backend.ofVault v).retrieve b.state user name
    (result, { b with state })
  remove b user name := b.remove v user name
  list b user := (v.list b.state.disk user, b)
  load_store_le _ _ _ _ _ := load_body_storeWith_le ..

end UserVault.Session
