import UserVault.Proofs.Session.Agreement
import UserVault.Proofs.Vault.Chunks

/-!
# Sessions in pieces

How a session's input is cut into segments, and how much of a payload or of a file its vault copies
at once, makes no difference to what the session writes nor to what it leaves, unless it leaves a
file with a part of a payload that it could not take away.
-/

namespace UserVault.Session

open Disk Link Vault Protocol

variable {v : Vault} {root : Place} {s s' : Vault.State} {input input' : Source}
  {output output' : Sink} {P : Prop}

section
variable (h : Level P v root s s') (hinput : input.Same input') (size size' : Nat) (user : UInt32)
include h hinput

theorem perform_backup_agree (name : Bytes) (length : UInt32) :
    ((Backend.ofVault (v.withChunk size)).perform s user (.backup name length) input).Agree
      (Level P v root) (Lookalike P v root)
      ((Backend.ofVault (v.withChunk size')).perform s' user (.backup name length) input') := by
  have hagree := store_agree h hinput size size' user name length
  simp only [Backend.perform, Backend.ofVault]
  generalize (v.withChunk size).store s user name length input = stored at hagree ⊢
  generalize (v.withChunk size').store s' user name length input' = stored' at hagree ⊢
  obtain ⟨result, body, state⟩ := stored
  obtain ⟨result', body', state'⟩ := stored'
  cases hagree with
  | cut hresult hresult' hleft =>
    cases hresult
    cases hresult'
    exact .closed rfl rfl hleft
  | same hresult hbody hstate =>
    cases hresult
    rcases result with (fault | ⟨e, unread⟩) | _
    · exact .closed rfl rfl hstate.lookalike
    · -- what is left unread is skipped
      obtain ⟨skipped, rest, rest', hskip, hskip', hrest⟩ := blind_skipPayload unread _ _ hbody
      simp only [hskip, hskip']
      cases skipped with
      | error fault => exact .closed rfl rfl hstate.lookalike
      | ok _ => exact .replied hrest hstate
    · exact .replied hbody hstate

theorem perform_delete_agree (name : Bytes) :
    ((Backend.ofVault (v.withChunk size)).perform s user (.delete name) input).Agree
      (Level P v root) (Lookalike P v root)
      ((Backend.ofVault (v.withChunk size')).perform s' user (.delete name) input') := by
  simp only [Backend.perform, Backend.ofVault]
  by_cases hname : accepts name
  · obtain ⟨hresult, hdisk⟩ := remove_of_accepts (v.withChunk size) s user hname
    obtain ⟨hresult', hdisk'⟩ := remove_of_accepts (v.withChunk size') s' user hname
    rw [h.disk] at hresult' hdisk'
    rw [hresult, hresult'.trans rfl]
    refine .replied hinput ⟨hdisk'.trans hdisk.symm, ?_, fun hp hatomic => ?_⟩
    · rw [hdisk]
      exact h.ground.withdraw_file user hname
    · rw [hdisk]
      exact (h.removable hp hatomic).withdraw_file h.ground user hname
  · obtain ⟨fault, hresolve⟩ := resolve_of_not_accepts v user hname
    rw [remove_of_resolve (v := v.withChunk size) hresolve,
      remove_of_resolve (v := v.withChunk size') hresolve]
    exact .replied hinput h

theorem perform_agree (request : Request) :
    ((Backend.ofVault (v.withChunk size)).perform s user request input).Agree
      (Level P v root) (Lookalike P v root)
      ((Backend.ofVault (v.withChunk size')).perform s' user request input') := by
  cases request with
  | backup name length => exact perform_backup_agree h hinput size size' user name length
  | delete name => exact perform_delete_agree h hinput size size' user name
  | unknown operation => exact .replied hinput h
  | list =>
    have hlist : (v.withChunk size').list s'.disk user = (v.withChunk size).list s.disk user := by
      rw [h.disk]
      rfl
    simp only [Backend.perform, Backend.ofVault, hlist]
    exact .replied hinput h
  | restore name =>
    have hretrieve : (v.withChunk size').retrieve s'.disk user name =
        (v.withChunk size).retrieve s.disk user name := by
      rw [h.disk]
      rfl
    simp only [Backend.perform, Backend.ofVault, hretrieve]
    cases (v.withChunk size).retrieve s.disk user name with
    | error e => exact .replied hinput h
    | ok opened =>
      simp only [h.disk]
      split
      · exact .replied hinput h
      · exact .closed rfl rfl h.lookalike

end

end UserVault.Session
