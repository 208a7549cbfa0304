import UserVault.Proofs.Link.Taking
import UserVault.Proofs.Protocol.Message
import UserVault.Proofs.Vault.Sound

/-!
# Payload bytes taken and payload bytes left

What is still to be read of a payload and what was taken from the source of it make up the declared
length, from the first step of a store to the last, whichever step the system makes fail
(`Upload.Balanced`).  So a failure of the vault counts just the bytes that are left to skip, and
once they are skipped the stream stands behind the payload.
-/

namespace UserVault.Vault

open Disk Link Protocol

namespace Upload

variable {v : Vault} {u : Upload} {body : Source} {length : UInt32}

/-! ## 1. Along a run -/

/-- What was taken from `body` and what is still to be read make up the declared length, as long as
reading goes on; a read that failed has not taken more. -/
def Balanced (body : Source) (length : UInt32) (u : Upload) : Prop :=
  ∃ taken ≤ length.toNat, body.Took u.body taken ∧
    ((∀ cause, u.outcome? ≠ some (.error (.transport cause))) →
      taken + u.remaining = length.toNat)

theorem balanced_start (v : Vault) (user : UInt32) (name : Bytes) (length : UInt32)
    (body : Source) : (start v user name length body).Balanced body length := by
  have hbalanced (u : Upload) (hbody : u.body = body) (hremaining : u.remaining = length.toNat) :
      u.Balanced body length :=
    ⟨0, Nat.zero_le _, hbody ▸ body.took_refl, fun _ => by rw [Nat.zero_add, hremaining]⟩
  unfold start
  split
  · exact hbalanced _ rfl rfl
  · exact hbalanced _ rfl rfl

/-- Only the copying of a chunk touches the source and the count of what is still to be read. -/
theorem step_body (v : Vault) (fault : Option Errno) (u : Upload) (s : State) :
    ((u.step v fault s).1.body = u.body ∧ (u.step v fault s).1.remaining = u.remaining) ∨
      ∃ file staged, u.stage = .copying file staged ∧
        u.step v fault s = u.copyChunk v fault file staged s := by
  cases hstage : u.stage with
  | preparing =>
    left
    simp only [step, hstage]
    split
    · exact ⟨rfl, rfl⟩
    · split
      · exact ⟨rfl, rfl⟩
      · split <;> exact ⟨rfl, rfl⟩
  | takingTurn =>
    left
    simp only [step, hstage]
    split <;> exact ⟨rfl, rfl⟩
  | opening =>
    left
    simp only [step, hstage, openFile]
    split <;> split <;> exact ⟨rfl, rfl⟩
  | copying file staged =>
    by_cases hzero : u.remaining = 0
    · left
      simp only [step, hstage, hzero, if_true, and_self]
    · right
      exact ⟨file, staged, rfl, by simp only [step, hstage, hzero, if_false]⟩
  | flushing file staged =>
    left
    simp only [step, hstage]
    split <;> exact ⟨rfl, rfl⟩
  | syncing file staged =>
    left
    simp only [step, hstage]
    split
    · exact ⟨rfl, rfl⟩
    · split <;> exact ⟨rfl, rfl⟩
  | publishing staged =>
    left
    simp only [step, hstage]
    split <;> exact ⟨rfl, rfl⟩
  | discarding staged cause =>
    left
    simp only [step, hstage, settle, and_self]
  | givingTurn result =>
    left
    simp only [step, hstage, and_self]
  | finished result =>
    left
    simp only [step, hstage, and_self]

/-- A chunk goes from what is still to be read to what was taken, also when it cannot be written. -/
theorem balanced_copyChunk {taken : Nat} (htook : body.Took u.body taken)
    (hleft : taken + u.remaining = length.toNat) (v : Vault) (fault : Option Errno)
    (file : Handle) (staged : Option Path) (s : State) :
    (u.copyChunk v fault file staged s).1.Balanced body length := by
  have hwant : min v.chunkSize u.remaining ≤ u.remaining := Nat.min_le_right ..
  obtain ⟨more, hmore, htook', hall⟩ :=
    Reading.takes_exactly (min v.chunkSize u.remaining) u.body
  simp only [copyChunk]
  split
  next cause rest hread =>
    rw [hread] at htook'
    exact ⟨taken + more, by omega, htook.trans htook', fun hgood => absurd rfl (hgood cause)⟩
  next bytes rest hread =>
    rw [hread] at htook' hall
    have hchunk := hall bytes rfl
    split <;> exact ⟨taken + more, by omega, htook.trans htook', fun _ => by dsimp only; omega⟩

theorem balanced_step (v : Vault) (fault : Option Errno) (s : State)
    (h : u.Balanced body length) : (u.step v fault s).1.Balanced body length := by
  obtain ⟨taken, hle, htook, hleft⟩ := h
  rcases step_body v fault u s with ⟨hbody, hremaining⟩ | ⟨file, staged, hstage, hstep⟩
  · refine ⟨taken, hle, by rwa [hbody], fun hgood => ?_⟩
    rw [hremaining]
    apply hleft
    intro cause hcause
    exact hgood cause (step_of_outcome v fault s hcause).1
  · rw [hstep]
    apply balanced_copyChunk htook
    apply hleft
    simp [outcome?, hstage]

/-- Whatever was done of a store and whatever failed, its payload is accounted for. -/
theorem balanced_runFor (v : Vault) (steps : Nat) (faults : Nat → Option Errno) (s : State)
    (h : u.Balanced body length) : (u.runFor v steps faults s).1.Balanced body length :=
  runFor_induction (motive := fun u _ => u.Balanced body length) v steps faults
    (fun n _ s _ h => balanced_step v (faults n) s h) h

end Upload

/-! ## 2. Skipping -/

theorem takes_skipPayload (length : Nat) : (skipPayload length).Takes length := by
  apply Reading.takes_of_fill length
  · intro s
    unfold skipPayload
    split <;> simp_all
  · intro s a h
    unfold skipPayload at h
    split at h <;> simp_all

/-- Where the bytes are there, they are skipped. -/
theorem skipPayload_of_le {s : Source} {length : Nat} (h : length ≤ s.front.length) :
    (skipPayload length s).1 = .ok () := by
  obtain ⟨rest, hfill, -, -⟩ := Source.fillFrom_of_le_front s.current s.later h
  have hfill' : s.fill length = ⟨s.front.take length, .full, rest⟩ := hfill
  simp only [skipPayload, hfill']

/-- Where too few bytes are there, the fault behind them is reported, or else what is missing. -/
theorem skipPayload_of_lt {s : Source} {length : Nat} (h : s.front.length < length) :
    ∃ rest, skipPayload length s =
      (.error (match s.barrier with
        | none => .endedInPayload (length - s.front.length)
        | some kind => .raised kind), rest) ∧ (s.barrier = none → rest.bytes = []) := by
  cases hbarrier : s.barrier with
  | none =>
    have hfill := Source.fill_of_ended h hbarrier
    exact ⟨{}, by simp only [skipPayload, hfill], fun _ => rfl⟩
  | some kind =>
    obtain ⟨rest, hfill⟩ := Source.fill_of_front_lt h
    rw [hbarrier] at hfill
    exact ⟨rest, by simp only [skipPayload, hfill, Stop.ofBarrier], fun h => by cases h⟩

/-- Where `taken` bytes of a payload are gone from a source and the others are still to come,
skipping these succeeds if the whole payload came and leaves the source behind it. -/
theorem skipPayload_rest {body rest : Source} {taken unread length : Nat}
    (htook : body.Took rest taken) (hsum : taken + unread = length)
    (hfront : rest.front.length + length = unread + body.front.length)
    (hbarrier : rest.barrier = body.barrier) :
    ((skipPayload unread rest).1 = .ok () ↔ length ≤ body.front.length) ∧
      ((skipPayload unread rest).1 = .ok () → body.Took (skipPayload unread rest).2 length) ∧
      (body.front.length < length → body.barrier = none →
        ∃ missing, body.front.length + missing = length ∧
          (skipPayload unread rest).1 = .error (.endedInPayload missing) ∧
          (Fault.endedInPayload missing).kind = .unexpectedEof ∧
          (skipPayload unread rest).2.bytes = []) := by
  refine ⟨⟨?_, fun hle => skipPayload_of_le (by omega)⟩, ?_, ?_⟩
  · intro hok
    apply Nat.le_of_not_lt
    intro hlt
    have hshort : rest.front.length < unread := by omega
    obtain ⟨rest', hskip, -⟩ := skipPayload_of_lt hshort
    rw [hskip] at hok
    cases hok
  · intro hok
    obtain ⟨more, -, htook', hall⟩ := takes_skipPayload unread rest
    rw [hall () hok] at htook'
    rw [← hsum]
    exact htook.trans htook'
  · intro hlt hend
    have hshort : rest.front.length < unread := by omega
    obtain ⟨rest', hskip, hnone⟩ := skipPayload_of_lt hshort
    rw [hbarrier, hend] at hskip hnone
    refine ⟨unread - rest.front.length, by omega, ?_, rfl, ?_⟩
    · rw [hskip]
    · rw [hskip]
      exact hnone rfl

/-! ## 3. After a store -/

section
variable (v : Vault) (faults : Nat → Option Errno) (s : State) (user : UInt32) (name : Bytes)
  (length : UInt32) (body : Source)

/-- What a store has taken and what it says to be unread make up the declared length. -/
theorem storeWith_took :
    ∃ taken ≤ length.toNat, body.Took (v.storeWith faults s user name length body).body taken ∧
      ∀ unread, Upload.unread? (v.storeWith faults s user name length body).result = some unread →
        taken + unread = length.toNat := by
  obtain ⟨result, hend⟩ := Upload.run_finished v faults s
    (Upload.steady_start v user name length body)
  have hresult : (v.storeWith faults s user name length body).result = result := by
    simp [storeWith, Upload.result?, hend]
  have hout : ((Upload.start v user name length body).run v faults s).1.outcome? =
      some result := by
    simp only [Upload.outcome?, hend]
  obtain ⟨taken, hle, htook, hleft⟩ := Upload.balanced_runFor v
    (Upload.start v user name length body).stepsLeft faults s
    (Upload.balanced_start v user name length body)
  refine ⟨taken, hle, htook, ?_⟩
  intro unread hunread
  rw [hresult] at hunread
  -- the failure says what is still to be read where the store ended
  have haccounts := Upload.accounts_run (v := v) (s := s) faults
    (Upload.accounts_start v user name (Order.length_padded ⟨user, name, length, body⟩)
      (Order.front_append_missing ⟨user, name, length, body⟩))
  cases haccounts with
  | good _ _ houtcome =>
    cases (houtcome result hout).symm.trans hunread
    apply hleft
    intro cause hcause
    cases (hout.symm.trans hcause)
    cases hunread
  | cutOff cause hcause _ =>
    cases hout.symm.trans hcause
    cases hunread

/-- What a store leaves unread is all there just where the whole payload was. -/
theorem storeWith_front {unread : Nat}
    (h : Upload.unread? (v.storeWith faults s user name length body).result = some unread) :
    (v.storeWith faults s user name length body).body.front.length + length.toNat =
        unread + body.front.length ∧
      (v.storeWith faults s user name length body).body.barrier = body.barrier := by
  have hunread := storeWith_unread v faults s user name
    (Order.length_padded ⟨user, name, length, body⟩)
    (Order.front_append_missing ⟨user, name, length, body⟩)
  rw [h] at hunread
  obtain ⟨hle, hfront, hbarrier⟩ := hunread
  refine ⟨?_, hbarrier⟩
  have hlength := congrArg List.length hfront
  simp only [Order.missing, List.length_append, List.length_replicate, List.length_drop,
    Order.length_padded] at hlength hle
  omega

/-- The transport fails a store only where the payload does not come whole. -/
theorem front_lt_of_transport {fault : Fault}
    (h : (v.storeWith faults s user name length body).result = .error (.transport fault)) :
    body.front.length < length.toNat := by
  have hunread := storeWith_unread v faults s user name
    (Order.length_padded ⟨user, name, length, body⟩)
    (Order.front_append_missing ⟨user, name, length, body⟩)
  rw [h] at hunread
  apply Nat.lt_of_not_le
  intro hle
  apply hunread
  rw [Order.missing, Nat.sub_eq_zero_of_le hle, List.replicate_zero]

end

/-- **Every payload byte is accounted for.**  However a store is set up and whatever fails, at each
point of it the bytes taken and the bytes still to be read make up the declared length, and it never
takes more.  A success has taken the declared length, and the transport fails only a payload that
does not come whole.  A failure of the vault has left unread what it says: skipping so many bytes
leaves the stream behind the payload, if that came whole; if the stream merely ended, all of it is
gone then, and the bytes that never came are reported. -/
theorem storeWith_accounts (v : Vault) (faults : Nat → Option Errno) (s : State) (user : UInt32)
    (name : Bytes) (length : UInt32) (body : Source) :
    let stored := v.storeWith faults s user name length body
    (∀ steps, ((Upload.start v user name length body).runFor v steps faults s).1.Balanced
      body length) ∧
    (∃ taken ≤ length.toNat, body.Took stored.body taken) ∧
    match stored.result with
    | .ok () => body.Took stored.body length.toNat
    | .error (.transport _) => body.front.length < length.toNat
    | .error (.vault _ unread) =>
      let skipped := skipPayload unread stored.body
      (∃ taken, body.Took stored.body taken ∧ taken + unread = length.toNat) ∧
      (skipped.1 = .ok () ↔ length.toNat ≤ body.front.length) ∧
      (skipped.1 = .ok () → body.Took skipped.2 length.toNat) ∧
      (body.front.length < length.toNat → body.barrier = none →
        ∃ missing, body.front.length + missing = length.toNat ∧
          skipped.1 = .error (.endedInPayload missing) ∧
          (Fault.endedInPayload missing).kind = .unexpectedEof ∧ skipped.2.bytes = []) := by
  intro stored
  obtain ⟨taken, hle, htook, hunread⟩ := storeWith_took v faults s user name length body
  refine ⟨fun steps => ?_, ⟨taken, hle, htook⟩, ?_⟩
  · exact Upload.balanced_runFor v steps faults s (Upload.balanced_start v user name length body)
  split
  next hresult =>
    have hall := hunread 0 (by rw [hresult]; rfl)
    rw [Nat.add_zero] at hall
    rwa [← hall]
  next fault hresult => exact front_lt_of_transport v faults s user name length body hresult
  next e unread hresult =>
    have hcount : Upload.unread? stored.result = some unread := by
      rw [hresult]
      rfl
    have hsum := hunread unread hcount
    obtain ⟨hfront, hbarrier⟩ := storeWith_front v faults s user name length body hcount
    exact ⟨⟨taken, htook, hsum⟩, skipPayload_rest htook hsum hfront hbarrier⟩

/-- The second of four chunks cannot be written, which the third finds out, and the fourth never
comes. -/
theorem storeWith_accounts_full :
    let v : Vault := { base := { absolute := true, steps := [] }, options := { chunkSize := 1 } }
    let s : State := { disk := { nodes := ⟨[(Spot.under .staging [], .directory 0o755)]⟩ } }
    let faults := fun n => if n = 3 then some Errno.noSpace else none
    let body : Source := ⟨[1], [.segment [2, 3]]⟩
    let stored := v.storeWith faults s 7 [0x61] 4 body
    let skipped := skipPayload 1 stored.body
    stored.result = .error (.vault (.system { errno := .noSpace }) 1) ∧
      body.Took stored.body 3 ∧ skipped.1 = .error (.endedInPayload 1) ∧
      skipped.2.bytes = [] := by
  intro v s faults body stored skipped
  obtain ⟨-, -, haccounts⟩ := storeWith_accounts v faults s 7 [0x61] 4 body
  have hresult : stored.result = .error (.vault (.system { errno := .noSpace }) 1) := by
    decide +kernel
  have hresult' : (v.storeWith faults s 7 [0x61] 4 body).result =
      .error (.vault (.system { errno := .noSpace }) 1) := hresult
  rw [hresult'] at haccounts
  obtain ⟨⟨taken, htook, hsum⟩, -, -, hshort⟩ := haccounts
  obtain ⟨missing, hmissing, hskip, -, hnone⟩ := hshort (by decide) rfl
  have hthree : taken + 1 = 4 := hsum
  have hone : 3 + missing = 4 := hmissing
  obtain rfl : taken = 3 := by omega
  obtain rfl : missing = 1 := by omega
  exact ⟨hresult, htook, hskip, hnone⟩

end UserVault.Vault
