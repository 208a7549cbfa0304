import UserVault.Vault.Upload
import UserVault.Proofs.Link.Front

/-!
# Uploads come to an end and account for their payload

Whatever the disk is like and whichever calls the system makes fail, an upload that is run comes
to an end, and what its end says about the payload is true: after a success all of it has been
read, after a failure of the vault all but the bytes that the failure counts as unread, and only a
payload that does not come in whole ends in a failure of the transport.
-/

namespace UserVault.Vault.Upload

open Disk Link

variable {v : Vault} {u : Upload} {s : State} {fault : Option Errno}

/-! ## 1. The end -/

/-- A turn is under way exactly where the stage says so. -/
def Steady (u : Upload) : Prop :=
  match u.stage with
  | .takingTurn => u.turn = .coming ∨ ∃ id, u.turn = .waiting id
  | .givingTurn _ => u.turn ≠ .gone
  | _ => True

theorem steady_start (v : Vault) (user : UInt32) (name : Bytes) (length : UInt32) (body : Source) :
    (start v user name length body).Steady := by
  unfold start
  split <;> trivial

/-- When the work on the path is over, at most the turn is still to be given up. -/
theorem stage_settle (u : Upload) (result : Except StoreError Unit) :
    (u.settle result).stage = .finished result ∨ (u.settle result).stage = .givingTurn result := by
  unfold settle
  by_cases hturn : u.turn = .gone
  · exact .inl (if_pos hturn)
  · exact .inr (if_neg hturn)

theorem steady_settle (u : Upload) (result : Except StoreError Unit) :
    (u.settle result).Steady := by
  unfold settle Steady
  by_cases h : u.turn = .gone
  · simp [h]
  · simp [h]

theorem stepsLeft_settle_le (u : Upload) (result : Except StoreError Unit) :
    (u.settle result).stepsLeft ≤ 5 := by
  unfold settle stepsLeft
  by_cases h : u.turn = .gone
  · simp [h]
  · simp only [h, if_false]
    cases u.turn <;> simp [Turn.stepsLeft]

theorem steady_copyChunk (v : Vault) (fault : Option Errno) (file : Handle) (staged : Option Path)
    (u : Upload) (s : State) : (u.copyChunk v fault file staged s).1.Steady := by
  dsimp only [copyChunk]
  split
  · trivial
  · split <;> trivial

theorem steady_openFile (v : Vault) (fault : Option Errno) (u : Upload) (s : State) :
    (u.openFile v fault s).1.Steady := by
  dsimp only [openFile]
  split <;> split
  · exact steady_settle ..
  · trivial
  · exact steady_settle ..
  · trivial

theorem steady_step (h : u.Steady) : (u.step v fault s).1.Steady := by
  cases hstage : u.stage with
  | preparing =>
    simp only [step, hstage]
    split
    · exact steady_settle ..
    · split
      · exact steady_settle ..
      · split
        · exact .inl rfl
        · trivial
  | takingTurn =>
    simp only [Steady, hstage] at h
    simp only [step, hstage, State.advance]
    -- a turn that has come starts to wait, and one that waits comes to be inside
    rcases h with h | ⟨id, h⟩
    · rw [h]
      exact .inr ⟨_, rfl⟩
    · rw [h]
      trivial
  | opening =>
    simp only [step, hstage]
    exact steady_openFile ..
  | copying file staged =>
    simp only [step, hstage]
    split
    · trivial
    · exact steady_copyChunk ..
  | flushing file staged =>
    simp only [step, hstage]
    split <;> trivial
  | syncing file staged =>
    simp only [step, hstage]
    split
    · trivial
    · split
      · trivial
      · exact steady_settle ..
  | publishing staged =>
    simp only [step, hstage]
    split
    · trivial
    · exact steady_settle ..
  | discarding staged cause =>
    simp only [step, hstage]
    exact steady_settle ..
  | givingTurn result =>
    simp only [step, hstage, State.advance]
    by_cases hgone : (u.turn.next u.target s.turns).1 = .gone
    · simp [Steady, hgone]
    · simp [Steady, hgone]
  | finished result =>
    simp only [step, hstage]
    exact h

theorem stepsLeft_copyChunk_lt (v : Vault) (fault : Option Errno) (file : Handle)
    (staged : Option Path) (u : Upload) (s : State) (h : u.remaining ≠ 0) :
    (u.copyChunk v fault file staged s).1.stepsLeft < 10 + u.remaining := by
  -- a chunk is at least one byte, so each takes something off what remains
  have hchunk : 1 ≤ v.chunkSize := Nat.le_max_left ..
  dsimp only [copyChunk]
  split
  · simp [stepsLeft]
    omega
  · split
    · simp [stepsLeft]
      omega
    · simp [stepsLeft]
      omega

theorem stepsLeft_openFile_lt (v : Vault) (fault : Option Errno) (u : Upload) (s : State) :
    (u.openFile v fault s).1.stepsLeft < 11 + u.remaining := by
  have hsettle (result : Except StoreError Unit) :
      (u.settle result).stepsLeft < 11 + u.remaining := by
    have hle := stepsLeft_settle_le u result
    omega
  dsimp only [openFile]
  split <;> split
  · exact hsettle _
  · simp [stepsLeft]
  · exact hsettle _
  · simp [stepsLeft]

/-- Every step brings a steady upload nearer to its end. -/
theorem stepsLeft_step_lt (v : Vault) (fault : Option Errno) (s : State) (h : u.Steady)
    (hresult : u.result? = none) :
    (u.step v fault s).1.stepsLeft < u.stepsLeft := by
  have hsettle (u : Upload) (result : Except StoreError Unit) := stepsLeft_settle_le u result
  cases hstage : u.stage with
  | preparing =>
    have hbound : u.stepsLeft = 17 + u.remaining := by simp only [stepsLeft, hstage]
    simp only [step, hstage]
    split
    · exact Nat.lt_of_le_of_lt (hsettle ..) (by omega)
    · split
      · exact Nat.lt_of_le_of_lt (hsettle ..) (by omega)
      · split
        · show 11 + u.remaining + 5 < _
          omega
        · show 11 + u.remaining < _
          omega
  | takingTurn =>
    simp only [Steady, hstage] at h
    have hbound : u.stepsLeft = 11 + u.remaining + u.turn.stepsLeft := by
      simp only [stepsLeft, hstage]
    rw [hbound]
    simp only [step, hstage, State.advance]
    rcases h with h | ⟨id, h⟩
    · rw [h]
      simp [Turn.next, stepsLeft, Turn.stepsLeft]
    · rw [h]
      simp [Turn.next, stepsLeft, Turn.stepsLeft]
  | opening =>
    have hbound : u.stepsLeft = 11 + u.remaining := by simp only [stepsLeft, hstage]
    simp only [step, hstage, hbound]
    exact stepsLeft_openFile_lt ..
  | copying file staged =>
    have hbound : u.stepsLeft = 10 + u.remaining := by simp only [stepsLeft, hstage]
    simp only [step, hstage, hbound]
    by_cases hzero : u.remaining = 0
    · simp [hzero, stepsLeft]
    · simp only [hzero, if_false]
      exact stepsLeft_copyChunk_lt _ _ _ _ _ _ hzero
  | flushing file staged =>
    have hbound : u.stepsLeft = 9 := by simp only [stepsLeft, hstage]
    simp only [step, hstage, hbound]
    split <;> simp [stepsLeft]
  | syncing file staged =>
    have hbound : u.stepsLeft = 8 := by simp only [stepsLeft, hstage]
    simp only [step, hstage, hbound]
    split
    · simp [stepsLeft]
    · split
      · simp [stepsLeft]
      · exact Nat.lt_of_le_of_lt (hsettle ..) (by omega)
  | publishing staged =>
    have hbound : u.stepsLeft = 7 := by simp only [stepsLeft, hstage]
    simp only [step, hstage, hbound]
    split
    · simp [stepsLeft]
    · exact Nat.lt_of_le_of_lt (hsettle ..) (by omega)
  | discarding staged cause =>
    have hbound : u.stepsLeft = 6 := by simp only [stepsLeft, hstage]
    simp only [step, hstage, hbound]
    exact Nat.lt_of_le_of_lt (hsettle ..) (by omega)
  | givingTurn result =>
    simp only [Steady, hstage] at h
    have hbound : u.stepsLeft = u.turn.stepsLeft := by simp only [stepsLeft, hstage]
    rw [hbound]
    simp only [step, hstage, State.advance]
    cases hturn : u.turn with
    | gone => exact absurd hturn h
    | coming => simp [Turn.next, stepsLeft, Turn.stepsLeft]
    | waiting id => simp [Turn.next, stepsLeft, Turn.stepsLeft]
    | inside id => simp [Turn.next, stepsLeft, Turn.stepsLeft]
    | released id => simp [Turn.next, stepsLeft, Turn.stepsLeft]
    | leaving => simp [Turn.next, stepsLeft, Turn.stepsLeft]
  | finished result => simp [result?, hstage] at hresult

theorem stage_of_result? {result : Except StoreError Unit} (h : u.result? = some result) :
    u.stage = .finished result := by
  unfold result? at h
  split at h
  next hstage =>
    rw [hstage, Option.some.inj h]
  next => cases h

theorem step_of_finished {result : Except StoreError Unit} (h : u.stage = .finished result)
    (v : Vault) (fault : Option Errno) (s : State) : u.step v fault s = (u, s) := by
  simp only [step, h]

theorem runFor_of_finished (v : Vault) (steps : Nat) (faults : Nat → Option Errno) (s : State)
    {result : Except StoreError Unit} (h : u.stage = .finished result) :
    u.runFor v steps faults s = (u, s) := by
  cases steps with
  | zero => rfl
  | succ steps => simp only [runFor, h]

theorem runFor_succ (v : Vault) (steps : Nat) (faults : Nat → Option Errno) (s : State)
    (h : u.result? = none) :
    u.runFor v (steps + 1) faults s =
      (u.step v (faults 0) s).1.runFor v steps (fun n => faults (n + 1))
        (u.step v (faults 0) s).2 := by
  cases hstage : u.stage with
  | finished result => simp [result?, hstage] at h
  | _ => simp only [runFor, hstage]

/-- A run of one step more takes one step more at its end. -/
theorem runFor_concat (v : Vault) (steps : Nat) (faults : Nat → Option Errno) (u : Upload)
    (s : State) :
    u.runFor v (steps + 1) faults s =
      (u.runFor v steps faults s).1.step v (faults steps) (u.runFor v steps faults s).2 := by
  induction steps generalizing faults u s with
  | zero =>
    cases hresult : u.result? with
    | none => exact runFor_succ v 0 faults s hresult
    | some result =>
      have hstage := stage_of_result? hresult
      rw [runFor_of_finished v _ faults s hstage]
      exact (step_of_finished hstage v _ s).symm
  | succ steps ih =>
    cases hresult : u.result? with
    | none =>
      rw [runFor_succ v _ faults s hresult, runFor_succ v steps faults s hresult]
      exact ih _ _ _
    | some result =>
      have hstage := stage_of_result? hresult
      rw [runFor_of_finished v _ faults s hstage, runFor_of_finished v _ faults s hstage]
      exact (step_of_finished hstage v _ s).symm

/-- Once an upload is finished, nothing more comes of it. -/
theorem runFor_of_le {steps steps' : Nat} {faults : Nat → Option Errno} {s : State}
    {result : Except StoreError Unit} (h : (u.runFor v steps faults s).1.stage = .finished result)
    (hle : steps ≤ steps') : u.runFor v steps' faults s = u.runFor v steps faults s := by
  induction hle with
  | refl => rfl
  | step _ ih =>
    rw [runFor_concat, ih]
    exact step_of_finished h v _ _

/-- What every step preserves holds after a run. -/
theorem runFor_induction {motive : Upload → State → Prop} (v : Vault) (steps : Nat)
    (faults : Nat → Option Errno)
    (hstep : ∀ n u s, u.result? = none → motive u s →
      motive (u.step v (faults n) s).1 (u.step v (faults n) s).2)
    {u : Upload} {s : State} (h : motive u s) :
    motive (u.runFor v steps faults s).1 (u.runFor v steps faults s).2 := by
  induction steps generalizing faults u s with
  | zero => exact h
  | succ steps ih =>
    cases hresult : u.result? with
    | none =>
      rw [runFor_succ v steps faults s hresult]
      exact ih _ (fun n => hstep (n + 1)) (hstep 0 u s hresult h)
    | some result =>
      have hstage := stage_of_result? hresult
      rw [runFor_of_finished v _ faults s hstage]
      exact h

theorem runFor_finished (v : Vault) (steps : Nat) (faults : Nat → Option Errno) (u : Upload)
    (s : State) (h : u.Steady) (hsteps : u.stepsLeft ≤ steps) :
    ∃ result, (u.runFor v steps faults s).1.stage = .finished result := by
  induction steps generalizing faults u s with
  | zero =>
    cases hstage : u.stage with
    | finished result => exact ⟨result, hstage⟩
    | givingTurn result =>
      -- nothing is left of a turn only when it is gone
      simp only [Steady, hstage] at h
      simp only [stepsLeft, hstage] at hsteps
      cases hturn : u.turn <;> simp_all [Turn.stepsLeft]
    | takingTurn => simp only [stepsLeft, hstage] at hsteps; omega
    | _ => simp only [stepsLeft, hstage] at hsteps; omega
  | succ steps ih =>
    cases hresult : u.result? with
    | none =>
      rw [runFor_succ v steps faults s hresult]
      have hlt := stepsLeft_step_lt v (faults 0) s h hresult
      exact ih _ _ _ (steady_step h) (by omega)
    | some result =>
      have hstage := stage_of_result? hresult
      rw [runFor_of_finished v _ faults s hstage]
      exact ⟨result, hstage⟩

theorem run_finished (v : Vault) (faults : Nat → Option Errno) (s : State) (h : u.Steady) :
    ∃ result, (u.run v faults s).1.stage = .finished result :=
  runFor_finished v _ faults u s h (Nat.le_refl _)

/-! ## 2. The payload -/

/-- What a store has come to, in the stages in which that is known. -/
def outcome? (u : Upload) : Option (Except StoreError Unit) :=
  match u.stage with
  | .discarding _ cause => some (.error cause)
  | .givingTurn result | .finished result => some result
  | _ => none

/-- Whether the stage comes after the last read. -/
def hasRead (u : Upload) : Bool :=
  match u.stage with
  | .flushing _ _ | .syncing _ _ | .publishing _ => true
  | _ => false

theorem outcome?_settle (u : Upload) (result : Except StoreError Unit) :
    (u.settle result).outcome? = some result := by
  unfold outcome?
  rcases stage_settle u result with hstage | hstage <;> rw [hstage]

theorem hasRead_settle (u : Upload) (result : Except StoreError Unit) :
    (u.settle result).hasRead = false := by
  unfold hasRead
  rcases stage_settle u result with hstage | hstage <;> rw [hstage]

/-- Once it is known what a store has come to, that stays, and nothing more is read. -/
theorem step_of_outcome (v : Vault) (fault : Option Errno) (s : State)
    {result : Except StoreError Unit} (h : u.outcome? = some result) :
    (u.step v fault s).1.outcome? = some result ∧
      (u.step v fault s).1.body = u.body ∧ (u.step v fault s).1.remaining = u.remaining := by
  cases hstage : u.stage with
  | discarding staged cause =>
    simp only [outcome?, hstage, Option.some.injEq] at h
    simp only [step, hstage]
    exact ⟨by rw [outcome?_settle, h], by trivial, by trivial⟩
  | givingTurn result' =>
    simp only [outcome?, hstage, Option.some.injEq] at h
    simp only [step, hstage]
    refine ⟨?_, by trivial, by trivial⟩
    by_cases hgone : (u.turn.next u.target s.turns).1 = .gone
    · simp [outcome?, State.advance, hgone, h]
    · simp [outcome?, State.advance, hgone, h]
  | finished result' =>
    simp only [step, hstage]
    exact ⟨h, by trivial, by trivial⟩
  | _ => simp [outcome?, hstage] at h

/-- How many payload bytes a store that came to `result` has left unread, if the stream it read
from is still good. -/
def unread? : Except StoreError Unit → Option Nat
  | .ok () => some 0
  | .error (.vault _ unread) => some unread
  | .error (.transport _) => none

/-- Of `payload`, all but the last `remaining` bytes have been read; the source lacks `missing` of
what is left, or has `tail` behind it. -/
structure Fed (payload missing tail : Bytes) (barrier : Option FaultKind) (u : Upload) : Prop where
  remaining_le : u.remaining ≤ payload.length
  front : u.body.front ++ missing = payload.drop (payload.length - u.remaining) ++ tail
  barrier : u.body.barrier = barrier

/-- What an upload says about its payload is true. -/
inductive Accounts (payload missing tail : Bytes) (barrier : Option FaultKind) (u : Upload) : Prop
  | good (fed : u.Fed payload missing tail barrier) (hasRead : u.hasRead → u.remaining = 0)
      (outcome : ∀ result, u.outcome? = some result → unread? result = some u.remaining)
  | cutOff (cause : Fault) (outcome : u.outcome? = some (.error (.transport cause)))
      (missing_ne : missing ≠ [])

variable {payload missing tail : Bytes} {barrier : Option FaultKind}

theorem Accounts.of_outcome {result : Except StoreError Unit}
    (hfed : u.Fed payload missing tail barrier) (hread : u.hasRead = false)
    (hout : u.outcome? = some result) (hunread : unread? result = some u.remaining) :
    u.Accounts payload missing tail barrier := by
  refine .good hfed (fun h => ?_) fun result' hresult' => ?_
  · rw [hread] at h
    cases h
  · rw [hout] at hresult'
    cases hresult'
    exact hunread

theorem Accounts.of_none (hfed : u.Fed payload missing tail barrier)
    (hread : u.hasRead → u.remaining = 0) (hout : u.outcome? = none) :
    u.Accounts payload missing tail barrier := by
  refine .good hfed hread fun result hresult => ?_
  rw [hout] at hresult
  cases hresult

theorem accounts_start (v : Vault) (user : UInt32) (name : Bytes) {length : UInt32}
    {body : Source} (hlength : payload.length = length.toNat)
    (hfront : body.front ++ missing = payload ++ tail) :
    (start v user name length body).Accounts payload missing tail body.barrier := by
  have hfed (u : Upload) (hremaining : u.remaining = length.toNat) (hbody : u.body = body) :
      u.Fed payload missing tail body.barrier :=
    ⟨by omega, by rw [hbody, hremaining, hlength, Nat.sub_self, List.drop_zero, hfront],
      by rw [hbody]⟩
  unfold start
  split
  · exact .of_outcome (hfed _ rfl rfl) rfl rfl rfl
  · exact .of_none (hfed _ rfl rfl) (fun h => by cases h) rfl

/-- An upload that has come to an end before its payload was read. -/
theorem accounts_settle (hfed : u.Fed payload missing tail barrier)
    {result : Except StoreError Unit} (hresult : unread? result = some u.remaining) :
    (u.settle result).Accounts payload missing tail barrier :=
  .of_outcome ⟨hfed.remaining_le, hfed.front, hfed.barrier⟩ (hasRead_settle u result)
    (outcome?_settle u result) hresult

/-- The next chunk is at the front of the source, or the source is cut off before its end. -/
theorem Fed.exactly (h : u.Fed payload missing tail barrier) {want : Nat}
    (hwant : want ≤ u.remaining) :
    (∃ chunk rest, Source.exactly want u.body = (.ok chunk, rest) ∧
        chunk = (payload.drop (payload.length - u.remaining)).take want ∧
        rest.front ++ missing = payload.drop (payload.length - (u.remaining - want)) ++ tail ∧
        rest.barrier = barrier) ∨
      (∃ cause rest, Source.exactly want u.body = (.error cause, rest) ∧ missing ≠ []) := by
  have hle := h.remaining_le
  have hfront := h.front
  obtain ⟨chunk, hchunk⟩ :
      ∃ chunk, chunk = (payload.drop (payload.length - u.remaining)).take want := ⟨_, rfl⟩
  have hlen : chunk.length = want := by
    rw [hchunk, List.length_take, List.length_drop]
    omega
  have hsplit : payload.drop (payload.length - u.remaining) =
      chunk ++ payload.drop (payload.length - (u.remaining - want)) := by
    rw [hchunk, show payload.length - (u.remaining - want) =
      payload.length - u.remaining + want by omega, ← List.drop_drop, List.take_append_drop]
  rw [hsplit, List.append_assoc] at hfront
  -- either the source ends within the chunk, or the chunk and more is there
  rcases List.append_eq_append_iff.mp hfront with ⟨short, hshort, hmissing⟩ | ⟨rest, hrest, htail⟩
  · by_cases hnil : short = []
    · subst hnil
      obtain ⟨rest, hread, hrest, hbarrier⟩ := Reading.reads_exactly chunk u.body []
        (by rw [hshort, List.append_nil, List.append_nil])
      rw [hlen] at hread
      exact .inl ⟨chunk, rest, hread, hchunk, by rw [hrest, hmissing]; rfl,
        hbarrier.trans h.barrier⟩
    · obtain ⟨cause, rest, hread⟩ :=
        Reading.starves_exactly chunk u.body short hshort.symm hnil
      rw [hlen] at hread
      refine .inr ⟨cause, rest, hread, ?_⟩
      rw [hmissing]
      exact fun hnil' => hnil (List.append_eq_nil_iff.mp hnil').1
  · obtain ⟨rest', hread, hfront', hbarrier⟩ := Reading.reads_exactly chunk u.body rest hrest
    rw [hlen] at hread
    exact .inl ⟨chunk, rest', hread, hchunk, by rw [hfront', ← htail], hbarrier.trans h.barrier⟩

theorem accounts_copyChunk (hfed : u.Fed payload missing tail barrier) (file : Handle)
    (staged : Option Path) :
    (u.copyChunk v fault file staged s).1.Accounts payload missing tail barrier := by
  have hwant : min v.chunkSize u.remaining ≤ u.remaining := Nat.min_le_right ..
  have hle := hfed.remaining_le
  rcases hfed.exactly hwant with
    ⟨chunk, rest, hread, _, hfront, hbarrier⟩ | ⟨cause, rest, hread, hmissing⟩
  · have hfed' (u' : Upload) (hremaining : u'.remaining = u.remaining - min v.chunkSize u.remaining)
        (hbody : u'.body = rest) : u'.Fed payload missing tail barrier :=
      ⟨by omega, by rw [hbody, hremaining, hfront], by rw [hbody, hbarrier]⟩
    simp only [copyChunk, hread]
    split
    · exact .of_outcome (hfed' _ rfl rfl) rfl rfl rfl
    · exact .of_none (hfed' _ rfl rfl) (fun h => by cases h) rfl
  · simp only [copyChunk, hread]
    exact .cutOff cause rfl hmissing

theorem accounts_step (v : Vault) (fault : Option Errno) (s : State)
    (h : u.Accounts payload missing tail barrier) :
    (u.step v fault s).1.Accounts payload missing tail barrier := by
  cases hout : u.outcome? with
  -- what the store came to stays, and so do the bytes it has left unread
  | some result =>
    obtain ⟨houtcome, hbody, hremaining⟩ := step_of_outcome v fault s hout
    cases h with
    | cutOff cause hcause hmissing =>
      rw [hout] at hcause
      exact .cutOff cause (by rw [houtcome, hcause]) hmissing
    | good fed hread houtcome' =>
      refine .good ⟨by rw [hremaining]; exact fed.remaining_le,
        by rw [hbody, hremaining]; exact fed.front, by rw [hbody]; exact fed.barrier⟩ ?_ ?_
      · intro hread'
        cases hstage : (u.step v fault s).1.stage <;> simp_all [hasRead, outcome?]
      · intro result' hresult'
        rw [houtcome] at hresult'
        rw [hremaining]
        exact houtcome' result' (by rw [hout, hresult'])
  | none =>
    cases h with
    | cutOff cause hcause _ =>
      rw [hout] at hcause
      cases hcause
    | good fed hread _ =>
      have hfail (u' : Upload) (hfed : u'.Fed payload missing tail barrier) (e : Errno) :
          (u'.settle (.error (failure e u'.remaining))).Accounts payload missing tail barrier :=
        accounts_settle hfed rfl
      -- only a chunk's copying touches the source; every other step leaves it as it is
      have hkeep (u' : Upload) (hbody : u'.body = u.body)
          (hremaining : u'.remaining = u.remaining) : u'.Fed payload missing tail barrier :=
        ⟨by rw [hremaining]; exact fed.remaining_le, by rw [hbody, hremaining]; exact fed.front,
          by rw [hbody]; exact fed.barrier⟩
      cases hstage : u.stage with
      | preparing =>
        simp only [step, hstage]
        split
        · exact hfail _ fed _
        · split
          · exact hfail _ fed _
          · split <;> exact .of_none (hkeep _ rfl rfl) (fun h => by cases h) rfl
      | takingTurn =>
        simp only [step, hstage]
        split
        · exact .of_none (hkeep _ rfl rfl) (fun h => by cases h) rfl
        · exact .of_none (hkeep _ rfl rfl) (fun h => by cases h) rfl
      | opening =>
        simp only [step, hstage, openFile]
        split <;> split
        · exact accounts_settle fed rfl
        · exact .of_none (hkeep _ rfl rfl) (fun h => by cases h) rfl
        · exact hfail _ fed _
        · exact .of_none (hkeep _ rfl rfl) (fun h => by cases h) rfl
      | copying file staged =>
        simp only [step, hstage]
        split
        next hzero => exact .of_none (hkeep _ rfl rfl) (fun _ => hzero) rfl
        next => exact accounts_copyChunk fed file staged
      | flushing file staged =>
        have hzero := hread (by simp [hasRead, hstage])
        simp only [step, hstage]
        split
        · exact .of_outcome (hkeep _ rfl rfl) rfl rfl (congrArg some hzero.symm)
        · exact .of_none (hkeep _ rfl rfl) (fun _ => hzero) rfl
      | syncing file staged =>
        have hzero := hread (by simp [hasRead, hstage])
        simp only [step, hstage]
        split
        · exact .of_outcome (hkeep _ rfl rfl) rfl rfl (congrArg some hzero.symm)
        · split
          · exact .of_none (hkeep _ rfl rfl) (fun _ => hzero) rfl
          · exact accounts_settle fed (congrArg some hzero.symm)
      | publishing staged =>
        have hzero := hread (by simp [hasRead, hstage])
        simp only [step, hstage]
        split
        · exact .of_outcome (hkeep _ rfl rfl) rfl rfl (congrArg some hzero.symm)
        · exact accounts_settle fed (congrArg some hzero.symm)
      | discarding staged cause => simp [outcome?, hstage] at hout
      | givingTurn result => simp [outcome?, hstage] at hout
      | finished result => simp [outcome?, hstage] at hout

/-- What a store says about its payload when it has come to an end is true. -/
theorem accounts_run (faults : Nat → Option Errno)
    (h : u.Accounts payload missing tail barrier) :
    (u.run v faults s).1.Accounts payload missing tail barrier :=
  runFor_induction (motive := fun u _ => u.Accounts payload missing tail barrier) v u.stepsLeft
    faults (fun n _ s _ h => accounts_step v (faults n) s h) h

/-! ## 3. How the payload is cut up does not matter -/

/-- The same upload with its payload from another source. -/
def withBody (u : Upload) (body : Source) : Upload := { u with body }

theorem step_withBody (v : Vault) (fault : Option Errno) (s : State) {tail' : Bytes}
    {barrier' : Option FaultKind} {body : Source}
    (h : u.Fed payload [] tail barrier) (h' : (u.withBody body).Fed payload [] tail' barrier') :
    ∃ body', (u.withBody body).step v fault s =
      ((u.step v fault s).1.withBody body', (u.step v fault s).2) := by
  -- only the copying of a chunk looks at the source, and both sources give it the same chunk
  cases hstage : u.stage with
  | preparing =>
    refine ⟨body, ?_⟩
    simp only [step, withBody, hstage]
    split
    · rfl
    · split
      · rfl
      · split <;> rfl
  | takingTurn =>
    refine ⟨body, ?_⟩
    simp only [step, withBody, hstage]
    split <;> rfl
  | opening =>
    refine ⟨body, ?_⟩
    simp only [step, withBody, hstage, openFile]
    split <;> split <;> rfl
  | copying file staged =>
    by_cases hzero : u.remaining = 0
    · refine ⟨body, ?_⟩
      simp only [step, withBody, hstage, hzero, if_true]
    · have hwant : min v.chunkSize u.remaining ≤ u.remaining := Nat.min_le_right ..
      have hread := h.exactly hwant
      have hread' := h'.exactly hwant
      rcases hread with ⟨chunk, rest, hread, rfl, -, -⟩ | ⟨_, _, _, hne⟩
      · rcases hread' with ⟨chunk', rest', hread', rfl, -, -⟩ | ⟨_, _, _, hne⟩
        · refine ⟨rest', ?_⟩
          simp only [withBody] at hread'
          simp only [step, withBody, hstage, hzero, if_false, copyChunk, hread, hread']
          split <;> rfl
        · exact absurd rfl hne
      · exact absurd rfl hne
  | flushing file staged =>
    refine ⟨body, ?_⟩
    simp only [step, withBody, hstage]
    split <;> rfl
  | syncing file staged =>
    refine ⟨body, ?_⟩
    simp only [step, withBody, hstage]
    split
    · rfl
    · split <;> rfl
  | publishing staged =>
    refine ⟨body, ?_⟩
    simp only [step, withBody, hstage]
    split <;> rfl
  | discarding staged cause => exact ⟨body, by simp only [step, withBody, hstage, settle, discard]⟩
  | givingTurn result => exact ⟨body, by simp only [step, withBody, hstage]⟩
  | finished result => exact ⟨body, by simp only [step, withBody, hstage]⟩

theorem Accounts.fed (h : u.Accounts payload [] tail barrier) : u.Fed payload [] tail barrier := by
  cases h with
  | good fed _ _ => exact fed
  | cutOff _ _ hne => exact absurd rfl hne

theorem runFor_withBody {tail' : Bytes} {barrier' : Option FaultKind} {body : Source} (steps : Nat)
    (faults : Nat → Option Errno) (h : u.Accounts payload [] tail barrier)
    (h' : (u.withBody body).Accounts payload [] tail' barrier') :
    ∃ body', (u.withBody body).runFor v steps faults s =
      ((u.runFor v steps faults s).1.withBody body', (u.runFor v steps faults s).2) := by
  induction steps generalizing faults u s body with
  | zero => exact ⟨body, rfl⟩
  | succ steps ih =>
    cases hresult : u.result? with
    | none =>
      have hresult' : (u.withBody body).result? = none := hresult
      rw [runFor_succ v steps faults s hresult, runFor_succ v steps faults s hresult']
      obtain ⟨body', hstep⟩ := step_withBody v (faults 0) s h.fed h'.fed
      have hnext := accounts_step v (faults 0) s h'
      rw [hstep] at hnext ⊢
      exact ih _ (accounts_step v _ s h) hnext
    | some result =>
      have hstage := stage_of_result? hresult
      rw [runFor_of_finished v _ faults s hstage,
        runFor_of_finished (u := u.withBody body) v _ faults s hstage]
      exact ⟨body, rfl⟩

end UserVault.Vault.Upload

namespace UserVault.Vault

open Disk Link

variable {payload missing tail : Bytes} {length : UInt32} {body : Source}

/-- What a store leaves of its payload on the stream. -/
theorem storeWith_unread (v : Vault) (faults : Nat → Option Errno) (s : State) (user : UInt32)
    (name : Bytes) (hlength : payload.length = length.toNat)
    (hfront : body.front ++ missing = payload ++ tail) :
    match Upload.unread? (v.storeWith faults s user name length body).result with
    | some unread =>
      unread ≤ payload.length ∧
        (v.storeWith faults s user name length body).body.front ++ missing =
          payload.drop (payload.length - unread) ++ tail ∧
        (v.storeWith faults s user name length body).body.barrier = body.barrier
    | none => missing ≠ [] := by
  obtain ⟨result, hend⟩ := Upload.run_finished v faults s
    (Upload.steady_start v user name length body)
  have haccounts := Upload.accounts_run (v := v) (s := s) faults
    (Upload.accounts_start v user name hlength hfront)
  have hresult : (v.storeWith faults s user name length body).result = result := by
    simp [storeWith, Upload.result?, hend]
  have hout : ((Upload.start v user name length body).run v faults s).1.outcome? =
      some result := by
    simp only [Upload.outcome?, hend]
  rw [hresult]
  cases haccounts with
  | good fed _ houtcome =>
    rw [houtcome result hout]
    exact ⟨fed.remaining_le, fed.front, fed.barrier⟩
  | cutOff cause hcause hmissing =>
    rw [hout, Option.some.injEq] at hcause
    rw [hcause]
    exact hmissing

/-- A store of a payload that comes in whole depends on its bytes alone. -/
theorem storeWith_ofBytes (v : Vault) (faults : Nat → Option Errno) (s : State) (user : UInt32)
    (name : Bytes) (hlength : payload.length = length.toNat)
    (hfront : body.front = payload ++ tail) :
    (v.storeWith faults s user name length body).result =
        (v.storeWith faults s user name length (.ofBytes payload)).result ∧
      (v.storeWith faults s user name length body).state =
        (v.storeWith faults s user name length (.ofBytes payload)).state := by
  have hwhole : (Source.ofBytes payload).front ++ [] = payload ++ [] := by
    rw [Source.front_ofBytes]
  have hfront' : body.front ++ [] = payload ++ tail := by
    rw [List.append_nil, hfront]
  have haccounts := Upload.accounts_start v user name hlength hwhole
  have haccounts' := Upload.accounts_start v user name hlength hfront'
  -- the two runs start from uploads that differ in their sources only
  have hstart : Upload.start v user name length body =
      (Upload.start v user name length (.ofBytes payload)).withBody body := by
    unfold Upload.start
    split <;> rfl
  rw [hstart] at haccounts'
  obtain ⟨body', hrun⟩ := Upload.runFor_withBody (v := v) (s := s)
    (Upload.start v user name length body).stepsLeft faults haccounts haccounts'
  have hsteps : (Upload.start v user name length body).stepsLeft =
      (Upload.start v user name length (.ofBytes payload)).stepsLeft := by
    rw [hstart]
    rfl
  rw [← hstart, hsteps] at hrun
  constructor
  · simp only [storeWith, Upload.run, hsteps, hrun]
    rfl
  · simp only [storeWith, Upload.run, hsteps, hrun]

end UserVault.Vault
