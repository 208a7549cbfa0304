import UserVault.Proofs.Link.Taking
import UserVault.Proofs.Link.Capacity
import UserVault.Protocol.ReplyWriter

/-!
# Copying content

Content is copied from any source to any sink as far as both allow.  What is written is what was
taken, but for one chunk at most, and the end of it tells which of the two stopped it
(`Copied`).
-/

namespace UserVault.Protocol

open Link

/-! ## 1. How the copying ends -/

/-- What a flush makes of a result. -/
def flushed (flushFault : Option FaultKind) (result : Except FrameError Unit) :
    Except FrameError Unit :=
  match flushFault with
  | none => result
  | some kind => .error (.transport (.raised kind))

/-- How the copying ends where the sink takes all, by the bytes that the source has in all before
it stops, by what stops it, and by what flushes come to. -/
def ending (length : UInt32) (available : Nat) (barrier flushFault : Option FaultKind) :
    Except FrameError Unit :=
  if length.toNat ≤ available then flushed flushFault (.ok ())
  else
    match barrier with
    | none => flushed flushFault (.error (.shortContent length available))
    | some kind => .error (.transport (.raised kind))

theorem flushed_eq_ok {flushFault : Option FaultKind} {result : Except FrameError Unit} :
    flushed flushFault result = .ok () ↔ flushFault = none ∧ result = .ok () := by
  cases flushFault <;> simp [flushed]

theorem flushed_eq_short {flushFault : Option FaultKind} {result : Except FrameError Unit}
    {declared : UInt32} {sent : Nat} :
    flushed flushFault result = .error (.shortContent declared sent) ↔
      flushFault = none ∧ result = .error (.shortContent declared sent) := by
  cases flushFault <;> simp [flushed]

section

variable {length : UInt32} {available : Nat} {barrier flushFault : Option FaultKind}

theorem ending_of_le (h : length.toNat ≤ available) :
    ending length available barrier flushFault = flushed flushFault (.ok ()) := if_pos h

theorem ending_of_lt (h : available < length.toNat) :
    ending length available barrier flushFault =
      match barrier with
      | none => flushed flushFault (.error (.shortContent length available))
      | some kind => .error (.transport (.raised kind)) := if_neg (Nat.not_le.mpr h)

theorem ending_eq_ok :
    ending length available barrier flushFault = .ok () ↔
      length.toNat ≤ available ∧ flushFault = none := by
  by_cases h : length.toNat ≤ available
  · rw [ending_of_le h, flushed_eq_ok]
    simp [h]
  · rw [ending_of_lt (Nat.lt_of_not_le h)]
    cases barrier <;> simp [h, flushed_eq_ok]

theorem ending_eq_short {declared : UInt32} {sent : Nat} :
    ending length available barrier flushFault = .error (.shortContent declared sent) ↔
      declared = length ∧ sent = available ∧ sent < length.toNat ∧ barrier = none ∧
        flushFault = none := by
  by_cases h : length.toNat ≤ available
  · rw [ending_of_le h, flushed_eq_short]
    simp only [reduceCtorEq, and_false, false_iff]
    omega
  · rw [ending_of_lt (Nat.lt_of_not_le h)]
    cases barrier with
    | some kind => simp
    | none =>
      simp only [flushed_eq_short, Except.error.injEq, FrameError.shortContent.injEq]
      constructor
      · rintro ⟨hfault, rfl, rfl⟩
        exact ⟨rfl, rfl, Nat.lt_of_not_le h, trivial, hfault⟩
      · rintro ⟨rfl, rfl, -, -, hfault⟩
        exact ⟨hfault, rfl, rfl⟩

end

/-! ## 2. What is copied -/

/-- The content that is still to be copied when `sent` bytes have been. -/
def contentLeft (length : UInt32) (sent : Nat) (source : Source) : Bytes :=
  source.front.take (length.toNat - sent)

/-- What came of the copying after `sent` bytes: it took `taken` from the source and wrote `written`
of it. -/
structure Copied (chunk : Nat) (length : UInt32) (sent : Nat) (source : Source) (sink : Sink)
    (out : Streamed) (taken written : Bytes) : Prop where
  kept : source.bytes = taken ++ out.source.bytes
  wrote : sink.Wrote out.sink written
  first : taken <+: contentLeft length sent source
  begun : written <+: taken
  /-- At most one chunk is lost between the two. -/
  ahead : taken.length ≤ written.length + max 1 chunk
  whole : sink.Takes (contentLeft length sent source).length →
    written = contentLeft length sent source ∧
      out.result = ending length (sent + source.front.length) source.barrier sink.flushFault
  full : ¬sink.Takes (contentLeft length sent source).length →
    ∃ fault, out.result = .error (.transport fault)

section

variable {chunk : Nat} {length : UInt32} {sent : Nat} {source rest : Source} {sink sink' : Sink}
  {out : Streamed} {got taken written : Bytes}

/-- There was room for all of it, if the copying succeeded. -/
theorem Copied.takes_of_ok (h : Copied chunk length sent source sink out taken written)
    (hok : out.result = .ok ()) : sink.Takes (contentLeft length sent source).length := by
  by_cases htakes : sink.Takes (contentLeft length sent source).length
  · exact htakes
  · obtain ⟨fault, hfault⟩ := h.full htakes
    cases hok.symm.trans hfault

/-- There is nothing to be copied. -/
theorem copied_nothing (hleft : contentLeft length sent source = [])
    (hsource : source.bytes = out.source.bytes) (hsink : sink.Wrote out.sink [])
    (hresult : out.result =
      ending length (sent + source.front.length) source.barrier sink.flushFault) :
    Copied chunk length sent source sink out [] [] where
  kept := hsource
  wrote := hsink
  first := List.nil_prefix
  begun := List.prefix_rfl
  ahead := Nat.zero_le _
  whole _ := ⟨hleft.symm, hresult⟩
  full hfull := by
    rw [hleft] at hfull
    exact absurd sink.takes_zero hfull

/-- What a read brings is the first of the content. -/
theorem contentLeft_eq (hfront : source.front = got ++ rest.front)
    (hle : got.length ≤ length.toNat - sent) :
    contentLeft length sent source = got ++ contentLeft length (sent + got.length) rest := by
  rw [contentLeft, hfront, List.take_append, List.take_of_length_le hle, Nat.sub_sub, contentLeft]

/-- The sink took only a part of what was read, or nothing of it. -/
theorem copied_cut (hfront : source.front = got ++ rest.front) (hrest : rest = out.source)
    (hle : got.length ≤ length.toNat - sent) (hchunk : got.length ≤ max 1 chunk)
    (hsource : source.bytes = got ++ rest.bytes) (hsink : sink.Wrote out.sink written)
    (hwritten : written <+: got) (hfull : ¬sink.Takes got.length) {fault : Fault}
    (hresult : out.result = .error (.transport fault)) :
    Copied chunk length sent source sink out got written where
  kept := hrest ▸ hsource
  wrote := hsink
  first := by
    rw [contentLeft_eq hfront hle]
    exact List.prefix_append ..
  begun := hwritten
  ahead := Nat.le_trans hchunk (Nat.le_add_left _ _)
  whole htakes := by
    rw [contentLeft_eq hfront hle, List.length_append] at htakes
    exact absurd (htakes.mono (Nat.le_add_right _ _)) hfull
  full _ := ⟨fault, hresult⟩

/-- The sink took what was read, and the copying went on. -/
theorem Copied.after (hfront : source.front = got ++ rest.front)
    (hbarrier : rest.barrier = source.barrier) (hle : got.length ≤ length.toNat - sent)
    (hsource : source.bytes = got ++ rest.bytes) (hsink : sink.Wrote sink' got)
    (h : Copied chunk length (sent + got.length) rest sink' out taken written) :
    Copied chunk length sent source sink out (got ++ taken) (got ++ written) where
  kept := by rw [hsource, h.kept, List.append_assoc]
  wrote := hsink.trans h.wrote
  first := by
    rw [contentLeft_eq hfront hle]
    exact (List.prefix_append_right_inj got).mpr h.first
  begun := (List.prefix_append_right_inj got).mpr h.begun
  ahead := by
    have hahead := h.ahead
    rw [List.length_append, List.length_append]
    omega
  whole htakes := by
    rw [contentLeft_eq hfront hle, List.length_append, ← hsink.takes_iff] at htakes
    obtain ⟨hwritten, hresult⟩ := h.whole htakes
    refine ⟨by rw [contentLeft_eq hfront hle, hwritten], ?_⟩
    rw [hresult, hbarrier, hsink.flushFault, hfront, List.length_append, Nat.add_assoc]
  full hfull := by
    rw [contentLeft_eq hfront hle, List.length_append, ← hsink.takes_iff] at hfull
    exact h.full hfull

/-- Where all has been copied, the sink is flushed. -/
theorem copyContent_done (chunk : Nat) (source : Source) (sink : Sink) (h : length.toNat ≤ sent) :
    ∃ sink', sink.Wrote sink' [] ∧ copyContent chunk length sent source sink =
      ⟨flushed sink.flushFault (.ok ()), source, sink'⟩ := by
  obtain ⟨sink', hwrote, hflush⟩ := sink.flush_eq
  refine ⟨sink', hwrote, ?_⟩
  rw [copyContent, copyFrom, if_neg (Nat.not_lt.mpr h), hflush]
  cases sink.flushFault <;> rfl

/-- Where the source has stopped too early, the sink is flushed if that was its end. -/
theorem copyContent_stopped (chunk : Nat) {source : Source} (sink : Sink)
    (hnil : source.front = []) (h : sent < length.toNat) :
    ∃ rest sink', source.bytes = rest.bytes ∧ sink.Wrote sink' [] ∧
      copyContent chunk length sent source sink =
        ⟨ending length sent source.barrier sink.flushFault, rest, sink'⟩ := by
  have hroom : min (max 1 chunk) (length.toNat - sent) ≠ 0 := by omega
  obtain ⟨hbytes, -⟩ := source.bytes_of_read (min (max 1 chunk) (length.toNat - sent))
  rw [copyContent, copyFrom, if_pos h, ending_of_lt h]
  rcases source.read_of_front hroom with ⟨-, rest, hread⟩ | ⟨b, bs, rest, -, -, hfront, -⟩
  · rw [hread] at hbytes ⊢
    cases hstop : source.barrier with
    | some kind =>
      rw [hstop] at hbytes
      exact ⟨rest, sink, hbytes, sink.wrote_refl, rfl⟩
    | none =>
      rw [hstop] at hbytes
      obtain ⟨sink', hwrote, hflush⟩ := sink.flush_eq
      refine ⟨rest, sink', hbytes, hwrote, ?_⟩
      dsimp only
      rw [hflush]
      cases sink.flushFault <;> rfl
  · rw [hnil] at hfront
    cases hfront

/-- However source and sink behave, the copying takes and writes the content as far as it gets. -/
theorem copied_copyContent (chunk : Nat) (source : Source) (sink : Sink)
    (hsent : sent ≤ length.toNat) : ∃ taken written,
    Copied chunk length sent source sink (copyContent chunk length sent source sink)
      taken written := by
  -- the induction is on the bytes that are still to come
  induction hleft : length.toNat - sent using Nat.strongRecOn generalizing sent source sink with
  | _ left ih =>
    by_cases hlt : sent < length.toNat
    · by_cases hnil : source.front = []
      · have hnone : contentLeft length sent source = [] := by rw [contentLeft, hnil, List.take_nil]
        obtain ⟨rest, sink', hbytes, hwrote, hcopy⟩ := copyContent_stopped chunk sink hnil hlt
        refine ⟨[], [], copied_nothing hnone ?_ ?_ ?_⟩
        · rw [hcopy, hbytes]
        · rw [hcopy]
          exact hwrote
        · rw [hcopy, hnil, List.length_nil, Nat.add_zero]
      · have hroom : min (max 1 chunk) (length.toNat - sent) ≠ 0 := by omega
        obtain ⟨b, bs, rest, hread, hlen, hfront, hbarrier⟩ :=
          (source.read_of_front hroom).resolve_left fun h => hnil h.1
        have hle : (b :: bs).length ≤ length.toNat - sent := by omega
        obtain ⟨hbytes, -⟩ := Source.bytes_read hread
        have hspec := sink.writeAll_spec (b :: bs)
        rw [copyContent, copyFrom, if_pos hlt, hread]
        dsimp only
        generalize sink.writeAll (b :: bs) = result at hspec ⊢
        cases hspec with
        | part sink' fault begun hwrote hbegun hfull hless =>
          exact ⟨b :: bs, begun, copied_cut hfront rfl hle (by omega) hbytes hwrote hbegun
            (Sink.not_takes_of_limit hfull hless) rfl⟩
        | whole sink' hwrote =>
          have hless : length.toNat - (sent + (b :: bs).length) < left := by
            rw [List.length_cons]
            omega
          obtain ⟨taken, written, hcopied⟩ := ih _ hless rest sink' (by omega) rfl
          exact ⟨_, _, hcopied.after hfront hbarrier hle hbytes hwrote⟩
    · have hdone : length.toNat ≤ sent := Nat.le_of_not_lt hlt
      have hnone : contentLeft length sent source = [] := by
        rw [contentLeft, Nat.sub_eq_zero_of_le hdone, List.take_zero]
      obtain ⟨sink', hwrote, hcopy⟩ := copyContent_done chunk source sink hdone
      refine ⟨[], [], copied_nothing hnone ?_ ?_ ?_⟩
      · rw [hcopy]
      · rw [hcopy]
        exact hwrote
      · rw [hcopy, ending_of_le (Nat.le_trans hdone (Nat.le_add_right _ _))]

end

end UserVault.Protocol
