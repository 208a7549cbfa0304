import UserVault.Proofs.Protocol.Reply

/-!
# Streamed replies between any source and any sink

The source of the content may bring it in pieces of any size, fail, end early or hold more than was
declared; the sink may take little at once, take no more after a while, and fail when flushed.  A
streamed reply is written as far as both allow, and which of them stopped it is told.
-/

namespace UserVault.Protocol

open Link

/-! ## 1. What is asked of the source -/

/-- A source of any kind has done the same as the source `out` was copied from. -/
structure Likewise {σ : Type} (R : σ → Source → Prop) (other : StreamedFrom σ) (out : Streamed) :
    Prop where
  result : other.result = out.result
  source : R other.source out.source
  sink : other.sink = out.sink

section

variable {σ : Type} {read : σ → Nat → Received × σ} {R : σ → Source → Prop} {chunk : Nat}
  (hread : ∀ other source room, R other source → 0 < room → room ≤ max 1 chunk →
    (read other room).1 = (source.read room).1 ∧
      R (read other room).2 (source.read room).2)
include hread

/-- What holds between two sources as long as no more than a chunk is read from them holds when
the copying ends. -/
theorem copyFrom_likewise (length : UInt32) {sent : Nat} {other : σ} {source : Source}
    (sink : Sink) (h : R other source) :
    Likewise R (copyFrom read chunk length sent other sink)
      (copyContent chunk length sent source sink) := by
  induction hleft : length.toNat - sent
    using Nat.strongRecOn generalizing sent other source sink with
  | _ left ih =>
    rw [copyContent, copyFrom, copyFrom]
    split
    next hlt =>
      have hroom : 0 < min (max 1 chunk) (length.toNat - sent) := by omega
      obtain ⟨hreceived, hrest⟩ := hread other source _ h hroom (Nat.min_le_left _ _)
      generalize read other (min (max 1 chunk) (length.toNat - sent)) = here at hreceived hrest ⊢
      generalize source.read (min (max 1 chunk) (length.toNat - sent)) = there at hreceived hrest ⊢
      obtain ⟨received, other'⟩ := here
      obtain ⟨_, source'⟩ := there
      obtain rfl : received = _ := hreceived
      rcases received with (_ | ⟨b, bs⟩) | _ | kind
      case bytes.cons =>
        dsimp only
        generalize sink.writeAll (b :: bs) = result
        rcases result with ⟨fault | _, sink'⟩
        · exact ⟨rfl, hrest, rfl⟩
        · have hless : length.toNat - (sent + (b :: bs).length) < left := by
            rw [List.length_cons]
            omega
          exact ih _ hless sink' hrest rfl
      case failed => exact ⟨rfl, hrest, rfl⟩
      all_goals
        dsimp only
        generalize sink.flush = result
        rcases result with ⟨fault | _, sink'⟩ <;> exact ⟨rfl, hrest, rfl⟩
    next =>
      generalize sink.flush = result
      rcases result with ⟨fault | _, sink'⟩ <;> exact ⟨rfl, h, rfl⟩

theorem sendFrom_likewise (status : Status) (name : Bytes) (length : UInt32) {other : σ}
    {source : Source} (sink : Sink) (h : R other source) :
    Likewise R (sendFrom read chunk status name length other sink)
      (sendStream chunk status name length source sink) := by
  rw [sendStream, sendFrom, sendFrom]
  generalize (streamPreamble status name length).build = built
  obtain ⟨e | _, preamble⟩ := built
  · exact ⟨rfl, h, rfl⟩
  · dsimp only
    generalize sink.writeAll preamble = result
    obtain ⟨fault | _, sink'⟩ := result
    · exact ⟨rfl, h, rfl⟩
    · exact copyFrom_likewise hread length sink' h

end

/-- A source, and the room that there was in each read of it, the latest first. -/
structure Watched where
  source : Source
  asked : List Nat := []

def Watched.read (w : Watched) (room : Nat) : Received × Watched :=
  ((w.source.read room).1, ⟨(w.source.read room).2, room :: w.asked⟩)

/-- It is the same source, and no read of it had more room than `most`. -/
def Watched.Within (most : Nat) (w : Watched) (source : Source) : Prop :=
  w.source = source ∧ ∀ room ∈ w.asked, room ≤ most

/-- A source that is watched is read in the same way, never for more than a chunk. -/
theorem sendFrom_watched (chunk : Nat) (status : Status) (name : Bytes) (length : UInt32)
    (source : Source) (sink : Sink) :
    Likewise (Watched.Within (max 1 chunk))
      (sendFrom Watched.read chunk status name length { source } sink)
      (sendStream chunk status name length source sink) := by
  refine sendFrom_likewise (fun w source room h _ hroom => ?_) status name length sink
    ⟨rfl, by simp⟩
  obtain ⟨rfl, hasked⟩ := h
  exact ⟨rfl, rfl, List.forall_mem_cons.mpr ⟨hroom, hasked⟩⟩

/-! ## 2. The account of a streamed reply -/

/-- What there is to be written of a streamed reply: its preamble and the content, as far as the
source has it. -/
def frameOf (status : Status) (name : Bytes) (length : UInt32) (source : Source) : Bytes :=
  streamBegun status name length (source.front.take length.toNat)

theorem frameOf_eq (status : Status) (name : Bytes) (length : UInt32) (source : Source) :
    frameOf status name length source =
      streamBegun status name length [] ++ contentLeft length 0 source := by
  rw [frameOf, streamBegun_append, List.nil_append, contentLeft, Nat.sub_zero]

/-- The account of a streamed reply that wrote `accepted` and took `taken` from its source. -/
structure Accounted (chunk : Nat) (status : Status) (name : Bytes) (length : UInt32)
    (source : Source) (sink : Sink) (out : Streamed) (accepted taken : Bytes) : Prop where
  bytes : out.sink.bytes = sink.bytes ++ accepted
  begun : accepted <+: frameOf status name length source
  ok_iff : out.result = .ok () ↔ length.toNat ≤ source.front.length ∧
    sink.Takes (frameOf status name length source).length ∧ sink.flushFault = none
  whole : out.result = .ok () → accepted = frameOf status name length source
  short_iff : ∀ declared sent, out.result = .error (.shortContent declared sent) ↔
    declared = length ∧ sent = source.front.length ∧ sent < length.toNat ∧ source.barrier = none ∧
      sink.Takes (frameOf status name length source).length ∧ sink.flushFault = none
  short : ∀ declared sent, out.result = .error (.shortContent declared sent) →
    accepted = streamBegun status name length source.front
  kept : source.bytes = taken ++ out.source.bytes
  bounded : taken.length ≤ length.toNat
  /-- No more than a chunk was taken that has not been written. -/
  ahead : taken.length ≤
    (accepted.drop (streamBegun status name length []).length).length + max 1 chunk

section

variable {chunk : Nat} {status : Status} {name : Bytes} {length : UInt32} {source : Source}
  {sink : Sink} {out : Streamed} {accepted taken : Bytes}

/-- How the reply ends, by whether there is room for `count` bytes. -/
theorem result_iff {count : Nat} (available : Nat) (barrier : Option FaultKind)
    (hwhole : sink.Takes count → out.result = ending length available barrier sink.flushFault)
    (hfull : ¬sink.Takes count → ∃ fault, out.result = .error (.transport fault)) :
    (out.result = .ok () ↔ length.toNat ≤ available ∧ sink.Takes count ∧ sink.flushFault = none) ∧
      ∀ declared sent, out.result = .error (.shortContent declared sent) ↔
        declared = length ∧ sent = available ∧ sent < length.toNat ∧ barrier = none ∧
          sink.Takes count ∧ sink.flushFault = none := by
  by_cases htakes : sink.Takes count
  · rw [hwhole htakes, ending_eq_ok]
    simp [ending_eq_short, htakes]
  · obtain ⟨fault, hresult⟩ := hfull htakes
    simp [hresult, htakes]

/-- The sink took only a part of what comes before the content. -/
theorem accounted_unbegun (hbegun : accepted <+: streamBegun status name length [])
    (haccepted : out.sink.bytes = sink.bytes ++ accepted)
    (hfull : ¬sink.Takes (streamBegun status name length []).length) {fault : Fault}
    (hresult : out.result = .error (.transport fault)) (hsource : out.source = source) :
    Accounted chunk status name length source sink out accepted [] := by
  have hframe : ¬sink.Takes (frameOf status name length source).length := by
    rw [frameOf_eq, List.length_append]
    exact fun htakes => hfull (htakes.mono (Nat.le_add_right _ _))
  obtain ⟨hok, hshort⟩ := result_iff source.front.length source.barrier
    (fun htakes => absurd htakes hframe) fun _ => ⟨fault, hresult⟩
  refine ⟨haccepted, ?_, hok, ?_, hshort, ?_, ?_, Nat.zero_le _, Nat.zero_le _⟩
  · rw [frameOf_eq]
    exact hbegun.trans (List.prefix_append ..)
  · simp [hresult]
  · simp [hresult]
  · rw [hsource, List.nil_append]

/-- What comes before the content was written, and then what the copying came to. -/
theorem Copied.accounted {begun : Sink}
    (hbegun : sink.Wrote begun (streamBegun status name length []))
    (h : Copied chunk length 0 source begun out taken accepted) :
    Accounted chunk status name length source sink out
      (streamBegun status name length [] ++ accepted) taken := by
  have htakes : begun.Takes (contentLeft length 0 source).length ↔
      sink.Takes (frameOf status name length source).length := by
    rw [hbegun.takes_iff, frameOf_eq, List.length_append]
  have hwhole := h.whole
  have hfull := h.full
  rw [htakes, Nat.zero_add, hbegun.flushFault] at hwhole
  rw [htakes] at hfull
  obtain ⟨hok, hshort⟩ := result_iff _ _ (fun htakes => (hwhole htakes).2) hfull
  refine ⟨?_, ?_, hok, fun hresult => ?_, hshort, fun declared sent hresult => ?_, h.kept, ?_, ?_⟩
  · rw [h.wrote.bytes, hbegun.bytes, List.append_assoc]
  · rw [frameOf_eq]
    exact (List.prefix_append_right_inj _).mpr (h.begun.trans h.first)
  · rw [frameOf_eq, (hwhole (hok.mp hresult).2.1).1]
  · obtain ⟨-, rfl, hlt, -, htakes, -⟩ := (hshort declared sent).mp hresult
    rw [(hwhole htakes).1, streamBegun_append, List.nil_append, contentLeft,
      List.take_of_length_le (by omega)]
  · exact Nat.le_trans h.first.length_le (List.length_take_le ..)
  · rw [List.drop_left]
    exact h.ahead

theorem exists_accounted (chunk : Nat) (status : Status) {name : Bytes}
    (hname : name.length ≤ maxNameField) (length : UInt32) (source : Source) (sink : Sink) :
    ∃ accepted taken, Accounted chunk status name length source sink
      (sendStream chunk status name length source sink) accepted taken := by
  have hspec := sink.writeAll_spec (streamBegun status name length [])
  rw [sendStream, sendFrom, (puts_streamPreamble status hname length).build]
  dsimp only
  generalize sink.writeAll (streamBegun status name length []) = result at hspec ⊢
  cases hspec with
  | part sink' fault begun hwrote hbegun hfull hlt =>
    exact ⟨begun, [], accounted_unbegun hbegun hwrote.bytes
      (Sink.not_takes_of_limit hfull hlt) rfl rfl⟩
  | whole sink' hwrote =>
    obtain ⟨taken, written, hcopied⟩ := copied_copyContent chunk source sink' (Nat.zero_le _)
    exact ⟨_, taken, hcopied.accounted hwrote⟩

end

/-- Where the source has all the content, the reply does not end short of it, and a willing sink
gets the whole reply. -/
theorem sendStream_content (chunk : Nat) (status : Status) {name content : Bytes}
    (hname : name.length ≤ maxNameField) {length : UInt32} (hlength : content.length = length.toNat)
    (sink : Sink) :
    let out := sendStream chunk status name length (.ofBytes content) sink
    (∀ declared sent, out.result ≠ .error (.shortContent declared sent)) ∧
      (sink.Willing → out.result = .ok () ∧
        out.sink.bytes = sink.bytes ++ (Reply.streamed status name content).encode) := by
  intro out
  refine ⟨fun declared sent hshort => ?_, fun hwilling => ?_⟩
  · obtain ⟨accepted, taken, h⟩ :=
      exists_accounted chunk status hname length (.ofBytes content) sink
    obtain ⟨-, hsent, hlt, -⟩ := (h.short_iff declared sent).mp hshort
    rw [Source.front_ofBytes, hlength] at hsent
    exact Nat.ne_of_lt hlt hsent
  · have hsize : content.length < UInt32.size := hlength ▸ length.toNat_lt
    obtain ⟨rest, sink', hsend, hbytes, -⟩ :=
      Sink.Willing.sendStream hwilling chunk status hname hsize
    rw [hlength, UInt32.ofNat_toNat] at hsend
    simp only [out, hsend]
    exact ⟨trivial, hbytes⟩

/-- However the source brings the content and whatever the sink takes, a streamed reply is written
up to where one of them stops it, and wholly just where neither does.  With the reads of the source
left open, it is the same reply; and none of them asks for more than a chunk. -/
theorem sendStream_accounted (chunk : Nat) (status : Status) {name : Bytes}
    (hname : name.length ≤ maxNameField) (length : UInt32) (source : Source) (sink : Sink) :
    (∃ accepted taken, Accounted chunk status name length source sink
      (sendStream chunk status name length source sink) accepted taken) ∧
    Likewise Eq (sendFrom Source.read chunk status name length source sink)
      (sendStream chunk status name length source sink) ∧
    Likewise (Watched.Within (max 1 chunk))
      (sendFrom Watched.read chunk status name length { source } sink)
      (sendStream chunk status name length source sink) :=
  ⟨exists_accounted chunk status hname length source sink,
    ⟨rfl, rfl, rfl⟩,
    sendFrom_watched chunk status name length source sink⟩

/-- A source that ends after three of ten bytes, and a sink that takes three bytes at once. -/
theorem sendStream_accounted_short :
    let source : Source := .ofArrivals [.segment [97], .segment [98, 99]]
    let sink : Sink := { maxWrite := some 3, room := some 20 }
    let out := sendStream 2 .restored [102] 10 source sink
    out.result = .error (.shortContent 10 3) ∧
      out.sink.bytes = [1, 210, 0, 1, 0, 102, 10, 0, 0, 0, 97, 98, 99] := by
  intro source sink out
  have hname : ([102] : Bytes).length ≤ maxNameField := by decide
  obtain ⟨⟨accepted, taken, h⟩, -⟩ := sendStream_accounted 2 .restored hname 10 source sink
  have hshort : out.result = .error (.shortContent 10 3) :=
    (h.short_iff 10 3).mpr ⟨rfl, by decide, by decide, by decide, by decide, rfl⟩
  refine ⟨hshort, ?_⟩
  rw [h.bytes, h.short 10 3 hshort]
  decide

end UserVault.Protocol
