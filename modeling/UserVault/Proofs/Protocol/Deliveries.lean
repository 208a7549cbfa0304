import Mathlib.Logic.IsEmpty.Basic
import UserVault.Proofs.Protocol.Message

/-!
# Messages one after the other

A receiver takes a request off its source and then the payload that follows it, which it keeps or
skips, until the source ends between two requests.  What a sender puts for some messages comes to
the receiver as just these messages, whatever bytes are in their names and payloads and wherever
the bytes are cut.
-/

namespace UserVault.Protocol

open Link

/-- What a receiver has of a message. -/
structure Delivery where
  header : RequestHeader
  request : Request
  /-- What was kept of the payload. -/
  payload : Bytes
  deriving DecidableEq

/-- Takes a payload off a source, to keep it or only to get past it. -/
def takePayload (keep : Bool) (length : Nat) : Reading Bytes :=
  if keep then Source.exactly length
  else do
    skipPayload length
    pure []

/-- Takes one request off a source, and its payload if it has one. -/
def receive (keep : Bool) : Reading (Option Delivery) := do
  match ← Request.read with
  | none => pure none
  | some (header, .backup name length) =>
    let payload ← takePayload keep length.toNat
    pure (some ⟨header, .backup name length, payload⟩)
  | some (header, request) => pure (some ⟨header, request, []⟩)

theorem shrinks_takePayload (keep : Bool) (length : Nat) : (takePayload keep length).Shrinks := by
  unfold takePayload
  split
  · exact Reading.shrinks_exactly length
  · exact Reading.shrinks_bind (shrinks_skipPayload length) fun _ => Reading.shrinks_pure []

/-- A message that was received is gone from the source. -/
theorem load_receive_lt {keep : Bool} {s rest : Source} {delivery : Delivery}
    (h : receive keep s = (.ok (some delivery), rest)) : rest.load < s.load := by
  simp only [receive, bind] at h
  split at h
  next received s' hread =>
    rcases received with _ | ⟨header, request⟩
    · simp [pure] at h
    · have hlt := Request.load_read_lt hread
      cases request with
      | backup name length =>
        have hpayload := shrinks_takePayload keep length.toNat s'
        simp only at h
        split at h
        next payload s'' htake =>
          rw [htake] at hpayload
          simp only [pure, Prod.mk.injEq] at h
          rw [← h.2]
          exact Nat.lt_of_le_of_lt hpayload hlt
        next => simp at h
      | _ =>
        simp only [pure, Prod.mk.injEq] at h
        rw [← h.2]
        exact hlt
  next => simp at h

/-- Takes requests off a source, the first of them number `index`, until the source ends between
two of them; `keep` says whose payload is kept. -/
def receiveAll (keep : Nat → Bool) (index : Nat) : Reading (List Delivery) := fun s =>
  match _h : receive (keep index) s with
  | (.error fault, s) => (.error fault, s)
  | (.ok none, s) => (.ok [], s)
  | (.ok (some delivery), s) =>
    match receiveAll keep (index + 1) s with
    | (.error fault, s) => (.error fault, s)
    | (.ok deliveries, s) => (.ok (delivery :: deliveries), s)
termination_by s => s.load
decreasing_by exact load_receive_lt ‹_›

/-- Puts messages one after the other. -/
def putAll : List Message → Building Unit
  | [] => pure ()
  | m :: ms => do
    m.request.put m.user m.version
    put m.payload
    putAll ms

/-! ## 1. One message -/

namespace Message

/-- A message as a receiver has it. -/
def delivery (m : Message) (keep : Bool) : Delivery :=
  ⟨m.header, m.request, if keep then m.payload else []⟩

end Message

theorem reads_takePayload (keep : Bool) (payload : Bytes) :
    (takePayload keep payload.length).Reads payload (if keep then payload else []) := by
  unfold takePayload
  cases keep with
  | true => exact Reading.reads_exactly payload
  | false => exact Reading.reads_bind_pure (reads_skipPayload payload) fun _ => []

theorem reads_receive (m : Message) (keep : Bool) :
    (receive keep).Reads m.bytes (some (m.delivery keep)) := by
  refine Reading.reads_bind (reads_message m) ?_
  obtain ⟨user, version, request, payload, hname, hpayload, hunknown⟩ := m
  -- only a backup has a payload
  cases request with
  | backup name length =>
    have hreads := Reading.reads_bind_pure (reads_takePayload keep payload) fun kept =>
      some (⟨⟨user, version, Operation.backup.code⟩, .backup name length, kept⟩ : Delivery)
    rwa [hpayload] at hreads
  | _ =>
    obtain rfl : payload = [] := List.length_eq_zero_iff.mp hpayload
    have hkept : (if keep then ([] : Bytes) else []) = [] := ite_self []
    simp only [Message.delivery, hkept]
    exact Reading.reads_pure _

/-! ## 2. All messages -/

theorem puts_putAll (ms : List Message) : (putAll ms).Puts (ms.flatMap Message.bytes) := by
  induction ms with
  | nil => exact fun before => by rw [List.flatMap_nil, List.append_nil]; rfl
  | cons m ms ih =>
    rw [List.flatMap_cons, Message.bytes, List.append_assoc]
    exact (puts_request m.user m.version m.name_le).bind ((puts_put m.payload).bind ih)

/-- A receiver that gets whole messages, and then the end, has received them all. -/
theorem receiveAll_of_front (keep : Nat → Bool) (ms : List Message) (index : Nat) {s : Source}
    (hfront : s.front = ms.flatMap Message.bytes) (hend : s.barrier = none) :
    ∃ rest, receiveAll keep index s =
      (.ok ((ms.zipIdx index).map fun (m, i) => m.delivery (keep i)), rest) := by
  induction ms generalizing index s with
  | nil =>
    obtain ⟨rest, hread⟩ := read_of_front_nil hfront
    rw [hend] at hread
    refine ⟨rest, ?_⟩
    have hnone : receive (keep index) s = (.ok none, rest) := by
      simp only [receive, bind, hread]
      rfl
    rw [receiveAll]
    split <;> simp_all
  | cons m ms ih =>
    obtain ⟨rest, hreceive, hrest, hbarrier⟩ := reads_receive m (keep index) s _ hfront
    obtain ⟨last, hlast⟩ := ih (index + 1) hrest (hbarrier.trans hend)
    refine ⟨last, ?_⟩
    rw [receiveAll]
    split <;> simp_all

/-- What a sender of messages puts, a receiver takes as the same headers and requests in the same
order, with every payload that it keeps intact, and then finds nothing more, however the bytes are
cut into segments. -/
theorem receiveAll_putAll (ms : List Message) (keep : Nat → Bool) :
    (putAll ms).build = (.ok (), ms.flatMap Message.bytes) ∧
      ∀ pieces : List Bytes, pieces.flatten = ms.flatMap Message.bytes →
        ∃ rest, receiveAll keep 0 (.ofArrivals (pieces.map .segment)) =
          (.ok (ms.zipIdx.map fun (m, i) => m.delivery (keep i)), rest) := by
  refine ⟨(puts_putAll ms).build, fun pieces hpieces => ?_⟩
  apply receiveAll_of_front
  · rw [Source.front_ofArrivals_segments, hpieces]
  · exact Source.barrier_ofArrivals_segments pieces

/-- A backup whose payload looks like the header of a listing is kept, the next one is skipped, and
a listing comes last.  Every byte is a segment of its own. -/
theorem receiveAll_putAll_bytewise :
    let ms : List Message :=
      [⟨7, 1, .backup [0x61] 6, [7, 0, 0, 0, 1, 202], by decide, rfl, by simp⟩,
        ⟨7, 1, .backup [] 2, [0x68, 0x69], by decide, rfl, by simp⟩,
        ⟨8, 0, .list, [], by decide, rfl, by simp⟩]
    let keep : Nat → Bool := fun i => i = 0
    let pieces : List Bytes := (ms.flatMap Message.bytes).map ([·])
    pieces.flatten = ms.flatMap Message.bytes ∧
      (putAll ms).build = (.ok (), ms.flatMap Message.bytes) ∧
      ∃ rest, receiveAll keep 0 (.ofArrivals (pieces.map .segment)) =
        (.ok (ms.zipIdx.map fun (m, i) => m.delivery (keep i)), rest) := by
  intro ms keep pieces
  have hpieces : pieces.flatten = ms.flatMap Message.bytes := by decide
  obtain ⟨hbuild, hreceive⟩ := receiveAll_putAll ms keep
  exact ⟨hpieces, hbuild, hreceive pieces hpieces⟩

end UserVault.Protocol
