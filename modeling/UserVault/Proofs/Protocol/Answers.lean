import Mathlib.Data.List.Forall2
import UserVault.Proofs.Protocol.Reply

/-!
# Answers one after the other

A service writes its answers to one sink, each by the writer for the shape of its status, and a
client reads as many replies back.  Writer and reader take what a reply consists of from different
places, the one from the writer that was called and the other from the status that it finds; they
agree on every sequence of answers, in whatever chunks content was copied and wherever the written
bytes are cut.  Of the source of a streamed answer just the declared length is gone.
-/

namespace UserVault.Protocol

open Link

/-- An answer, with what the writer for its shape needs. -/
inductive Answer
  | bare (status : Status) (shape : status.shape = .bare)
  | named (status : Status) (name : Bytes) (shape : status.shape = .named)
      (name_le : name.length ≤ maxNameField)
  /-- The content is what `source` has first; no fault comes before its end. -/
  | stream (status : Status) (name : Bytes) (length : UInt32) (source : Source)
      (shape : status.shape = .stream) (name_le : name.length ≤ maxNameField)
      (enough : length.toNat ≤ source.front.length)

namespace Answer

/-- The answer as a client should have it. -/
def reply : Answer → Reply
  | .bare status _ => .bare status
  | .named status name _ _ => .named status name
  | .stream status name length source _ _ _ =>
      .streamed status name (source.front.take length.toNat)

/-- Writes the answer, content at most `chunk` bytes at a time.  Of a streamed answer it gives what
is left of the source. -/
def send (chunk : Nat) (sink : Sink) : Answer → Except FrameError (Option Source) × Sink
  | .bare status _ =>
    match sendBare status sink with
    | (.error e, sink) => (.error e, sink)
    | (.ok (), sink) => (.ok none, sink)
  | .named status name _ _ =>
    match sendNamed status name sink with
    | (.error e, sink) => (.error e, sink)
    | (.ok (), sink) => (.ok none, sink)
  | .stream status name length source _ _ _ =>
    match sendStream chunk status name length source sink with
    | ⟨.error e, _, sink⟩ => (.error e, sink)
    | ⟨.ok (), source, sink⟩ => (.ok (some source), sink)

/-- Just the declared length was taken from the source of a streamed answer. -/
def Took : Answer → Option Source → Prop
  | .bare _ _, left | .named _ _ _ _, left => left = none
  | .stream _ _ length source _ _ _, left =>
      ∃ rest, left = some rest ∧ source.Took rest length.toNat

end Answer

/-- Writes answers one after the other to one sink. -/
def sendAll (chunk : Nat) : List Answer → Sink → Except FrameError (List (Option Source)) × Sink
  | [], sink => (.ok [], sink)
  | answer :: answers, sink =>
    match answer.send chunk sink with
    | (.error e, sink) => (.error e, sink)
    | (.ok left, sink) =>
      match sendAll chunk answers sink with
      | (.error e, sink) => (.error e, sink)
      | (.ok lefts, sink) => (.ok (left :: lefts), sink)

/-- Reads so many replies. -/
def Reply.readTimes : Nat → Reading (List Reply)
  | 0 => pure []
  | count + 1 => do
    let reply ← Reply.read
    let replies ← readTimes count
    pure (reply :: replies)

/-! ## 1. What a writer takes -/

/-- Copying takes what is missing of the declared length, if it succeeds. -/
theorem took_copyContent {chunk : Nat} {length : UInt32} {sent : Nat} {source rest : Source}
    {sink sink' : Sink} (hsent : sent ≤ length.toNat)
    (h : copyContent chunk length sent source sink = ⟨.ok (), rest, sink'⟩) :
    source.Took rest (length.toNat - sent) := by
  obtain ⟨taken, written, hcopied⟩ := copied_copyContent chunk source sink hsent
  rw [h] at hcopied
  obtain ⟨hwritten, hresult⟩ := hcopied.whole (hcopied.takes_of_ok rfl)
  have henough := (ending_eq_ok.mp hresult.symm).1
  refine ⟨taken, hcopied.kept, ?_⟩
  -- what was written was taken, and no more than is missing was
  rw [hcopied.first.eq_of_length_le (hwritten ▸ hcopied.begun.length_le), contentLeft,
    List.length_take_of_le (by omega)]

/-- A streamed reply takes just the declared length, if it succeeds. -/
theorem took_sendStream {chunk : Nat} {status : Status} {name : Bytes} {length : UInt32}
    {source rest : Source} {sink sink' : Sink}
    (h : sendStream chunk status name length source sink = ⟨.ok (), rest, sink'⟩) :
    source.Took rest length.toNat := by
  unfold sendStream sendFrom at h
  split at h
  next => cases h
  next preamble hbuild =>
    split at h
    next => cases h
    next =>
      have htook := took_copyContent (Nat.zero_le _) h
      rwa [Nat.sub_zero] at htook

/-! ## 2. One answer -/

namespace Answer

theorem proper_reply (answer : Answer) : answer.reply.Proper := by
  cases answer with
  | bare status shape => exact Reply.proper_bare shape
  | named status name shape name_le => exact Reply.proper_named shape name_le
  | stream status name length source shape name_le enough =>
    apply Reply.proper_streamed shape name_le
    rw [List.length_take_of_le enough]
    exact length.toNat_lt

/-- A willing sink gets the whole answer. -/
theorem send_willing (chunk : Nat) {sink : Sink} (h : sink.Willing) (answer : Answer) :
    ∃ left sink', answer.send chunk sink = (.ok left, sink') ∧ answer.Took left ∧
      sink'.bytes = sink.bytes ++ answer.reply.encode ∧ sink'.Willing := by
  cases answer with
  | bare status shape =>
    obtain ⟨sink', hsend, hbytes, hwilling⟩ := Sink.Willing.sendBare h status
    exact ⟨none, sink', by simp only [send, hsend], rfl, hbytes, hwilling⟩
  | named status name shape name_le =>
    obtain ⟨sink', hsend, hbytes, hwilling⟩ := Sink.Willing.sendNamed h status name_le
    exact ⟨none, sink', by simp only [send, hsend], rfl, hbytes, hwilling⟩
  | stream status name length source shape name_le enough =>
    obtain ⟨rest, sink', hsend, hbytes, hwilling⟩ :=
      Sink.Willing.sendStream_of_front h chunk status name_le length source
    rw [if_pos enough] at hsend
    rw [streamBegun_whole status name (List.length_take_of_le enough)] at hbytes
    exact ⟨some rest, sink', by simp only [send, hsend],
      ⟨rest, rfl, took_sendStream hsend⟩, hbytes, hwilling⟩

end Answer

/-! ## 3. All answers -/

/-- A willing sink gets all answers, one behind the other. -/
theorem sendAll_willing (chunk : Nat) (answers : List Answer) {sink : Sink} (h : sink.Willing) :
    ∃ lefts sink', sendAll chunk answers sink = (.ok lefts, sink') ∧
      List.Forall₂ Answer.Took answers lefts ∧
      sink'.bytes = sink.bytes ++ answers.flatMap (·.reply.encode) := by
  induction answers generalizing sink with
  | nil => exact ⟨[], sink, rfl, .nil, (List.append_nil _).symm⟩
  | cons answer answers ih =>
    obtain ⟨left, mid, hsend, htook, hbytes, hwilling⟩ := answer.send_willing chunk h
    obtain ⟨lefts, sink', hall, htooks, hbytes'⟩ := ih hwilling
    refine ⟨left :: lefts, sink', by simp only [sendAll, hsend, hall], .cons htook htooks, ?_⟩
    rw [hbytes', hbytes, List.flatMap_cons, List.append_assoc]

/-- Where proper replies come one behind the other, so many replies can be read. -/
theorem reads_readTimes {replies : List Reply} (h : ∀ r ∈ replies, r.Proper) :
    (Reply.readTimes replies.length).Reads (replies.flatMap Reply.encode) replies := by
  induction replies with
  | nil => exact Reading.reads_pure []
  | cons r replies ih =>
    have hlater := ih fun r hr => h r (List.mem_cons_of_mem _ hr)
    exact Reading.reads_bind (Reply.reads_read (h r List.mem_cons_self))
      (Reading.reads_bind_pure hlater _)

/-- **What a service answers is what its client reads.**  Answers go one after the other to a sink
that may take the bytes in any portions; wherever what was written is cut, a client that reads as
many replies has the answers in their order, with status, name and content as they were given, and
nothing more to read.  From the source of each streamed answer the declared length is gone. -/
theorem readTimes_sendAll (chunk : Nat) (answers : List Answer) {sink : Sink} (h : sink.Willing) :
    ∃ lefts sink' written, sendAll chunk answers sink = (.ok lefts, sink') ∧
      List.Forall₂ Answer.Took answers lefts ∧ sink'.bytes = sink.bytes ++ written ∧
      ∀ pieces : List Bytes, pieces.flatten = written →
        ∃ rest, Reply.readTimes answers.length (.ofArrivals (pieces.map .segment)) =
          (.ok (answers.map Answer.reply), rest) ∧ rest.bytes = [] := by
  obtain ⟨lefts, sink', hsend, htook, hbytes⟩ := sendAll_willing chunk answers h
  refine ⟨lefts, sink', _, hsend, htook, hbytes, fun pieces hpieces => ?_⟩
  have hproper : ∀ r ∈ answers.map Answer.reply, r.Proper := by
    intro r hr
    obtain ⟨answer, -, rfl⟩ := List.mem_map.mp hr
    exact answer.proper_reply
  have hreads := reads_readTimes hproper
  rw [List.length_map, List.flatMap_map] at hreads
  obtain ⟨rest, hread, hrest, hbarrier⟩ := hreads (.ofArrivals (pieces.map .segment)) [] (by
    rw [Source.front_ofArrivals_segments, hpieces, List.append_nil])
  refine ⟨rest, hread, ?_⟩
  rw [Source.bytes_of_ended (hbarrier.trans (Source.barrier_ofArrivals_segments pieces)), hrest]

/-- One answer of each shape, written and read a byte at a time; the source of the streamed one
has more than the content and then a fault. -/
theorem readTimes_sendAll_bytewise :
    let source : Source := ⟨[1], [.segment [2, 3], .fault .timedOut]⟩
    let answers : List Answer := [.bare .noFiles rfl, .named .done [97] rfl (by decide),
      .stream .restored [97] 2 source rfl (by decide) (by decide)]
    ∃ lefts sink' written, sendAll 1 answers { maxWrite := some 1 } = (.ok lefts, sink') ∧
      List.Forall₂ Answer.Took answers lefts ∧ sink'.bytes = written ∧
      ∃ rest, Reply.readTimes 3 (.ofArrivals (written.map fun b => .segment [b])) =
        (.ok [{ header := ⟨1, 1002⟩ }, { header := ⟨1, 212⟩, name := some [97] },
          { header := ⟨1, 210⟩, name := some [97], content := some [1, 2] }], rest) ∧
        rest.bytes = [] := by
  intro source answers
  have hwilling : Sink.Willing { maxWrite := some 1 } := ⟨rfl, by decide, rfl⟩
  obtain ⟨lefts, sink', written, hsend, htook, hbytes, hread⟩ :=
    readTimes_sendAll 1 answers hwilling
  refine ⟨lefts, sink', written, hsend, htook, hbytes, ?_⟩
  have hpieces : (written.map fun b => [b]).flatten = written := by
    rw [← List.flatMap_def, List.flatMap_singleton']
  have hreply := hread (written.map fun b => [b]) hpieces
  rwa [List.map_map] at hreply

end UserVault.Protocol
