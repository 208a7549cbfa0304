import UserVault.Proofs.Link.Limited
import UserVault.Proofs.Session.Conversation

/-!
# Conversations whose replies are lost

When the peer stops taking bytes, a session has written what it would have written, up to this
byte.  The request whose reply did not get through has been carried out to its end, and no request
after it has been begun.  That holds on every disk and for any input at all: it is the order of
reads, writes and work in a session that makes it so.
-/

namespace UserVault.Protocol

open Link

/-! ## 1. Replies to a sink with limited room -/

/-- Writes to a sink and goes on, unless that failed. -/
def transfer {α : Type} (first : Sink → Except Fault Unit × Sink)
    (rest : Sink → Except FrameError α × Sink) : Sink → Except FrameError α × Sink :=
  Sink.andThen .transport first rest

/-- Flushes a sink; that done, the result is `result`. -/
def flushThen (result : Except FrameError Unit) : Sink → Sending :=
  transfer Sink.flush fun sink => (result, sink)

theorem steadfast_flushThen (result : Except FrameError Unit) :
    Sink.Steadfast (flushThen result) :=
  Sink.steadfast_flush.andThen _ (Sink.steadfast_const result)

theorem send_eq (frame : Building Unit) :
    send frame = match frame.build with
      | (.error e, _) => fun sink => (.error e, sink)
      | (.ok (), bytes) => transfer (Sink.writeAll · bytes) (flushThen (.ok ())) := by
  funext sink
  unfold send
  obtain ⟨_ | _, bytes⟩ := frame.build
  · rfl
  · unfold transfer flushThen transfer Sink.andThen
    dsimp only
    generalize sink.writeAll bytes = written
    obtain ⟨_ | _, sink⟩ := written
    · rfl
    · dsimp only
      generalize sink.flush = flushed
      obtain ⟨_ | _, _⟩ := flushed <;> rfl

theorem steadfast_send (frame : Building Unit) : Sink.Steadfast (send frame) := by
  rw [send_eq]
  split
  · exact Sink.steadfast_const _
  · exact (Sink.steadfast_writeAll _).andThen _ (steadfast_flushThen _)

/-- Of a streamed reply, what becomes of its sink. -/
def Streamed.sending (f : Sink → Streamed) (sink : Sink) : Sending :=
  ((f sink).result, (f sink).sink)

theorem sending_copyContent (chunk : Nat) (length : UInt32) (sent : Nat) (source : Source) :
    Streamed.sending (copyContent chunk length sent source) =
      if sent < length.toNat then
        match source.read (min (max 1 chunk) (length.toNat - sent)) with
        | (.failed kind, _) => fun sink => (.error (.transport (.raised kind)), sink)
        | (.bytes [], _) | (.ended, _) => flushThen (.error (.shortContent length sent))
        | (.bytes (b :: bs), rest) => transfer (Sink.writeAll · (b :: bs))
            (Streamed.sending (copyContent chunk length (sent + (b :: bs).length) rest))
      else flushThen (.ok ()) := by
  funext sink
  unfold Streamed.sending flushThen transfer Sink.andThen
  rw [copyContent, copyFrom]
  split
  · generalize source.read _ = received
    obtain ⟨(_ | ⟨b, bs⟩) | _ | _, rest⟩ := received
    -- the only case that writes is the second one
    case bytes.cons =>
      dsimp only
      generalize sink.writeAll (b :: bs) = written
      obtain ⟨_ | _, _⟩ := written <;> rfl
    all_goals
      dsimp only
      try
        generalize sink.flush = flushed
        obtain ⟨_ | _, _⟩ := flushed <;> rfl
  · dsimp only
    generalize sink.flush = flushed
    obtain ⟨_ | _, _⟩ := flushed <;> rfl

theorem steadfast_copyContent (chunk : Nat) (length : UInt32) (sent : Nat) (source : Source) :
    Sink.Steadfast (Streamed.sending (copyContent chunk length sent source)) := by
  -- the induction is on the bytes that are still to come
  induction hleft : length.toNat - sent using Nat.strongRecOn generalizing sent source with
  | _ left ih =>
    rw [sending_copyContent]
    split
    next hmore =>
      split
      · exact Sink.steadfast_const _
      · exact steadfast_flushThen _
      · exact steadfast_flushThen _
      next b bs rest _ =>
        have hless : length.toNat - (sent + (b :: bs).length) < left := by
          rw [List.length_cons]
          omega
        exact (Sink.steadfast_writeAll _).andThen _ (ih _ hless _ rest rfl)
    next => exact steadfast_flushThen _

theorem steadfast_sendStream (chunk : Nat) (status : Status) (name : Bytes) (length : UInt32)
    (source : Source) :
    Sink.Steadfast (Streamed.sending (sendStream chunk status name length source)) := by
  have hsend : Streamed.sending (sendStream chunk status name length source) =
      match (streamPreamble status name length).build with
      | (.error e, _) => fun sink => (.error e, sink)
      | (.ok (), preamble) => transfer (Sink.writeAll · preamble)
          (Streamed.sending (copyContent chunk length 0 source)) := by
    funext sink
    unfold Streamed.sending sendStream sendFrom
    obtain ⟨_ | _, preamble⟩ := (streamPreamble status name length).build
    · rfl
    · unfold transfer Sink.andThen
      dsimp only
      generalize sink.writeAll preamble = written
      obtain ⟨_ | _, _⟩ := written <;> rfl
  rw [hsend]
  split
  · exact Sink.steadfast_const _
  · exact (Sink.steadfast_writeAll _).andThen _ (steadfast_copyContent chunk length 0 source)

end UserVault.Protocol

namespace UserVault.Session

open Link Vault Protocol

variable {σ : Type} {b : Backend σ} {chunk : Nat} {state : σ} {input : Source} {w s : Sink}
  {room : Nat}

/-! ## 2. One request -/

/-- What becomes of the state and of the input does not depend on what the output takes of the
reply. -/
theorem answer_eq (b : Backend σ) (chunk : Nat) (user : UInt32) (request : Request) (state : σ)
    (input : Source) :
    ∃ (reply : Sink → Sending) (input' : Source) (state' : σ), Sink.Steadfast reply ∧
      ∀ output, answer b chunk user request state input output =
        ⟨(reply output).1, input', (reply output).2, state'⟩ := by
  have hnamed (status : Status) (name : Bytes) : Sink.Steadfast (sendNamed status name) :=
    steadfast_send _
  have hbare : Sink.Steadfast (sendBare .noFiles) := steadfast_send _
  cases request with
  | backup name length =>
    simp only [answer]
    generalize b.store state user name length input = stored
    obtain ⟨result, input', state'⟩ := stored
    cases result with
    | ok _ => exact ⟨_, input', state', hnamed .done name, fun _ => rfl⟩
    | error e =>
      cases e with
      | transport fault =>
        exact ⟨_, input', state', Sink.steadfast_const (.error (.transport fault)), fun _ => rfl⟩
      | vault error unread =>
        dsimp only
        generalize skipPayload unread input' = skipped
        obtain ⟨result, input''⟩ := skipped
        cases result with
        | error fault =>
          exact ⟨_, input'', state', Sink.steadfast_const (.error (.transport fault)),
            fun _ => rfl⟩
        | ok _ => exact ⟨_, input'', state', hnamed .failed name, fun _ => rfl⟩
  | restore name =>
    simp only [answer]
    generalize b.retrieve state user name = retrieved
    obtain ⟨result, state'⟩ := retrieved
    cases result with
    | ok file =>
      exact ⟨_, input, state', steadfast_sendStream chunk .restored name file.1 file.2,
        fun _ => rfl⟩
    | error e =>
      cases e with
      | notFound => exact ⟨_, input, state', hnamed .noFile name, fun _ => rfl⟩
      | _ => exact ⟨_, input, state', hnamed .failed name, fun _ => rfl⟩
  | delete name =>
    simp only [answer]
    generalize b.remove state user name = removed
    obtain ⟨result, state'⟩ := removed
    cases result with
    | ok _ => exact ⟨_, input, state', hnamed .done name, fun _ => rfl⟩
    | error e => exact ⟨_, input, state', hnamed .failed name, fun _ => rfl⟩
  | list =>
    simp only [answer]
    generalize b.list state user = listed
    obtain ⟨result, state'⟩ := listed
    cases result with
    | ok content =>
      dsimp only
      by_cases hsize : content.length < UInt32.size
      · simp only [hsize, if_true]
        exact ⟨_, input, state', steadfast_sendStream chunk .listed [] _ _, fun _ => rfl⟩
      · simp only [hsize, if_false]
        exact ⟨_, input, state', hnamed .failed [], fun _ => rfl⟩
    | error e =>
      cases e with
      | noFiles => exact ⟨_, input, state', hbare, fun _ => rfl⟩
      | _ => exact ⟨_, input, state', hnamed .failed [], fun _ => rfl⟩
  | unknown code => exact ⟨_, input, state, hnamed .failed [], fun _ => rfl⟩

/-- One turn of a session's loop reads and works in the same way whatever the output is. -/
theorem round_cases (b : Backend σ) (chunk : Nat) (state : σ) (input : Source) :
    (∃ ending rest, ∀ output, round b chunk state input output = .over ending rest) ∨
      ∃ (reply : Sink → Sending) (input' : Source) (state' : σ), Sink.Steadfast reply ∧
        input'.load < input.load ∧ ∀ output, round b chunk state input output =
          .served ⟨(reply output).1, input', (reply output).2, state'⟩ := by
  cases hread : Request.read input with
  | mk result rest =>
    rcases result with fault | _ | ⟨header, request⟩
    · exact .inl ⟨_, rest, fun output => by rw [round, hread]⟩
    · exact .inl ⟨_, rest, fun output => by rw [round, hread]⟩
    · obtain ⟨reply, input', state', hreply, hanswer⟩ :=
        answer_eq b chunk header.user request state rest
      refine .inr ⟨reply, input', state', hreply, ?_, fun output => ?_⟩
      · have hanswered := load_answer_le b chunk header.user request state rest {}
        rw [hanswer] at hanswered
        exact Nat.lt_of_le_of_lt hanswered (Request.load_read_lt hread)
      · rw [round, hread]
        exact congrArg Round.served (hanswer output)

/-! ## 3. Whole sessions -/

/-- The state after the first `count` requests of a session have been carried out, if it has so
many, and none after them. -/
def stateAfter (b : Backend σ) (chunk : Nat) : (count : Nat) → σ → Source → Sink → σ
  | 0, state, _, _ => state
  | count + 1, state, input, output =>
    match round b chunk state input output with
    | .over _ _ => state
    | .served a =>
      match a.result with
      | .error _ => a.state
      | .ok () => stateAfter b chunk count a.state a.input a.output.forget

section
variable {output : Sink} {a : Answered σ} (hround : round b chunk state input output = .served a)
include hround

theorem converse_of_error {e : FrameError} (hresult : a.result = .error e) :
    converse b chunk state input output =
      { exchanges := [a.exchange], ending := .error e, input := a.input, output := a.output
        state := a.state } := by
  rw [converse_eq, hround]
  simp only [hresult]

theorem converse_of_ok (hresult : a.result = .ok ()) :
    converse b chunk state input output =
      { converse b chunk a.state a.input a.output.forget with
        exchanges :=
          a.exchange :: (converse b chunk a.state a.input a.output.forget).exchanges } := by
  rw [converse_eq, hround]
  simp only [hresult]

theorem stateAfter_one : stateAfter b chunk 1 state input output = a.state := by
  rw [stateAfter, hround]
  dsimp only
  cases a.result with
  | error e => rfl
  | ok _ => rfl

theorem stateAfter_succ (hresult : a.result = .ok ()) (count : Nat) :
    stateAfter b chunk (count + 1) state input output =
      stateAfter b chunk count a.state a.input a.output.forget := by
  rw [stateAfter, hround]
  simp only [hresult]

/-- The reply to the first request is the first of those that a session writes. -/
theorem replies_converse : ∃ replies,
    (converse b chunk state input output).exchanges.map (·.reply) = a.output.bytes :: replies := by
  cases hresult : a.result with
  | error e =>
    rw [converse_of_error hround hresult]
    exact ⟨[], rfl⟩
  | ok _ =>
    rw [converse_of_ok hround hresult]
    exact ⟨_, rfl⟩

end

/-- A session that is done has carried out all its requests. -/
theorem stateAfter_all (b : Backend σ) (chunk : Nat) (state : σ) (input : Source)
    (output : Sink) :
    stateAfter b chunk (converse b chunk state input output).exchanges.length state input output =
      (converse b chunk state input output).state := by
  induction hload : input.load using Nat.strongRecOn generalizing state input output with
  | _ load ih =>
    rcases round_cases b chunk state input with
      ⟨ending, rest, hround⟩ | ⟨reply, input', state', -, hless, hround⟩
    · rw [converse_eq, hround]
      rfl
    · have hround := hround output
      cases hresult : (reply output).1 with
      | error e =>
        rw [converse_of_error hround hresult]
        exact stateAfter_one hround
      | ok _ =>
        rw [converse_of_ok hround hresult, List.length_cons, stateAfter_succ hround hresult]
        exact ih _ (hload ▸ hless) _ _ _ rfl

/-- Of replies of which only `room` bytes are taken, number `count` is the first that is not taken
in full. -/
structure LostAt (replies : List Bytes) (room count : Nat) : Prop where
  exceeds : room < (replies.take count).flatten.length
  before : ∀ j < count, (replies.take j).flatten.length ≤ room

theorem lostAt_one {reply : Bytes} (replies : List Bytes) (h : room < reply.length) :
    LostAt (reply :: replies) room 1 where
  exceeds := by simpa using h
  before j hj := by
    obtain rfl : j = 0 := by omega
    exact Nat.zero_le room

theorem LostAt.cons {reply : Bytes} {replies : List Bytes} {count : Nat}
    (hroom : reply.length ≤ room) (h : LostAt replies (room - reply.length) count) :
    LostAt (reply :: replies) room (count + 1) where
  exceeds := by
    have hrest := h.exceeds
    rw [List.take_succ_cons, List.flatten_cons, List.length_append]
    omega
  before j hj := by
    cases j with
    | zero => exact Nat.zero_le room
    | succ j =>
      have hrest := h.before j (Nat.lt_of_succ_lt_succ hj)
      rw [List.take_succ_cons, List.flatten_cons, List.length_append]
      omega

/-- What a session does whose output takes only `room` bytes, less than the session has to write. -/
theorem converse_limited (b : Backend σ) (chunk : Nat) (state : σ) (input : Source)
    (hw : w.Willing) (hwnew : w.bytes = []) (hs : s.Limited room) (hsnew : s.bytes = [])
    (hroom : room < (converse b chunk state input w).written.length) :
    let replies := (converse b chunk state input w).exchanges.map (·.reply)
    let cut := converse b chunk state input s
    cut.written = replies.flatten.take room ∧ (∃ e, cut.ending = .error e) ∧
      LostAt replies room cut.exchanges.length ∧
      cut.state = stateAfter b chunk cut.exchanges.length state input w := by
  rw [Transcript.written, List.flatMap_def] at hroom
  induction hload : input.load using Nat.strongRecOn generalizing state input w s room with
  | _ load ih =>
    rcases round_cases b chunk state input with
      ⟨ending, rest, hround⟩ | ⟨reply, input', state', hreply, hless, hround⟩
    -- without a request nothing is written
    · rw [converse_eq, hround] at hroom
      exact absurd hroom (Nat.not_lt_zero _)
    · obtain ⟨out, hout, hw', hcut⟩ := hreply w hw
      specialize hcut s room hs
      have hwround := hround w
      have hsround := hround s
      rw [hwnew, List.nil_append] at hout
      generalize reply w = onWilling at hout hw' hcut hwround
      generalize reply s = onLimited at hcut hsround
      obtain ⟨result, w'⟩ := onWilling
      obtain ⟨result', s'⟩ := onLimited
      dsimp only at hout hw' hcut hwround hsround
      cases hcut with
      | part e _ hlost hbytes =>
        -- the reply does not get through, so it is the last one
        obtain ⟨replies, hreplies⟩ := replies_converse hwround
        rw [hsnew, List.nil_append] at hbytes
        rw [converse_of_error hsround rfl, hreplies]
        dsimp only
        rw [hout]
        refine ⟨?_, ⟨e, rfl⟩, lostAt_one replies hlost, (stateAfter_one hwround).symm⟩
        rw [Transcript.written, List.flatMap_singleton, List.flatten_cons,
          List.take_append_of_le_length (Nat.le_of_lt hlost)]
        exact hbytes
      | whole _ hfits hbytes hlimited =>
        rw [hsnew, List.nil_append] at hbytes
        cases result with
        | error e =>
          rw [converse_of_error hwround rfl] at hroom
          simp only [Answered.exchange, List.map_cons, List.map_nil, List.flatten_cons,
            List.flatten_nil, List.append_nil, hout] at hroom
          omega
        | ok _ =>
          rw [converse_of_ok hwround rfl] at hroom ⊢
          rw [converse_of_ok hsround rfl]
          simp only [Answered.exchange, List.map_cons, List.flatten_cons, List.length_append,
            List.length_cons, stateAfter_succ hwround rfl, hout] at hroom ⊢
          obtain ⟨hwritten, hending, hlost, hstate⟩ := ih _ (hload ▸ hless) state' input'
            hw'.forget (Sink.bytes_forget _) hlimited.forget (Sink.bytes_forget _) (by omega) rfl
          refine ⟨?_, hending, hlost.cons hfits, hstate⟩
          rw [Transcript.written, List.flatMap_cons, List.take_append,
            List.take_of_length_le hfits, ← hwritten, hbytes, Transcript.written]

/-- When the peer takes `room` bytes and no more, and a session has more than that to write, these
are the first bytes of all that it would have written, however many of them are taken at once and
however the next write fails.  The session ends with an error.  The state is the one after the
requests up to the first whose reply was not taken in full, each carried out to its end as it would
have been, and no more than those. -/
theorem converse_lost_reply (v : Vault) (start : Vault.State) (input : Source)
    {whole : Sink} (hwhole : whole.Willing) (hnew : whole.bytes = [])
    {output : Sink} (houtput : output.Limited room) (hnew' : output.bytes = [])
    (hroom : room < (converse (.ofVault v) v.chunkSize start input whole).written.length) :
    let replies := (converse (.ofVault v) v.chunkSize start input whole).exchanges.map (·.reply)
    let cut := converse (.ofVault v) v.chunkSize start input output
    cut.written = replies.flatten.take room ∧ (∃ e, cut.ending = .error e) ∧
      (∃ count, LostAt replies room count ∧ cut.exchanges.length = count ∧
        cut.state = stateAfter (.ofVault v) v.chunkSize count start input whole) ∧
      (converse (.ofVault v) v.chunkSize start input whole).state =
        stateAfter (.ofVault v) v.chunkSize replies.length start input whole := by
  intro replies cut
  obtain ⟨hwritten, hending, hlost, hstate⟩ :=
    converse_limited (.ofVault v) v.chunkSize start input hwhole hnew houtput hnew' hroom
  refine ⟨hwritten, hending, ⟨_, hlost, rfl, hstate⟩, ?_⟩
  rw [List.length_map]
  exact (stateAfter_all (.ofVault v) v.chunkSize start input whole).symm

/-- A backup of user 7, whose reply is taken in pieces of at most two bytes, and then a listing, of
whose reply one byte is taken. -/
theorem converse_lost_reply_listing :
    let v : Vault := { base := { absolute := true, steps := [[0x76]] } }
    let d : Disk := { nodes := ⟨[([[0x76]], .directory 0o755)]⟩ }
    let start : Vault.State := { disk := (v.prepare d).2 }
    let ms : List Message :=
      [⟨7, 1, .backup [0x61] 2, [0x68, 0x69], by decide, rfl, by simp⟩,
        ⟨7, 1, .list, [], by decide, rfl, by simp⟩]
    let input : Source := .ofBytes (ms.flatMap Message.bytes)
    let output : Sink := { maxWrite := some 2, room := some 7, refusal := .nothingTaken }
    7 < (converse (.ofVault v) v.chunkSize start input {}).written.length ∧
      let replies := (converse (.ofVault v) v.chunkSize start input {}).exchanges.map (·.reply)
      let cut := converse (.ofVault v) v.chunkSize start input output
      cut.written = replies.flatten.take 7 ∧ (∃ e, cut.ending = .error e) ∧
        (∃ count, LostAt replies 7 count ∧ cut.exchanges.length = count ∧
          cut.state = stateAfter (.ofVault v) v.chunkSize count start input {}) ∧
        (converse (.ofVault v) v.chunkSize start input {}).state =
          stateAfter (.ofVault v) v.chunkSize replies.length start input {} := by
  intro v d start ms input output
  have hwilling : Sink.Willing {} := ⟨rfl, by decide, rfl⟩
  have hlong : 7 < (((Backend.ofVault v).replies start ms).flatMap Reply.encode).length := by
    decide +kernel
  have hroom : 7 < (converse (.ofVault v) v.chunkSize start input {}).written.length := by
    have hfront : input.front = ms.flatMap Message.bytes ++ [] := by
      rw [List.append_nil]
      exact Source.front_ofBytes _
    obtain ⟨_, _, -, -, -, -, hreplies, -⟩ := converse_messages (honest_ofVault v) v.chunkSize
      start ms hfront hwilling rfl
    rw [Transcript.written, List.flatMap_def, hreplies, List.flatten_append, List.length_append,
      ← List.flatMap_def]
    exact Nat.lt_add_right _ hlong
  exact ⟨hroom, converse_lost_reply v start input hwilling rfl ⟨rfl, by decide, rfl⟩ rfl hroom⟩

end UserVault.Session
