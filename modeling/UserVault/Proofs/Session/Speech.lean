import UserVault.Proofs.Protocol.Replies
import UserVault.Proofs.Session.Conversation

/-!
# What a session says

A backend may do anything: give any result, fail where it likes, and hand out a file that yields
its bytes in pieces, ends early, breaks off or goes on behind its length.  Whatever the input is,
the session says one whole reply to each request, in their order.  After these comes at most the
beginning of one more, when the content of a file breaks off; the session does and says nothing
after that.
-/

namespace UserVault.Session

open Link Vault Protocol

variable {σ : Type}

/-! ## 1. The end of a session -/

/-- How a session comes to its end. -/
inductive Close
  /-- The input has ended between two requests. -/
  | quiet
  /-- No request could be read. -/
  | garbled (fault : Fault)
  /-- The payload of a backup could not be read. -/
  | starved (fault : Fault)
  /-- A file has only given `sent` of its `length` bytes; if it has not ended there, a read has
  failed. -/
  | broken (name : Bytes) (length : UInt32) (sent : Bytes) (failure : Option FaultKind)

namespace Close

/-- What a session reports at its end. -/
def ending : Close → Except FrameError Unit
  | .quiet => .ok ()
  | .garbled fault | .starved fault => .error (.transport fault)
  | .broken _ length sent failure => .error (breakOff length sent.length failure)

/-- What is written in place of a reply to the last request, if it gets none. -/
def remnant : Close → List Bytes
  | .quiet | .garbled _ => []
  | .starved _ => [[]]
  | .broken name length sent _ => [streamBegun .restored name length sent]

/-- A broken reply lacks something: what would make it whole is just the rest of the content. -/
def Sound : Close → Prop
  | .broken name length sent _ =>
    name.length ≤ maxNameField ∧ sent.length < length.toNat ∧
      ∀ missing : Bytes, sent.length + missing.length = length.toNat →
        streamBegun .restored name length sent ++ missing =
          (Reply.streamed .restored name (sent ++ missing)).encode
  | _ => True

theorem sound_broken {name : Bytes} (hname : name.length ≤ maxNameField) {length : UInt32}
    {sent : Bytes} (hshort : sent.length < length.toNat) (failure : Option FaultKind) :
    (broken name length sent failure).Sound := by
  refine ⟨hname, hshort, fun missing hmissing => ?_⟩
  rw [streamBegun_append, streamBegun_whole]
  rw [List.length_append, hmissing]

theorem Sound.partial_remnant {close : Close} (h : close.Sound) :
    Reply.Partial close.remnant.flatten := by
  cases close with
  | broken name length sent failure =>
    obtain ⟨hname, hshort, hmissing⟩ := h
    have hsize : length.toNat < UInt32.size := length.toNat_lt
    obtain ⟨missing, hlen⟩ : ∃ missing : Bytes, sent.length + missing.length = length.toNat :=
      ⟨List.replicate (length.toNat - sent.length) 0, by rw [List.length_replicate]; omega⟩
    have hproper : (Reply.streamed .restored name (sent ++ missing)).Proper :=
      Reply.proper_streamed rfl hname (by rw [List.length_append, hlen]; exact hsize)
    refine ⟨_, missing, hproper, ?_, ?_⟩
    · intro hnil
      rw [hnil, List.length_nil] at hlen
      omega
    · rw [remnant, List.flatten_cons, List.flatten_nil, List.append_nil]
      exact hmissing missing hlen
  | _ => exact Reply.partial_nil

end Close

/-! ## 2. One request -/

/-- What a request comes to, whoever is told of it. -/
structure Performed (σ : Type) where
  result : Except Close Outcome
  input : Source
  state : σ

/-- Carries a request out.  What is left unread of the payload of a backup is skipped, and a file
that is shorter than its length is no outcome. -/
def Backend.perform (b : Backend σ) (state : σ) (user : UInt32) (request : Request)
    (input : Source) : Performed σ :=
  match request with
  | .backup name length =>
    match b.store state user name length input with
    | ⟨.ok (), input, state⟩ => ⟨.ok (.stored (.ok ())), input, state⟩
    | ⟨.error (.transport fault), input, state⟩ => ⟨.error (.starved fault), input, state⟩
    | ⟨.error (.vault e unread), input, state⟩ =>
      match skipPayload unread input with
      | (.error fault, input) => ⟨.error (.starved fault), input, state⟩
      | (.ok (), input) => ⟨.ok (.stored (.error (.vault e unread))), input, state⟩
  | .restore name =>
    match b.retrieve state user name with
    | (.ok (length, file), state) =>
      if length.toNat ≤ file.front.length then
        ⟨.ok (.retrieved (.ok (file.front.take length.toNat))), input, state⟩
      else ⟨.error (.broken name length file.front file.barrier), input, state⟩
    | (.error e, state) => ⟨.ok (.retrieved (.error e)), input, state⟩
  | .delete name =>
    let removed := b.remove state user name
    ⟨.ok (.removed removed.1), input, removed.2⟩
  | .list =>
    let listed := b.list state user
    ⟨.ok (.listed listed.1), input, listed.2⟩
  | .unknown _ => ⟨.ok .unknown, input, state⟩

/-- What is written when the request that `p` came of had the name `name`. -/
def Performed.said (p : Performed σ) (name : Bytes) : Bytes :=
  match p.result with
  | .ok o => (o.reply name).encode
  | .error close => close.remnant.flatten

def Performed.ending (p : Performed σ) : Except FrameError Unit :=
  match p.result with
  | .ok _ => .ok ()
  | .error close => close.ending

/-- An outcome is told of in a whole reply, and nothing else ends a session between requests. -/
def Performed.Sound (p : Performed σ) (name : Bytes) : Prop :=
  match p.result with
  | .ok o => (o.reply name).Proper
  | .error close => close.Sound ∧ close.remnant.length = 1 ∧ ∃ e, close.ending = .error e

/-- A session has done what `p` says, and has told of it. -/
structure Answered.Tells (a : Answered σ) (p : Performed σ) (name before : Bytes) : Prop where
  sound : p.Sound name
  result : a.result = p.ending
  input : a.input = p.input
  state : a.state = p.state
  written : a.output.bytes = before ++ p.said name
  willing : a.output.Willing

section
variable {output : Sink}

theorem tells_named (hout : output.Willing) (status : Status) {name : Bytes}
    (hname : name.length ≤ maxNameField) (input : Source) (state : σ) {o : Outcome}
    (hstatus : o.status = status) (hshape : status.shape = .named) :
    (Answered.named status name input output state).Tells ⟨.ok o, input, state⟩ name
      output.bytes := by
  obtain ⟨sink, hsend, hbytes, hwilling⟩ := Sink.Willing.sendNamed hout status hname
  have hreply : o.reply name = .named status name := by rw [Outcome.reply, hstatus, hshape]
  rw [Answered.named, hsend]
  refine ⟨?_, rfl, rfl, rfl, ?_, hwilling⟩
  · show (o.reply name).Proper
    rw [hreply]
    exact Reply.proper_named hshape hname
  · show sink.bytes = output.bytes ++ (o.reply name).encode
    rw [hreply, hbytes]

-- A transport that failed has already said all.
theorem tells_starved (hout : output.Willing) (fault : Fault) (name : Bytes) (input : Source)
    (state : σ) :
    Answered.Tells { result := .error (.transport fault), input, output, state }
      ⟨.error (.starved fault), input, state⟩ name output.bytes where
  sound := ⟨trivial, rfl, _, rfl⟩
  result := rfl
  input := rfl
  state := rfl
  written := (List.append_nil _).symm
  willing := hout

/-- A file that is handed out whole, or breaks off before its length is reached. -/
theorem tells_restored (hout : output.Willing) (chunk : Nat) {name : Bytes}
    (hname : name.length ≤ maxNameField) (length : UInt32) (file : Source) (input : Source)
    (state : σ) :
    Answered.Tells
      { result := (sendStream chunk .restored name length file output).result, input
        output := (sendStream chunk .restored name length file output).sink, state }
      (if length.toNat ≤ file.front.length then
        ⟨.ok (.retrieved (.ok (file.front.take length.toNat))), input, state⟩
      else ⟨.error (.broken name length file.front file.barrier), input, state⟩) name
      output.bytes := by
  obtain ⟨rest, sink, hsend, hbytes, hwilling⟩ :=
    Sink.Willing.sendStream_of_front hout chunk .restored hname length file
  rw [hsend]
  by_cases hwhole : length.toNat ≤ file.front.length
  · have hlength : (file.front.take length.toNat).length = length.toNat := by
      rw [List.length_take]
      omega
    have hsize : (file.front.take length.toNat).length < UInt32.size := by
      rw [hlength]
      exact length.toNat_lt
    rw [streamBegun_whole _ _ hlength] at hbytes
    rw [if_pos hwhole, if_pos hwhole]
    exact ⟨Reply.proper_streamed rfl hname hsize, rfl, rfl, rfl, hbytes, hwilling⟩
  · have hshort : file.front.length < length.toNat := by omega
    rw [List.take_of_length_le (Nat.le_of_lt hshort)] at hbytes
    rw [if_neg hwhole, if_neg hwhole]
    refine ⟨⟨Close.sound_broken hname hshort file.barrier, rfl, _, rfl⟩, rfl, rfl, rfl, ?_,
      hwilling⟩
    rw [hbytes]
    exact congrArg (output.bytes ++ ·) (List.append_nil _).symm

/-- A listing goes out whole, unless it is too long for its length field. -/
theorem tells_listed (hout : output.Willing) (chunk : Nat) (content : Bytes) (input : Source)
    (state : σ) :
    (if content.length < UInt32.size then
      Answered.streamed chunk .listed [] content input output state
    else Answered.named .failed [] input output state).Tells
      ⟨.ok (.listed (.ok content)), input, state⟩ [] output.bytes := by
  have hname : ([] : Bytes).length ≤ maxNameField := Nat.zero_le _
  by_cases hsize : content.length < UInt32.size
  · obtain ⟨rest, sink, hsend, hbytes, hwilling⟩ :=
      Sink.Willing.sendStream hout chunk .listed hname hsize
    have hreply : (Outcome.listed (.ok content)).reply [] = .streamed .listed [] content := by
      simp [Outcome.reply, Outcome.status, Status.shape, Outcome.content, hsize]
    rw [if_pos hsize, Answered.streamed, hsend]
    refine ⟨?_, rfl, rfl, rfl, ?_, hwilling⟩
    · show ((Outcome.listed (.ok content)).reply []).Proper
      rw [hreply]
      exact Reply.proper_streamed rfl hname hsize
    · show sink.bytes = output.bytes ++ ((Outcome.listed (.ok content)).reply []).encode
      rw [hreply, hbytes]
  · have hstatus : (Outcome.listed (.ok content)).status = .failed := by
      simp [Outcome.status, hsize]
    rw [if_neg hsize]
    exact tells_named hout .failed hname input state hstatus rfl

theorem answer_tells_backup (b : Backend σ) (chunk : Nat) (user : UInt32) {name : Bytes}
    (length : UInt32) (state : σ) (input : Source) (hname : name.length ≤ maxNameField)
    (hout : output.Willing) :
    (answer b chunk user (.backup name length) state input output).Tells
      (b.perform state user (.backup name length) input) name output.bytes := by
  simp only [answer, Backend.perform]
  generalize b.store state user name length input = stored
  obtain ⟨result, rest, state'⟩ := stored
  cases result with
  | ok _ => exact tells_named hout .done hname rest state' rfl rfl
  | error e =>
    cases e with
    | transport fault => exact tells_starved hout fault name rest state'
    | vault e unread =>
      dsimp only
      generalize skipPayload unread rest = skipped
      obtain ⟨result, rest'⟩ := skipped
      cases result with
      | error fault => exact tells_starved hout fault name rest' state'
      | ok _ =>
        exact tells_named hout .failed hname rest' state' rfl rfl

theorem answer_tells_list (b : Backend σ) (chunk : Nat) (user : UInt32) (state : σ)
    (input : Source) (hout : output.Willing) :
    (answer b chunk user .list state input output).Tells (b.perform state user .list input) []
      output.bytes := by
  have hname : ([] : Bytes).length ≤ maxNameField := Nat.zero_le _
  simp only [answer, Backend.perform]
  generalize b.list state user = listed
  obtain ⟨result, state'⟩ := listed
  cases result with
  | ok content => exact tells_listed hout chunk content input state'
  | error e =>
    cases e with
    | noFiles =>
      obtain ⟨sink, hsend, hbytes, hwilling⟩ := Sink.Willing.sendBare hout .noFiles
      simp only [hsend]
      exact ⟨Reply.proper_bare rfl, rfl, rfl, rfl, hbytes, hwilling⟩
    | _ => exact tells_named hout .failed hname input state' rfl rfl

/-- A session does what a request comes to, and tells of it. -/
theorem answer_tells (b : Backend σ) (chunk : Nat) (user : UInt32) {request : Request} (state : σ)
    (input : Source) (hname : request.name.length ≤ maxNameField) (hout : output.Willing) :
    (answer b chunk user request state input output).Tells (b.perform state user request input)
      request.name output.bytes := by
  cases request with
  | backup name length => exact answer_tells_backup b chunk user length state input hname hout
  | restore name =>
    simp only [answer, Backend.perform]
    generalize b.retrieve state user name = retrieved
    obtain ⟨result, state'⟩ := retrieved
    cases result with
    | ok file => exact tells_restored hout chunk hname file.1 file.2 input state'
    | error e =>
      cases e with
      | notFound =>
        exact tells_named hout .noFile hname input state' rfl rfl
      | _ => exact tells_named hout .failed hname input state' rfl rfl
  | delete name =>
    simp only [answer, Backend.perform]
    generalize b.remove state user name = removed
    obtain ⟨result, state'⟩ := removed
    cases result with
    | ok r => exact tells_named hout .done hname input state' rfl rfl
    | error e => exact tells_named hout .failed hname input state' rfl rfl
  | list => exact answer_tells_list b chunk user state input hout
  | unknown code => exact tells_named hout .failed hname input state rfl rfl

end

/-! ## 3. Whole sessions -/

/-- What a session that starts in a state, with an input, says: the replies, and then its end.
With these come the state and the input that it leaves.  Each request is read after the one before
it has been replied to, and none is read after the end. -/
inductive Speech (b : Backend σ) : σ → Source → List Reply → Close → σ → Source → Prop
  | quiet {state : σ} {input rest : Source} (hread : Request.read input = (.ok none, rest)) :
    Speech b state input [] .quiet state rest
  | garbled {state : σ} {input rest : Source} {fault : Fault}
    (hread : Request.read input = (.error fault, rest)) :
    Speech b state input [] (.garbled fault) state rest
  | ended {state state' : σ} {input rest rest' : Source} {header : RequestHeader}
    {request : Request} {close : Close}
    (hread : Request.read input = (.ok (some (header, request)), rest))
    (hperform : b.perform state header.user request rest = ⟨.error close, rest', state'⟩) :
    Speech b state input [] close state' rest'
  | replied {state state' last : σ} {input rest rest' end' : Source} {header : RequestHeader}
    {request : Request} {o : Outcome} {replies : List Reply} {close : Close}
    (hread : Request.read input = (.ok (some (header, request)), rest))
    (hperform : b.perform state header.user request rest = ⟨.ok o, rest', state'⟩)
    (hlater : Speech b state' rest' replies close last end') :
    Speech b state input (o.reply request.name :: replies) close last end'

theorem version_reply (o : Outcome) (name : Bytes) : (o.reply name).header.version = 1 := by
  unfold Outcome.reply
  split <;> rfl

/-- A session whose writes do not fail says what its requests come to. -/
theorem speech_converse (b : Backend σ) (chunk : Nat) (state : σ) (input : Source) {output : Sink}
    (hout : output.Willing) (hnew : output.bytes = []) :
    ∃ replies close,
      Speech b state input replies close (converse b chunk state input output).state
        (converse b chunk state input output).input ∧
      (converse b chunk state input output).exchanges.map (·.reply) =
        replies.map Reply.encode ++ close.remnant ∧
      (converse b chunk state input output).ending = close.ending ∧
      (∀ r ∈ replies, r.Proper ∧ r.header.version = 1) ∧ close.Sound := by
  induction hload : input.load using Nat.strongRecOn generalizing state input output with
  | _ load ih =>
    rw [converse_eq, round]
    cases hread : Request.read input with
    | mk received rest =>
      rcases received with fault | _ | ⟨header, request⟩
      · exact ⟨[], _, .garbled hread, rfl, rfl, List.forall_mem_nil _, trivial⟩
      · exact ⟨[], _, .quiet hread, rfl, rfl, List.forall_mem_nil _, trivial⟩
      · have hname := name_le_of_read hread
        have htells := answer_tells b chunk header.user state rest hname hout
        have hless : (answer b chunk header.user request state rest output).input.load < load :=
          hload ▸ Nat.lt_of_le_of_lt (load_answer_le ..) (Request.load_read_lt hread)
        dsimp only
        generalize answer b chunk header.user request state rest output = a at htells hless ⊢
        obtain ⟨hsound, hresult, hinput, hstate, hwritten, hwilling⟩ := htells
        rw [hnew, List.nil_append] at hwritten
        cases hperform : b.perform state header.user request rest with
        | mk result rest' state' =>
          rw [hperform] at hsound hresult hinput hstate hwritten
          dsimp only at hinput hstate
          cases result with
          | error close =>
            obtain ⟨hclose, hone, e, hending⟩ := hsound
            obtain ⟨said, hsaid⟩ := List.length_eq_one_iff.mp hone
            have herror : a.result = .error e := hresult.trans hending
            rw [herror]
            refine ⟨[], close, hstate ▸ hinput ▸ .ended hread hperform, ?_, hending.symm,
              List.forall_mem_nil _, hclose⟩
            show [a.output.bytes] = close.remnant
            rw [hwritten]
            show [close.remnant.flatten] = close.remnant
            rw [hsaid, List.flatten_singleton]
          | ok o =>
            have hok : a.result = .ok () := hresult
            obtain ⟨replies, close, hspeech, hexchanges, hending, hproper, hclose⟩ :=
              ih _ hless a.state a.input hwilling.forget (Sink.bytes_forget _) rfl
            rw [hok]
            rw [hinput, hstate] at hspeech
            refine ⟨o.reply request.name :: replies, close, ?_, ?_, hending, ?_, hclose⟩
            · dsimp only
              rw [hinput, hstate]
              exact .replied hread hperform hspeech
            · dsimp only
              rw [List.map_cons, hexchanges, Answered.exchange, hwritten]
              rfl
            · intro r hr
              rcases List.mem_cons.mp hr with rfl | hr
              · exact ⟨hsound, version_reply o request.name⟩
              · exact hproper r hr

/-- Whatever a backend does, whatever the input is and however little is copied at once: a session
whose writes do not fail writes whole replies, one to each request in order, and after them at most
the beginning of the reply to a restore.  It does so only when the content of the file has broken
off; it then reports how it did, with the exact number of content bytes that were sent, and neither
reads nor writes any more.  A client that goes by the lengths in what it gets finds these replies
and nothing else. -/
theorem converse_speech (b : Backend σ) (chunk : Nat) (state : σ) (input : Source) {output : Sink}
    (hout : output.Willing) (hnew : output.bytes = []) :
    let t := converse b chunk state input output
    ∃ (replies : List Reply) (close : Close),
      Speech b state input replies close t.state t.input ∧
      t.exchanges.map (·.reply) = replies.map Reply.encode ++ close.remnant ∧
      t.written = replies.flatMap Reply.encode ++ close.remnant.flatten ∧
      t.ending = close.ending ∧
      (∀ r ∈ replies, r.Proper ∧ r.header.version = 1) ∧ close.Sound ∧
      ∀ received : Source, received.front = t.written → Reply.readAll received = replies := by
  intro t
  obtain ⟨replies, close, hspeech, hexchanges, hending, hproper, hclose⟩ :=
    speech_converse b chunk state input hout hnew
  have hwritten : t.written = replies.flatMap Reply.encode ++ close.remnant.flatten := by
    rw [Transcript.written, List.flatMap_def, hexchanges, List.flatten_append, List.flatMap_def]
  refine ⟨replies, close, hspeech, hexchanges, hwritten, hending, hproper, hclose, ?_⟩
  intro received hreceived
  exact Reply.readAll_of_front (fun r hr => (hproper r hr).1) hclose.partial_remnant
    (hreceived.trans hwritten)

/-- A backend that removes nothing and hands out a file that fails after two of its five bytes,
asked for a removal, for the file, and for a listing that it never comes to. -/
theorem converse_speech_broken :
    let b : Backend Unit :=
      { store := fun s _ _ length input => ⟨.error (.vault .notFound length.toNat), input, s⟩
        retrieve := fun s _ _ =>
          (.ok (5, .ofArrivals [.segment [0x61, 0x62], .fault .timedOut, .segment [0x63]]), s)
        remove := fun s _ _ => (.error .notFound, s)
        list := fun s _ => (.error .noFiles, s)
        load_store_le := fun _ _ _ _ _ => Nat.le_refl _ }
    let input : Source := .ofArrivals [.segment [7, 0, 0, 0, 1, 201, 1, 0, 0x61, 7, 0, 0, 0, 1],
      .segment [200, 1, 0, 0x61], .segment [7, 0, 0, 0, 1, 202]]
    let t := converse b 1 () input {}
    ∃ (replies : List Reply) (close : Close),
      Speech b () input replies close t.state t.input ∧
      t.exchanges.map (·.reply) = replies.map Reply.encode ++ close.remnant ∧
      t.written = replies.flatMap Reply.encode ++ close.remnant.flatten ∧
      t.ending = close.ending ∧
      (∀ r ∈ replies, r.Proper ∧ r.header.version = 1) ∧ close.Sound ∧
      ∀ received : Source, received.front = t.written → Reply.readAll received = replies := by
  intro b input t
  exact converse_speech b 1 () input ⟨rfl, by decide, rfl⟩ rfl

end UserVault.Session
