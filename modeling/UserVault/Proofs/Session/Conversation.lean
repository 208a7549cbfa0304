import Mathlib.Data.List.Forall2
import UserVault.Session.Exchange
import UserVault.Proofs.Protocol.Message
import UserVault.Proofs.Vault.Upload

/-!
# Conversations stay in step

A session that gets whole messages answers each of them with exactly one reply, in their order,
and stands between two messages after each, whatever its backend makes of them.  That needs
little of the backend: it has to be honest about what it has read of a payload and about the
length of what it hands out.  Every vault is, on every disk.

What a message comes to is an `Outcome`; the reply to it follows from the outcome and the name
that the message carries.
-/

namespace UserVault.Session

open Link Vault Protocol

variable {σ : Type}

/-! ## 1. Honest backends -/

/-- A backend keeps account of the payload bytes that it takes, looks at nothing else of its
input, and hands out content of the length that it says. -/
structure Backend.Honest (b : Backend σ) : Prop where
  store_unread : ∀ (state : σ) (user : UInt32) (name : Bytes) (length : UInt32) (input : Source)
    (payload missing tail : Bytes), payload.length = length.toNat →
    input.front ++ missing = payload ++ tail →
    match Upload.unread? (b.store state user name length input).result with
    | some unread =>
      unread ≤ payload.length ∧
        (b.store state user name length input).input.front ++ missing =
          payload.drop (payload.length - unread) ++ tail ∧
        (b.store state user name length input).input.barrier = input.barrier
    | none => missing ≠ []
  store_payload : ∀ (state : σ) (user : UInt32) (name : Bytes) (length : UInt32) (input : Source)
    (payload tail : Bytes), payload.length = length.toNat → input.front = payload ++ tail →
    (b.store state user name length input).result =
        (b.store state user name length (.ofBytes payload)).result ∧
      (b.store state user name length input).state =
        (b.store state user name length (.ofBytes payload)).state
  retrieve_content : ∀ (state : σ) (user : UInt32) (name : Bytes) (length : UInt32)
    (content : Source), (b.retrieve state user name).1 = .ok (length, content) →
    ∃ bytes : Bytes, content = .ofBytes bytes ∧ bytes.length < UInt32.size ∧
      length = UInt32.ofNat bytes.length

/-- A retrieval gives the length that the file has at this moment, and it fits its field. -/
theorem length_of_retrieve {v : Vault} {d : Disk} {user : UInt32} {name : Bytes} {file : Opened}
    (h : v.retrieve d user name = .ok file) :
    (d.contentOf file.file).bytes.length < UInt32.size ∧
      file.length = UInt32.ofNat (d.contentOf file.file).bytes.length := by
  rw [Disk.Content.length_bytes]
  unfold Vault.retrieve at h
  split at h
  · cases h
  · split at h
    · cases h
    · dsimp only at h
      split at h
      next hsize =>
        cases h
        exact ⟨hsize, rfl⟩
      next => cases h
    · cases h

theorem honest_ofVault (v : Vault) : (Backend.ofVault v).Honest where
  store_unread state user name _ _ _ _ _ hlength hfront :=
    storeWith_unread v (fun _ => none) state user name hlength hfront
  store_payload state user name _ _ _ _ hlength hfront :=
    storeWith_ofBytes v (fun _ => none) state user name hlength hfront
  retrieve_content state user name length content h := by
    simp only [Backend.ofVault] at h
    split at h
    next file hfile =>
      obtain ⟨hsize, hlength⟩ := length_of_retrieve hfile
      cases h
      exact ⟨_, rfl, hsize, hlength⟩
    next => cases h

/-! ## 2. Outcomes and replies -/

/-- What a backend's operation comes to. -/
inductive Outcome
  | stored (result : Except StoreError Unit)
  | retrieved (result : Except VaultError Bytes)
  | removed (result : Except VaultError Removed)
  | listed (result : Except VaultError Bytes)
  | unknown

namespace Outcome

/-- The status that tells a peer of an outcome. -/
def status : Outcome → Status
  | .stored (.ok _) | .removed (.ok _) => .done
  | .retrieved (.ok _) => .restored
  | .retrieved (.error .notFound) => .noFile
  | .listed (.ok content) => if content.length < UInt32.size then .listed else .failed
  | .listed (.error .noFiles) => .noFiles
  | _ => .failed

/-- The content that goes with an outcome. -/
def content : Outcome → Bytes
  | .retrieved (.ok content) | .listed (.ok content) => content
  | _ => []

/-- The reply that tells a peer of an outcome, with the name that was asked for. -/
def reply (o : Outcome) (name : Bytes) : Reply :=
  match o.status.shape with
  | .bare => .bare o.status
  | .named => .named o.status name
  | .stream => .streamed o.status name o.content

theorem proper_reply {o : Outcome} {name : Bytes} (hname : name.length ≤ maxNameField)
    (hcontent : o.status.shape = .stream → o.content.length < UInt32.size) :
    (o.reply name).Proper := by
  unfold reply
  split
  next h => exact Reply.proper_bare h
  next h => exact Reply.proper_named h hname
  next h => exact Reply.proper_streamed h hname (hcontent h)

end Outcome

namespace Backend

/-- Carries a message out: what that comes to, and the state after it. -/
def carryOut (b : Backend σ) (state : σ) (m : Message) : Outcome × σ :=
  match m.request with
  | .backup name length =>
    let stored := b.store state m.user name length (.ofBytes m.payload)
    (.stored stored.result, stored.state)
  | .restore name =>
    let retrieved := b.retrieve state m.user name
    (.retrieved (retrieved.1.map fun file => file.2.bytes), retrieved.2)
  | .delete name =>
    let removed := b.remove state m.user name
    (.removed removed.1, removed.2)
  | .list =>
    let listed := b.list state m.user
    (.listed listed.1, listed.2)
  | .unknown _ => (.unknown, state)

/-- What messages come to that are carried out one after the other. -/
def outcomes (b : Backend σ) (state : σ) : List Message → List Outcome
  | [] => []
  | m :: ms => (b.carryOut state m).1 :: outcomes b (b.carryOut state m).2 ms

/-- The state after messages that are carried out one after the other. -/
def after (b : Backend σ) (state : σ) : List Message → σ
  | [] => state
  | m :: ms => after b (b.carryOut state m).2 ms

/-- The replies to messages that are carried out one after the other. -/
def replies (b : Backend σ) (state : σ) (ms : List Message) : List Reply :=
  List.zipWith (fun m o => o.reply m.request.name) ms (b.outcomes state ms)

theorem length_outcomes (b : Backend σ) (state : σ) (ms : List Message) :
    (b.outcomes state ms).length = ms.length := by
  induction ms generalizing state with
  | nil => rfl
  | cons m ms ih => simp [outcomes, ih]

theorem length_content_carryOut {b : Backend σ} (hb : b.Honest) (state : σ) (m : Message)
    (h : (b.carryOut state m).1.status.shape = .stream) :
    (b.carryOut state m).1.content.length < UInt32.size := by
  -- only a restore and a listing come to a status that goes with content
  cases hrequest : m.request with
  | backup name length =>
    simp only [carryOut, hrequest] at h
    generalize (b.store state m.user name length (.ofBytes m.payload)).result = result at h
    cases result <;> cases h
  | restore name =>
    have hretrieve := hb.retrieve_content state m.user name
    simp only [carryOut, hrequest] at h ⊢
    generalize (b.retrieve state m.user name).1 = result at hretrieve h ⊢
    cases result with
    | error e => cases e <;> cases h
    | ok file =>
      obtain ⟨bytes, hbytes, hsize, -⟩ := hretrieve file.1 file.2 rfl
      simpa [Except.map, Outcome.content, hbytes, Source.bytes, Source.ofBytes] using hsize
  | delete name =>
    simp only [carryOut, hrequest] at h
    generalize (b.remove state m.user name).1 = result at h
    cases result <;> cases h
  | list =>
    simp only [carryOut, hrequest] at h ⊢
    generalize (b.list state m.user).1 = result at h ⊢
    cases result with
    | error e => cases e <;> cases h
    | ok content =>
      simp only [Outcome.status] at h
      split at h
      next hsize => exact hsize
      next => cases h
  | unknown code =>
    simp only [carryOut, hrequest] at h
    cases h

/-- The reply to a message that a backend carries out has all parts that it should have. -/
theorem proper_reply_carryOut {b : Backend σ} (hb : b.Honest) (state : σ) (m : Message) :
    ((b.carryOut state m).1.reply m.request.name).Proper :=
  Outcome.proper_reply m.name_le (length_content_carryOut hb state m)

end Backend

/-! ## 3. One message -/

/-- What came of a request, as the transcript keeps it. -/
def Answered.exchange (a : Answered σ) : Exchange := ⟨a.input.unopened, a.output.bytes⟩

/-- A session has answered a message, and goes on from there. -/
structure Answered.Replied (a : Answered σ) (reply : Reply) (before : Bytes) (state : σ)
    (tail : Bytes) (barrier : Option FaultKind) : Prop where
  result : a.result = .ok ()
  state : a.state = state
  front : a.input.front = tail
  barrier : a.input.barrier = barrier
  written : a.output.bytes = before ++ reply.encode
  willing : a.output.Willing

section
variable {b : Backend σ} {state : σ} {input : Source} {output : Sink} {chunk : Nat} {tail : Bytes}
  {barrier : Option FaultKind} {m : Message}

-- The two ways of answering that a session has.
def Answered.named (status : Status) (name : Bytes) (input : Source) (output : Sink) (state : σ) :
    Answered σ :=
  let (result, output) := sendNamed status name output
  { result, input, output, state }

def Answered.streamed (chunk : Nat) (status : Status) (name content : Bytes) (input : Source)
    (output : Sink) (state : σ) : Answered σ :=
  let sent := sendStream chunk status name (UInt32.ofNat content.length) (.ofBytes content) output
  { result := sent.result, input, output := sent.sink, state }

theorem replied_named (hout : output.Willing) (status : Status) {name : Bytes}
    (hname : name.length ≤ maxNameField) (hfront : input.front = tail)
    (hbarrier : input.barrier = barrier) :
    (Answered.named status name input output state).Replied (.named status name) output.bytes state
      tail barrier := by
  obtain ⟨sink, hsend, hbytes, hwilling⟩ := Sink.Willing.sendNamed hout status hname
  rw [Answered.named, hsend]
  exact ⟨rfl, rfl, hfront, hbarrier, hbytes, hwilling⟩

theorem replied_streamed (hout : output.Willing) (chunk : Nat) (status : Status)
    {name content : Bytes} (hname : name.length ≤ maxNameField)
    (hcontent : content.length < UInt32.size) (hfront : input.front = tail) :
    (Answered.streamed chunk status name content input output state).Replied
      (.streamed status name content) output.bytes state tail input.barrier := by
  obtain ⟨source, sink, hsend, hbytes, hwilling⟩ :=
    Sink.Willing.sendStream hout chunk status hname hcontent
  rw [Answered.streamed, hsend]
  exact ⟨rfl, rfl, hfront, rfl, hbytes, hwilling⟩

theorem answer_backup (hb : b.Honest) (hout : output.Willing) {user : UInt32} {name payload : Bytes}
    {length : UInt32} (hname : name.length ≤ maxNameField)
    (hpayload : payload.length = length.toNat) (hfront : input.front = payload ++ tail) :
    (answer b chunk user (.backup name length) state input output).Replied
      ((Outcome.stored (b.store state user name length (.ofBytes payload)).result).reply name)
      output.bytes (b.store state user name length (.ofBytes payload)).state tail
      input.barrier := by
  obtain ⟨hresult, hstate⟩ :=
    hb.store_payload state user name length input payload tail hpayload hfront
  have hunread := hb.store_unread state user name length input payload [] tail hpayload
    (by rw [List.append_nil, hfront])
  rw [← hresult, ← hstate]
  simp only [answer]
  generalize b.store state user name length input = stored at hunread ⊢
  obtain ⟨result, rest, state'⟩ := stored
  dsimp only at hunread ⊢
  cases result with
  | ok _ =>
    obtain ⟨-, hrest, hbarrier⟩ := hunread
    rw [Nat.sub_zero, List.drop_length, List.nil_append, List.append_nil] at hrest
    exact replied_named hout .done hname hrest hbarrier
  | error e =>
    cases e with
    | transport fault => exact absurd rfl hunread
    | vault error unread =>
      obtain ⟨hle, hrest, hbarrier⟩ := hunread
      rw [List.append_nil] at hrest
      -- the bytes left unread are skipped, so the next message is at the front
      have hlen : (payload.drop (payload.length - unread)).length = unread := by
        rw [List.length_drop]
        omega
      obtain ⟨rest', hskip, hrest', hbarrier'⟩ := reads_skipPayload _ rest tail hrest
      rw [hlen] at hskip
      simp only [hskip]
      exact replied_named hout .failed hname hrest' (hbarrier'.trans hbarrier)

theorem answer_restore (hb : b.Honest) (hout : output.Willing) (user : UInt32) {name : Bytes}
    (hname : name.length ≤ maxNameField) (hfront : input.front = tail) :
    (answer b chunk user (.restore name) state input output).Replied
      ((Outcome.retrieved ((b.retrieve state user name).1.map fun file => file.2.bytes)).reply name)
      output.bytes (b.retrieve state user name).2 tail input.barrier := by
  have hretrieve := hb.retrieve_content state user name
  simp only [answer]
  generalize b.retrieve state user name = retrieved at hretrieve ⊢
  obtain ⟨result, state'⟩ := retrieved
  cases result with
  | ok file =>
    obtain ⟨length, content⟩ := file
    obtain ⟨bytes, rfl, hsize, rfl⟩ := hretrieve _ _ rfl
    have hbytes : (Source.ofBytes bytes).bytes = bytes := List.append_nil bytes
    simp only [Except.map, hbytes]
    exact replied_streamed hout chunk .restored hname hsize hfront
  | error e =>
    cases e with
    | notFound => exact replied_named hout .noFile hname hfront rfl
    | _ => exact replied_named hout .failed hname hfront rfl

theorem answer_list (hout : output.Willing) (user : UInt32) (hfront : input.front = tail) :
    (answer b chunk user .list state input output).Replied
      ((Outcome.listed (b.list state user).1).reply []) output.bytes (b.list state user).2 tail
      input.barrier := by
  have hname : ([] : Bytes).length ≤ maxNameField := Nat.zero_le _
  simp only [answer]
  generalize b.list state user = listed
  obtain ⟨result, state'⟩ := listed
  cases result with
  | ok content =>
    -- a listing that is too long for its length field is refused
    by_cases hsize : content.length < UInt32.size
    · have hreply : (Outcome.listed (.ok content)).reply [] = .streamed .listed [] content := by
        simp [Outcome.reply, Outcome.status, Status.shape, Outcome.content, hsize]
      simp only [hsize, if_true, hreply]
      exact replied_streamed hout chunk .listed hname hsize hfront
    · have hreply : (Outcome.listed (.ok content)).reply [] = .named .failed [] := by
        simp [Outcome.reply, Outcome.status, Status.shape, hsize]
      simp only [hsize, if_false, hreply]
      exact replied_named hout .failed hname hfront rfl
  | error e =>
    cases e with
    | noFiles =>
      obtain ⟨sink, hsend, hbytes, hwilling⟩ := Sink.Willing.sendBare hout .noFiles
      simp only [hsend]
      exact ⟨rfl, rfl, hfront, rfl, hbytes, hwilling⟩
    | _ => exact replied_named hout .failed hname hfront rfl

/-- A request whose payload, if it has one, is all there is answered with one reply. -/
theorem answer_message (hb : b.Honest) (hout : output.Willing)
    (hfront : input.front = m.payload ++ tail) :
    (answer b chunk m.user m.request state input output).Replied
      ((b.carryOut state m).1.reply m.request.name) output.bytes (b.carryOut state m).2 tail
      input.barrier := by
  obtain ⟨user, version, request, payload, hname, hpayload, hunknown⟩ := m
  -- only a backup has a payload
  have hrest (hzero : payload.length = 0) : input.front = tail := by
    have hnil : payload = [] := List.length_eq_zero_iff.mp hzero
    exact hfront.trans (congrArg (· ++ tail) hnil)
  cases request with
  | backup name length => exact answer_backup hb hout hname hpayload hfront
  | restore name => exact answer_restore hb hout user hname (hrest hpayload)
  | delete name =>
    simp only [answer, Backend.carryOut]
    generalize b.remove state user name = removed
    obtain ⟨result, state'⟩ := removed
    cases result with
    | ok _ => exact replied_named hout .done hname (hrest hpayload) rfl
    | error e => exact replied_named hout .failed hname (hrest hpayload) rfl
  | list => exact answer_list hout user (hrest hpayload)
  | unknown code => exact replied_named hout .failed hname (hrest hpayload) rfl

/-! ## 4. Many messages -/

/-- What one turn of a session's loop comes to. -/
inductive Round (σ : Type)
  /-- The session has ended without another request. -/
  | over (ending : Except FrameError Unit) (input : Source)
  /-- A request has been read and carried out. -/
  | served (answered : Answered σ)

/-- One turn of a session's loop. -/
def round (b : Backend σ) (chunk : Nat) (state : σ) (input : Source) (output : Sink) : Round σ :=
  match Request.read input with
  | (.error fault, input) => .over (.error (.transport fault)) input
  | (.ok none, input) => .over (.ok ()) input
  | (.ok (some (header, request)), rest) =>
    .served (answer b chunk header.user request state rest output)

/-- A session is one round after the other. -/
theorem converse_eq (b : Backend σ) (chunk : Nat) (state : σ) (input : Source) (output : Sink) :
    converse b chunk state input output =
      match round b chunk state input output with
      | .over ending input => { exchanges := [], ending, input, output, state }
      | .served a =>
        match a.result with
        | .error e =>
          { exchanges := [a.exchange], ending := .error e, input := a.input, output := a.output
            state := a.state }
        | .ok () =>
          let later := converse b chunk a.state a.input a.output.forget
          { later with exchanges := a.exchange :: later.exchanges } := by
  -- a session reads first, and what it has read decides how it goes on
  rw [converse, round]
  split
  next fault rest h => rw [h]
  next rest h => rw [h]
  next header request rest h =>
    rw [h]
    cases hresult : (answer b chunk header.user request state rest output).result with
    | error e =>
      simp only [hresult]
      rfl
    | ok _ =>
      simp only [hresult]
      rfl

/-- With a whole message at the front of its input, a session answers it. -/
theorem round_message (hb : b.Honest) (chunk : Nat) (state : σ) (hout : output.Willing)
    (hfront : input.front = m.bytes ++ tail) :
    ∃ a, round b chunk state input output = .served a ∧
      a.Replied ((b.carryOut state m).1.reply m.request.name) output.bytes
        (b.carryOut state m).2 tail input.barrier := by
  rw [Message.bytes, List.append_assoc] at hfront
  obtain ⟨rest, hread, hrest, hbarrier⟩ := reads_message m input (m.payload ++ tail) hfront
  refine ⟨_, by rw [round, hread], ?_⟩
  rw [← hbarrier]
  exact answer_message hb hout hrest

/-- Without another byte, a session ends as its input does. -/
theorem round_nil (b : Backend σ) (chunk : Nat) (state : σ) (output : Sink)
    (hfront : input.front = []) :
    ∃ rest, round b chunk state input output =
      .over (match input.barrier with
        | none => .ok ()
        | some kind => .error (.transport (.raised kind))) rest := by
  obtain ⟨rest, hread⟩ := read_of_front_nil hfront
  refine ⟨rest, ?_⟩
  cases hbarrier : input.barrier with
  | none =>
    rw [hbarrier] at hread
    simp only [round, hread]
  | some kind =>
    rw [hbarrier] at hread
    simp only [round, hread]

/-- A session that gets whole messages first has answered them all when it comes to what follows
them. -/
theorem converse_messages (hb : b.Honest) (chunk : Nat) (state : σ) (ms : List Message)
    (hfront : input.front = ms.flatMap Message.bytes ++ tail) (hout : output.Willing)
    (hnew : output.bytes = []) :
    ∃ input' output', input'.front = tail ∧ input'.barrier = input.barrier ∧ output'.Willing ∧
      output'.bytes = [] ∧
      let later := converse b chunk (b.after state ms) input' output'
      (converse b chunk state input output).exchanges.map (·.reply) =
          (b.replies state ms).map Reply.encode ++ later.exchanges.map (·.reply) ∧
        (converse b chunk state input output).ending = later.ending ∧
        (converse b chunk state input output).state = later.state := by
  induction ms generalizing state input output with
  | nil => exact ⟨input, output, hfront, rfl, hout, hnew, rfl, rfl, rfl⟩
  | cons m ms ih =>
    -- one round answers `m` and leaves the other messages at the front
    rw [List.flatMap_cons, List.append_assoc] at hfront
    obtain ⟨a, hround, ha⟩ := round_message hb chunk state hout hfront
    obtain ⟨input', output', hfront', hbarrier, hout', hnew', hexchanges, hending, hstate⟩ :=
      ih a.state ha.front ha.willing.forget (Sink.bytes_forget a.output)
    have hreply : a.exchange.reply = ((b.carryOut state m).1.reply m.request.name).encode := by
      rw [Answered.exchange, ha.written, hnew, List.nil_append]
    rw [converse_eq b chunk state input output, hround]
    dsimp only
    rw [ha.result]
    dsimp only
    rw [ha.state] at hexchanges hending hstate ⊢
    refine ⟨input', output', hfront', hbarrier.trans ha.barrier, hout', hnew', ?_, hending, hstate⟩
    rw [List.map_cons, hexchanges, hreply]
    rfl

end

/-! ## 5. Conversations of whole messages -/

/-- A reply is the one that tells a peer of the outcome of its message, and the peer can read it. -/
structure Answers (m : Message) (o : Outcome) (r : Reply) : Prop where
  version : r.header.version = 1
  status : r.header.status = o.status.code
  name : r.name = if o.status = .noFiles then none else some m.request.name
  content : r.content = if o.status = .restored ∨ o.status = .listed then some o.content else none
  /-- The reader of replies takes just the bytes of this reply. -/
  reads : Reply.read.Reads r.encode r

theorem answers_reply {m : Message} {o : Outcome} (h : (o.reply m.request.name).Proper) :
    Answers m o (o.reply m.request.name) := by
  have hreads := Reply.reads_read h
  unfold Outcome.reply at hreads ⊢
  cases hstatus : o.status <;> rw [hstatus] at hreads <;>
    exact ⟨rfl, by rw [hstatus]; rfl, by rw [hstatus]; rfl, by rw [hstatus]; rfl, hreads⟩

theorem answers_replies {b : Backend σ} (hb : b.Honest) (state : σ) (ms : List Message) :
    List.Forall₂ (fun (x : Message × Outcome) r => Answers x.1 x.2 r)
      (ms.zip (b.outcomes state ms)) (b.replies state ms) := by
  induction ms generalizing state with
  | nil => exact .nil
  | cons m ms ih => exact .cons (answers_reply (Backend.proper_reply_carryOut hb state m)) (ih _)

theorem converse_nil (b : Backend σ) (chunk : Nat) (state : σ) {input : Source} (output : Sink)
    (hfront : input.front = []) (hbarrier : input.barrier = none) :
    (converse b chunk state input output).exchanges = [] ∧
      (converse b chunk state input output).ending = .ok () ∧
      (converse b chunk state input output).state = state := by
  obtain ⟨rest, hround⟩ := round_nil b chunk state output hfront
  rw [converse_eq, hround, hbarrier]
  exact ⟨rfl, rfl, rfl⟩

/-- Whatever a vault's disk is like, and however the bytes of the messages come in, a session
writes just one well-formed reply to each message, in their order, with the status that its
outcome calls for, and ends well. -/
theorem converse_replies (v : Vault) (s : Vault.State) (ms : List Message) {input : Source}
    {output : Sink} (hsent : input.front = ms.flatMap Message.bytes)
    (hend : input.barrier = none) (hout : output.Willing) (hnew : output.bytes = []) :
    ∃ replies : List Reply,
      List.Forall₂ (fun (x : Message × Outcome) r => Answers x.1 x.2 r)
        (ms.zip ((Backend.ofVault v).outcomes s ms)) replies ∧
      replies.length = ms.length ∧
      (converse (.ofVault v) v.chunkSize s input output).written =
        replies.flatMap Reply.encode ∧
      (converse (.ofVault v) v.chunkSize s input output).exchanges.map (·.reply) =
        replies.map Reply.encode ∧
      (converse (.ofVault v) v.chunkSize s input output).ending = .ok () ∧
      (converse (.ofVault v) v.chunkSize s input output).state =
        (Backend.ofVault v).after s ms := by
  have hb := honest_ofVault v
  have hsent' : input.front = ms.flatMap Message.bytes ++ [] := by
    rw [List.append_nil, hsent]
  obtain ⟨input', output', hfront, hbarrier, -, -, hexchanges, hending, hstate⟩ :=
    converse_messages hb v.chunkSize s ms hsent' hout hnew
  obtain ⟨hexchanges', hending', hstate'⟩ := converse_nil (.ofVault v) v.chunkSize
    ((Backend.ofVault v).after s ms) output' hfront (hbarrier.trans hend)
  rw [hexchanges', List.map_nil, List.append_nil] at hexchanges
  refine ⟨(Backend.ofVault v).replies s ms, answers_replies hb s ms, ?_, ?_, hexchanges,
    hending.trans hending', hstate.trans hstate'⟩
  · rw [Backend.replies, List.length_zipWith, Backend.length_outcomes, Nat.min_self]
  · rw [Transcript.written, List.flatMap_def, hexchanges, List.flatMap_def]

/-- A backup of user 7 and an unknown request, cut into pieces, on a disk that has a file where the
directory of the user should be. -/
theorem converse_replies_obstructed :
    let v : Vault := { base := { absolute := true, steps := [] } }
    let s : Vault.State := { disk := { nodes := ⟨[([[0x37]], .file 0)]⟩ } }
    let ms : List Message :=
      [⟨7, 1, .backup [0x61] 2, [0x68, 0x69], by decide, rfl, by simp⟩,
        ⟨7, 1, .unknown 0, [], by decide, rfl, by simp; decide⟩]
    let input : Source := .ofArrivals [.segment [7, 0, 0, 0, 1, 100, 1], .segment [],
      .segment [0, 0x61, 2, 0, 0, 0, 0x68], .segment [0x69, 7, 0, 0, 0, 1, 0]]
    ∃ replies : List Reply,
      List.Forall₂ (fun (x : Message × Outcome) r => Answers x.1 x.2 r)
        (ms.zip ((Backend.ofVault v).outcomes s ms)) replies ∧
      replies.length = ms.length ∧
      (converse (.ofVault v) v.chunkSize s input {}).written = replies.flatMap Reply.encode ∧
      (converse (.ofVault v) v.chunkSize s input {}).exchanges.map (·.reply) =
        replies.map Reply.encode ∧
      (converse (.ofVault v) v.chunkSize s input {}).ending = .ok () ∧
      (converse (.ofVault v) v.chunkSize s input {}).state = (Backend.ofVault v).after s ms := by
  intro v s ms input
  exact converse_replies v s ms (by decide) (by decide) ⟨rfl, by decide, rfl⟩ rfl

end UserVault.Session
