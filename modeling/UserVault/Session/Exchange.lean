import UserVault.Protocol.Request
import UserVault.Session.Backend

/-!
# Sessions

A session reads one request at a time, has the backend carry it out, and writes exactly one reply
before it reads on.  What goes wrong in the backend becomes a reply; what goes wrong with the
stream ends the session.
-/

namespace UserVault.Session

open Link Vault Protocol

/-- Where a session stands after a request. -/
structure Answered (σ : Type) where
  result : Except FrameError Unit
  input : Source
  output : Sink
  state : σ

/-- Carries a request out and writes the reply, content in chunks of at most `chunk` bytes. -/
def answer {σ : Type} (b : Backend σ) (chunk : Nat) (user : UInt32) (request : Request)
    (state : σ) (input : Source) (output : Sink) : Answered σ :=
  let named (status : Status) (name : Bytes) (input : Source) (state : σ) : Answered σ :=
    let (result, output) := sendNamed status name output
    { result, input, output, state }
  let streamed (status : Status) (name : Bytes) (length : UInt32) (content : Source)
      (state : σ) : Answered σ :=
    let sent := sendStream chunk status name length content output
    { result := sent.result, input, output := sent.sink, state }
  match request with
  | .backup name length =>
    match b.store state user name length input with
    | ⟨.ok (), input, state⟩ => named .done name input state
    | ⟨.error (.transport fault), input, state⟩ =>
      { result := .error (.transport fault), input, output, state }
    | ⟨.error (.vault _ unread), input, state⟩ =>
      match skipPayload unread input with
      | (.error fault, input) => { result := .error (.transport fault), input, output, state }
      | (.ok (), input) => named .failed name input state
  | .restore name =>
    match b.retrieve state user name with
    | (.ok (length, content), state) => streamed .restored name length content state
    | (.error .notFound, state) => named .noFile name input state
    | (.error _, state) => named .failed name input state
  | .delete name =>
    match b.remove state user name with
    | (.ok _, state) => named .done name input state
    | (.error _, state) => named .failed name input state
  | .list =>
    match b.list state user with
    | (.ok content, state) =>
      if content.length < UInt32.size then
        streamed .listed [] (UInt32.ofNat content.length) (.ofBytes content) state
      else named .failed [] input state
    | (.error .noFiles, state) =>
      let (result, output) := sendBare .noFiles output
      { result, input, output, state }
    | (.error _, state) => named .failed [] input state
  | .unknown _ => named .failed [] input state

theorem load_answer_le {σ : Type} (b : Backend σ) (chunk : Nat) (user : UInt32)
    (request : Request) (state : σ) (input : Source) (output : Sink) :
    (answer b chunk user request state input output).input.load ≤ input.load := by
  cases request with
  | backup name length =>
    have hstore := b.load_store_le state user name length input
    simp only [answer]
    split
    next h => simpa [h] using hstore
    next h => simpa [h] using hstore
    next unread rest _ h =>
      rw [h] at hstore
      have hskip := shrinks_skipPayload unread rest
      split
      next hs =>
        rw [hs] at hskip
        exact Nat.le_trans hskip hstore
      next hs =>
        rw [hs] at hskip
        exact Nat.le_trans hskip hstore
  | restore name => simp only [answer]; split <;> exact Nat.le_refl _
  | delete name => simp only [answer]; split <;> exact Nat.le_refl _
  | list =>
    simp only [answer]
    split
    · split <;> exact Nat.le_refl _
    · exact Nat.le_refl _
    · exact Nat.le_refl _
  | unknown operation => exact Nat.le_refl _

/-- A request that was answered, or at least carried out. -/
structure Exchange where
  /-- The segments of the input of which nothing had been read by then. -/
  unopened : Nat
  /-- What was written of the reply. -/
  reply : Bytes
  deriving DecidableEq, Repr

/-- A whole session. -/
structure Transcript (σ : Type) where
  exchanges : List Exchange
  ending : Except FrameError Unit
  input : Source
  output : Sink
  state : σ

/-- Everything that a session wrote. -/
def Transcript.written {σ : Type} (t : Transcript σ) : Bytes :=
  t.exchanges.flatMap (·.reply)

/-- Serves requests until the input ends between two of them, or a transfer fails. -/
def converse {σ : Type} (b : Backend σ) (chunk : Nat) (state : σ) (input : Source)
    (output : Sink) : Transcript σ :=
  match _h : Request.read input with
  | (.error fault, input) =>
    { exchanges := [], ending := .error (.transport fault), input, output, state }
  | (.ok none, input) => { exchanges := [], ending := .ok (), input, output, state }
  | (.ok (some (header, request)), rest) =>
    let answered := answer b chunk header.user request state rest output
    let exchange : Exchange := ⟨answered.input.unopened, answered.output.bytes⟩
    match answered.result with
    | .error e =>
      { exchanges := [exchange], ending := .error e, input := answered.input
        output := answered.output, state := answered.state }
    | .ok () =>
      let later := converse b chunk answered.state answered.input answered.output.forget
      { later with exchanges := exchange :: later.exchanges }
termination_by input.load
decreasing_by
  exact Nat.lt_of_le_of_lt (load_answer_le ..) (Request.load_read_lt ‹_›)

/-- What was written after each segment of the input was begun and before the next one was, when
the input had `segments` segments; segments that were never begun are left out. -/
def Transcript.bySegment {σ : Type} (t : Transcript σ) (segments : Nat) : List Bytes :=
  (List.range (segments - t.input.unopened)).map fun i =>
    (t.exchanges.filter (·.unopened + i + 1 = segments)).flatMap (·.reply)

end UserVault.Session
