import UserVault.Protocol.Reply

/-!
# Writing replies

A reply without content is one write and a flush.  A streamed reply is one write for all that
comes before the content, then one write for each read of its source, then a flush; never more
than the declared length is taken from the source.
-/

namespace UserVault.Protocol

open Link

/-- A reply's effect on the sink it is written to. -/
abbrev Sending := Except FrameError Unit × Sink

/-- Writes a finished frame and flushes it; a frame that could not be built is not written. -/
def send (frame : Building Unit) (sink : Sink) : Sending :=
  match frame.build with
  | (.error e, _) => (.error e, sink)
  | (.ok (), bytes) =>
    match sink.writeAll bytes with
    | (.error fault, sink) => (.error (.transport fault), sink)
    | (.ok (), sink) =>
      match sink.flush with
      | (.error fault, sink) => (.error (.transport fault), sink)
      | (.ok (), sink) => (.ok (), sink)

/-- A reply that is its status alone. -/
def bareReply (status : Status) : Building Unit :=
  put (ReplyHeader.ofStatus status).encode

/-- A reply with a name. -/
def namedReply (status : Status) (name : Bytes) : Building Unit := do
  put (ReplyHeader.ofStatus status).encode
  putName name

/-- What comes before the content of a streamed reply. -/
def streamPreamble (status : Status) (name : Bytes) (length : UInt32) : Building Unit := do
  put (ReplyHeader.ofStatus status).encode
  putName name
  put (Bytes.littleEndian 4 length.toNat)

def sendBare (status : Status) (sink : Sink) : Sending :=
  send (bareReply status) sink

def sendNamed (status : Status) (name : Bytes) (sink : Sink) : Sending :=
  send (namedReply status name) sink

/-- What comes of a streamed reply, which takes from a source of any kind what it writes to a
sink. -/
structure StreamedFrom (σ : Type) where
  result : Except FrameError Unit
  source : σ
  sink : Sink

/-- Copies content of which `sent` of `length` bytes have been written, at most `chunk` bytes at
a time, and flushes at the end.  Every read of the source is done by `read`. -/
def copyFrom {σ : Type} (read : σ → Nat → Received × σ) (chunk : Nat) (length : UInt32)
    (sent : Nat) (source : σ) (sink : Sink) : StreamedFrom σ :=
  if sent < length.toNat then
    match read source (min (max 1 chunk) (length.toNat - sent)) with
    | (.failed kind, source) => ⟨.error (.transport (.raised kind)), source, sink⟩
    | (.bytes [], source) | (.ended, source) =>
      match sink.flush with
      | (.error fault, sink) => ⟨.error (.transport fault), source, sink⟩
      | (.ok (), sink) => ⟨.error (.shortContent length sent), source, sink⟩
    | (.bytes (b :: bs), source) =>
      match sink.writeAll (b :: bs) with
      | (.error fault, sink) => ⟨.error (.transport fault), source, sink⟩
      | (.ok (), sink) => copyFrom read chunk length (sent + (b :: bs).length) source sink
  else
    match sink.flush with
    | (.error fault, sink) => ⟨.error (.transport fault), source, sink⟩
    | (.ok (), sink) => ⟨.ok (), source, sink⟩
termination_by length.toNat - sent
decreasing_by simp only [List.length_cons]; omega

/-- Writes a streamed reply, its content taken from `source` by `read`. -/
def sendFrom {σ : Type} (read : σ → Nat → Received × σ) (chunk : Nat) (status : Status)
    (name : Bytes) (length : UInt32) (source : σ) (sink : Sink) : StreamedFrom σ :=
  match (streamPreamble status name length).build with
  | (.error e, _) => ⟨.error e, source, sink⟩
  | (.ok (), preamble) =>
    match sink.writeAll preamble with
    | (.error fault, sink) => ⟨.error (.transport fault), source, sink⟩
    | (.ok (), sink) => copyFrom read chunk length 0 source sink

-- A session's replies take their content from sources of bytes.

abbrev Streamed := StreamedFrom Source

def copyContent (chunk : Nat) (length : UInt32) (sent : Nat) (source : Source) (sink : Sink) :
    Streamed :=
  copyFrom Source.read chunk length sent source sink

def sendStream (chunk : Nat) (status : Status) (name : Bytes) (length : UInt32)
    (source : Source) (sink : Sink) : Streamed :=
  sendFrom Source.read chunk status name length source sink

end UserVault.Protocol
