/-!
# Faults of a byte stream

A stream fails either because the medium says so, or because it ends where more bytes were due.
Each fault has a kind and a text.
-/

namespace UserVault.Link

/-- The class of a fault, as far as a caller may act on it. -/
inductive FaultKind
  | connectionReset
  | connectionAborted
  | brokenPipe
  | timedOut
  | notFound
  | permissionDenied
  | unexpectedEof
  | writeZero
  | invalidData
  deriving DecidableEq, Repr

/-- The text of a fault of which nothing but the kind is known. -/
def FaultKind.message : FaultKind → String
  | .connectionReset => "connection reset"
  | .connectionAborted => "connection aborted"
  | .brokenPipe => "broken pipe"
  | .timedOut => "timed out"
  | .notFound => "entity not found"
  | .permissionDenied => "permission denied"
  | .unexpectedEof => "unexpected end of file"
  | .writeZero => "write zero"
  | .invalidData => "invalid data"

/-- Why a transfer over a stream failed. -/
inductive Fault
  /-- The medium reported it. -/
  | raised (kind : FaultKind)
  /-- The stream ended inside a run of bytes of known length. -/
  | endedInBytes
  /-- The stream ended before the last byte of a number. -/
  | endedInNumber
  /-- The stream ended after some, not all, bytes of a request header. -/
  | endedInHeader (got : Nat)
  /-- The stream ended while a payload was skipped. -/
  | endedInPayload (missing : Nat)
  /-- A reply carries a status that the protocol does not have. -/
  | unknownStatus (code : UInt16)
  /-- A write took no byte. -/
  | wroteNothing
  deriving DecidableEq, Repr

def Fault.kind : Fault → FaultKind
  | .raised kind => kind
  | .endedInBytes | .endedInNumber | .endedInHeader _ | .endedInPayload _ => .unexpectedEof
  | .unknownStatus _ => .invalidData
  | .wroteNothing => .writeZero

def Fault.message : Fault → String
  | .raised kind => kind.message
  | .endedInBytes => "early eof"
  | .endedInNumber => FaultKind.unexpectedEof.message
  | .endedInHeader got => s!"connection closed after {got} header bytes"
  | .endedInPayload missing => s!"connection closed with {missing} payload bytes unread"
  | .unknownStatus code => s!"unknown status code {code}"
  | .wroteNothing => FaultKind.writeZero.message

end UserVault.Link
