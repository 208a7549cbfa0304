import UserVault.Bytes
import UserVault.Link.Fault

/-!
# Byte sinks

A sink takes what is written to a peer.  It may take only so many bytes at once, stop taking any
after a number of bytes, and fail when flushed; it keeps a record of the writes it accepted.
-/

namespace UserVault.Link

/-- How a sink turns down a write once it takes no more. -/
inductive Refusal
  | failed (kind : FaultKind)
  /-- The write succeeds with no byte taken. -/
  | nothingTaken
  deriving DecidableEq, Repr

structure Sink where
  /-- The most bytes that one write takes. -/
  maxWrite : Option Nat := none
  /-- How many bytes are still taken. -/
  room : Option Nat := none
  /-- What happens to a write when there is no room left. -/
  refusal : Refusal := .failed .brokenPipe
  /-- The failure of every flush. -/
  flushFault : Option FaultKind := none
  /-- The accepted writes, the latest first. -/
  accepted : List Bytes := []
  /-- The number of flushes asked for. -/
  flushes : Nat := 0
  deriving DecidableEq, Repr

namespace Sink

/-- The accepted bytes in the order of writing. -/
def bytes (s : Sink) : Bytes := s.accepted.reverse.flatten

/-- The same sink with an empty record. -/
def forget (s : Sink) : Sink := { s with accepted := [], flushes := 0 }

/-- The part of `bytes` that one write takes. -/
def portion (s : Sink) (bytes : Bytes) : Bytes :=
  let bytes := match s.maxWrite with
    | some count => bytes.take count
    | none => bytes
  match s.room with
  | some count => bytes.take count
  | none => bytes

/-- The sink after it took `bytes` in one write. -/
def take (s : Sink) (bytes : Bytes) : Sink :=
  { s with room := s.room.map (· - bytes.length), accepted := bytes :: s.accepted }

/-- Writes until all bytes are taken; an error leaves what was taken before it. -/
def writeAll (s : Sink) (bytes : Bytes) : Except Fault Unit × Sink :=
  if bytes = [] then (.ok (), s)
  else if s.room = some 0 then
    match s.refusal with
    | .failed kind => (.error (.raised kind), s)
    | .nothingTaken => (.error .wroteNothing, s)
  else if s.portion bytes = [] then (.error .wroteNothing, s)
  else writeAll (s.take (s.portion bytes)) (bytes.drop (s.portion bytes).length)
termination_by bytes.length
decreasing_by
  have hpos := List.length_pos_iff.mpr ‹¬s.portion bytes = []›
  have hbytes := List.length_pos_iff.mpr ‹¬bytes = []›
  rw [List.length_drop]
  omega

def flush (s : Sink) : Except Fault Unit × Sink :=
  let s := { s with flushes := s.flushes + 1 }
  match s.flushFault with
  | some kind => (.error (.raised kind), s)
  | none => (.ok (), s)

end Sink

end UserVault.Link
