import UserVault.Link.Source
import UserVault.Link.Sink

/-!
# Frames

Frames are built from fixed-width numbers and from names that carry their length in front.
Nothing is delimited.  This module has the name field, in both directions, and the errors that
end a conversation.
-/

namespace UserVault.Protocol

open Link

/-- Why a conversation cannot go on. -/
inductive FrameError
  /-- A transfer failed. -/
  | transport (fault : Fault)
  /-- The content of a reply ended before its declared length. -/
  | shortContent (declared : UInt32) (sent : Nat)
  /-- A field does not fit the width of its length. -/
  | fieldTooLong (field : String) (length : Nat)
  deriving DecidableEq, Repr

def FrameError.message : FrameError → String
  | .transport fault => s!"Transport error: {fault.message}"
  | .shortContent declared sent => s!"Content truncated: declared {declared} bytes, sent {sent}"
  | .fieldTooLong field length => s!"Field '{field}' too long: {length} bytes"

/-- The text of the fault behind an error, if there is one. -/
def FrameError.cause? : FrameError → Option String
  | .transport fault => some fault.message
  | _ => none

/-- A frame under construction.  What was put before an error stays. -/
abbrev Building (α : Type) := ExceptT FrameError (StateM Bytes) α

/-- The longest name that a frame can carry. -/
def maxNameField : Nat := 65535

def put (bytes : Bytes) : Building Unit := modify (· ++ bytes)

/-- A name field: two bytes of length, then the name. -/
def putName (name : Bytes) : Building Unit := do
  if maxNameField < name.length then
    throw (.fieldTooLong "name" name.length)
  put (Bytes.littleEndian 2 name.length)
  put name

/-- The bytes that a construction puts, and how it ends. -/
def Building.build (frame : Building Unit) : Except FrameError Unit × Bytes :=
  StateT.run (ExceptT.run frame) []

/-- Reads a name field. -/
def readName : Reading Bytes := do
  let length ← Source.number 2
  Source.exactly length

theorem shrinks_readName : readName.Shrinks :=
  Reading.shrinks_bind (Reading.shrinks_number 2) Reading.shrinks_exactly

end UserVault.Protocol
