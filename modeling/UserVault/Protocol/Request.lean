import UserVault.Protocol.Frame

/-!
# Requests

```text
header:   user:4 version:1 operation:1
backup:   name length:2 name payload length:4 payload
restore:  name length:2 name
delete:   name length:2 name
list:     nothing more
```

The payload follows the frame of a backup and is not part of it.
-/

namespace UserVault.Protocol

open Link

/-- What a user can ask for. -/
inductive Operation
  | backup
  | restore
  | delete
  | list
  deriving DecidableEq, Repr

namespace Operation

def code : Operation → UInt8
  | .backup => 100
  | .restore => 200
  | .delete => 201
  | .list => 202

def ofCode? (code : UInt8) : Option Operation :=
  [backup, restore, delete, list].find? (·.code = code)

end Operation

structure RequestHeader where
  user : UInt32
  version : UInt8
  operation : UInt8
  deriving DecidableEq, Repr

namespace RequestHeader

/-- The length of an encoded header. -/
def size : Nat := 6

def encode (header : RequestHeader) : Bytes :=
  Bytes.littleEndian 4 header.user.toNat ++ [header.version, header.operation]

/-- The header at the front of `bytes`; what is missing counts as zero. -/
def decode (bytes : Bytes) : RequestHeader where
  user := UInt32.ofNat (Bytes.ofLittleEndian (bytes.take 4))
  version := bytes.getD 4 0
  operation := bytes.getD 5 0

/-- Reads a header, or nothing where the source ends before its first byte. -/
def read : Reading (Option RequestHeader) := fun s =>
  match s.fill size with
  | ⟨got, .full, rest⟩ => (.ok (some (decode got)), rest)
  | ⟨[], .ended, rest⟩ => (.ok none, rest)
  | ⟨got, .ended, rest⟩ => (.error (.endedInHeader got.length), rest)
  | ⟨_, .failed kind, rest⟩ => (.error (.raised kind), rest)

/-- A header that was read is gone from the source. -/
theorem load_read_lt {s rest : Source} {header : RequestHeader}
    (h : read s = (.ok (some header), rest)) : rest.load < s.load := by
  have hload := Source.load_fill s size
  have hgot := Source.length_got_of_full size s.current s.later
  have hsize : 0 < size := by decide
  unfold read at h
  unfold Source.fill at hload h
  split at h
  all_goals simp_all
  omega

end RequestHeader

inductive Request
  | backup (name : Bytes) (payloadLength : UInt32)
  | restore (name : Bytes)
  | delete (name : Bytes)
  | list
  | unknown (operation : UInt8)
  deriving DecidableEq, Repr

namespace Request

def operation : Request → UInt8
  | .backup _ _ => Operation.backup.code
  | .restore _ => Operation.restore.code
  | .delete _ => Operation.delete.code
  | .list => Operation.list.code
  | .unknown operation => operation

/-- The frame of a request, its header first. -/
def put (user : UInt32) (version : UInt8) (request : Request) : Building Unit := do
  Protocol.put (RequestHeader.encode ⟨user, version, request.operation⟩)
  match request with
  | .backup name payloadLength =>
    putName name
    Protocol.put (Bytes.littleEndian 4 payloadLength.toNat)
  | .restore name | .delete name => putName name
  | .list | .unknown _ => pure ()

/-- Reads what follows the header of a request. -/
def readBody (operation : UInt8) : Reading Request :=
  match Operation.ofCode? operation with
  | some .backup => do
    let name ← readName
    let length ← Source.number 4
    pure (.backup name (UInt32.ofNat length))
  | some .restore => do
    let name ← readName
    pure (.restore name)
  | some .delete => do
    let name ← readName
    pure (.delete name)
  | some .list => pure .list
  | none => pure (.unknown operation)

/-- Reads a request, or nothing where the source ends between requests. -/
def read : Reading (Option (RequestHeader × Request)) := do
  match ← RequestHeader.read with
  | none => pure none
  | some header =>
    let request ← readBody header.operation
    pure (some (header, request))

theorem shrinks_readBody (operation : UInt8) : (readBody operation).Shrinks := by
  unfold readBody
  split
  · exact Reading.shrinks_bind shrinks_readName fun _ =>
      Reading.shrinks_bind (Reading.shrinks_number 4) fun _ => Reading.shrinks_pure _
  · exact Reading.shrinks_bind shrinks_readName fun _ => Reading.shrinks_pure _
  · exact Reading.shrinks_bind shrinks_readName fun _ => Reading.shrinks_pure _
  · exact Reading.shrinks_pure _
  · exact Reading.shrinks_pure _

/-- A request that was read is gone from the source. -/
theorem load_read_lt {s rest : Source} {request : RequestHeader × Request}
    (h : read s = (.ok (some request), rest)) : rest.load < s.load := by
  simp only [read, bind] at h
  split at h
  next header s' hheader =>
    cases header with
    | none => simp [pure] at h
    | some header =>
      have hlt := RequestHeader.load_read_lt hheader
      have hbody := shrinks_readBody header.operation s'
      simp only at h
      split at h
      next body s'' hread =>
        rw [hread] at hbody
        simp only [pure, Prod.mk.injEq] at h
        rw [← h.2]
        exact Nat.lt_of_le_of_lt hbody hlt
      next => simp at h
  next => simp at h

end Request

/-- Reads `length` bytes of payload and drops them. -/
def skipPayload (length : Nat) : Reading Unit := fun s =>
  match s.fill length with
  | ⟨_, .full, rest⟩ => (.ok (), rest)
  | ⟨got, .ended, rest⟩ => (.error (.endedInPayload (length - got.length)), rest)
  | ⟨_, .failed kind, rest⟩ => (.error (.raised kind), rest)

theorem shrinks_skipPayload (length : Nat) : (skipPayload length).Shrinks := by
  intro s
  have h := s.load_fill length
  unfold skipPayload
  split <;> simp_all <;> omega

end UserVault.Protocol
