import UserVault.Protocol.Frame

/-!
# Replies

```text
header:  version:1 status:2
bare:    header
named:   header, name length:2 name
stream:  header, name length:2 name, content length:4 content
```

The status decides which of the three a reply is.
-/

namespace UserVault.Protocol

open Link

/-- What a reply consists of. -/
inductive Shape
  | bare
  | named
  | stream
  deriving DecidableEq, Repr

inductive Status
  /-- The content of the file follows. -/
  | restored
  /-- The names of the user's files follow. -/
  | listed
  /-- The request was carried out. -/
  | done
  /-- The user has no such file. -/
  | noFile
  /-- The user has no file at all. -/
  | noFiles
  /-- The request was not carried out. -/
  | failed
  deriving DecidableEq, Repr

namespace Status

def code : Status → UInt16
  | .restored => 210
  | .listed => 211
  | .done => 212
  | .noFile => 1001
  | .noFiles => 1002
  | .failed => 1003

def ofCode? (code : UInt16) : Option Status :=
  [restored, listed, done, noFile, noFiles, failed].find? (·.code = code)

def shape : Status → Shape
  | .restored | .listed => .stream
  | .done | .noFile | .failed => .named
  | .noFiles => .bare

end Status

structure ReplyHeader where
  version : UInt8
  status : UInt16
  deriving DecidableEq, Repr

namespace ReplyHeader

/-- The length of an encoded header. -/
def size : Nat := 3

/-- The version that the service speaks. -/
def currentVersion : UInt8 := 1

def ofStatus (status : Status) : ReplyHeader := ⟨currentVersion, status.code⟩

def encode (header : ReplyHeader) : Bytes :=
  header.version :: Bytes.littleEndian 2 header.status.toNat

/-- The header at the front of `bytes`; what is missing counts as zero. -/
def decode (bytes : Bytes) : ReplyHeader where
  version := bytes.getD 0 0
  status := UInt16.ofNat (Bytes.ofLittleEndian ((bytes.drop 1).take 2))

end ReplyHeader

/-- A reply as its receiver sees it. -/
structure Reply where
  header : ReplyHeader
  name : Option Bytes := none
  content : Option Bytes := none
  deriving DecidableEq, Repr

namespace Reply

/-- Reads what a header with a status of this shape calls for. -/
def readParts (header : ReplyHeader) : Shape → Reading Reply
  | .bare => pure { header }
  | .named => do
    let name ← readName
    pure { header, name := some name }
  | .stream => do
    let name ← readName
    let length ← Source.number 4
    let content ← Source.exactly length
    pure { header, name := some name, content := some content }

/-- Reads one reply; its status says how much there is to read. -/
def read : Reading Reply := do
  let header := ReplyHeader.decode (← Source.exactly ReplyHeader.size)
  match Status.ofCode? header.status with
  | none => fun s => (.error (.unknownStatus header.status), s)
  | some status => readParts header status.shape

end Reply

end UserVault.Protocol
