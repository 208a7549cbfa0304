import UserVault.Protocol.Request
import UserVault.Proofs.Protocol.Reply

/-!
# Messages

A message is all that a peer sends for one request: the header, the fields that the operation
calls for and, for a backup, the whole payload.  Reading takes just the frame of a message, its
payload excepted, off a source, however the bytes are cut into segments, and fails where the frame
is cut off after its first byte.
-/

namespace UserVault.Protocol

open Link

namespace Request

/-- The name that a request carries. -/
def name : Request → Bytes
  | .backup name _ | .restore name | .delete name => name
  | .list | .unknown _ => []

/-- How many payload bytes follow the frame of a request. -/
def payloadLength : Request → Nat
  | .backup _ length => length.toNat
  | _ => 0

/-- What follows the header of a request on the wire. -/
def fields : Request → Bytes
  | .backup name length => nameField name ++ Bytes.littleEndian 4 length.toNat
  | .restore name | .delete name => nameField name
  | .list | .unknown _ => []

end Request

/-- A request with all that a peer sends for it. -/
structure Message where
  user : UInt32
  version : UInt8
  request : Request
  payload : Bytes
  name_le : request.name.length ≤ maxNameField
  payload_length : payload.length = request.payloadLength
  /-- What counts as unknown is not the code of any operation. -/
  operation_unknown : ∀ code, request = .unknown code → Operation.ofCode? code = none
  deriving DecidableEq

namespace Message

def header (m : Message) : RequestHeader := ⟨m.user, m.version, m.request.operation⟩

/-- The bytes of a message up to its payload. -/
def frame (m : Message) : Bytes := m.header.encode ++ m.request.fields

/-- All bytes of a message. -/
def bytes (m : Message) : Bytes := m.frame ++ m.payload

end Message

theorem RequestHeader.length_encode (header : RequestHeader) :
    header.encode.length = RequestHeader.size := by
  simp [RequestHeader.encode, RequestHeader.size]

@[simp] theorem RequestHeader.decode_encode (header : RequestHeader) :
    RequestHeader.decode header.encode = header := by
  have htake : header.encode.take 4 = Bytes.littleEndian 4 header.user.toNat := by
    rw [RequestHeader.encode, List.take_left' (Bytes.length_littleEndian ..)]
  have hlt : header.user.toNat < Nat.pow 256 4 := header.user.toNat_lt
  obtain ⟨user, version, operation⟩ := header
  simp only [RequestHeader.decode, htake, Bytes.ofLittleEndian_littleEndian, Nat.mod_eq_of_lt hlt]
  simp [RequestHeader.encode]

/-! ## 1. Frames are what the builder of requests puts -/

theorem puts_request {request : Request} (user : UInt32) (version : UInt8)
    (h : request.name.length ≤ maxNameField) :
    (request.put user version).Puts
      (RequestHeader.encode ⟨user, version, request.operation⟩ ++ request.fields) := by
  refine (puts_put _).bind ?_
  cases request with
  | backup name length => exact (puts_putName h).bind (puts_put _)
  | restore name => exact puts_putName h
  | delete name => exact puts_putName h
  | list => exact fun before => by rw [Request.fields, List.append_nil]; rfl
  | unknown code => exact fun before => by rw [Request.fields, List.append_nil]; rfl

-- What a peer that builds its requests sends is the frame of a message.
theorem Message.build_put (m : Message) :
    (m.request.put m.user m.version).build = (.ok (), m.frame) :=
  (puts_request m.user m.version m.name_le).build

/-! ## 2. Reading a message -/

theorem reads_header (header : RequestHeader) :
    RequestHeader.read.Reads header.encode (some header) := by
  intro s tail h
  obtain ⟨rest, hfill, hfront, hbarrier⟩ := Source.fill_of_front h
  rw [RequestHeader.length_encode] at hfill
  refine ⟨rest, ?_, hfront, hbarrier⟩
  simp only [RequestHeader.read, hfill, RequestHeader.decode_encode]

theorem reads_fields (m : Message) :
    (Request.readBody m.request.operation).Reads m.request.fields m.request := by
  obtain ⟨user, version, request, payload, hname, hpayload, hunknown⟩ := m
  cases request with
  | backup name length =>
    have hread : (Request.readBody Operation.backup.code).Reads
        (nameField name ++ (Bytes.littleEndian 4 length.toNat ++ []))
        (.backup name (UInt32.ofNat length.toNat)) :=
      Reading.reads_bind (reads_readName hname)
        (Reading.reads_bind (reads_littleEndian length.toNat_lt) (Reading.reads_pure _))
    rwa [List.append_nil, UInt32.ofNat_toNat] at hread
  | restore name =>
    have hread : (Request.readBody Operation.restore.code).Reads (nameField name ++ [])
        (.restore name) :=
      Reading.reads_bind (reads_readName hname) (Reading.reads_pure _)
    rwa [List.append_nil] at hread
  | delete name =>
    have hread : (Request.readBody Operation.delete.code).Reads (nameField name ++ [])
        (.delete name) :=
      Reading.reads_bind (reads_readName hname) (Reading.reads_pure _)
    rwa [List.append_nil] at hread
  | list => exact Reading.reads_pure _
  | unknown code =>
    simp only [Request.operation, Request.readBody, hunknown code rfl]
    exact Reading.reads_pure _

theorem starves_fields (m : Message) :
    (Request.readBody m.request.operation).Starves m.request.fields := by
  obtain ⟨user, version, request, payload, hname, hpayload, hunknown⟩ := m
  cases request with
  | backup name length =>
    have hstarve : (Request.readBody Operation.backup.code).Starves
        (nameField name ++ (Bytes.littleEndian 4 length.toNat ++ [])) :=
      Reading.starves_bind (reads_readName hname) (starves_readName hname)
        (Reading.starves_bind (reads_littleEndian length.toNat_lt) (starves_littleEndian _ _)
          (Reading.starves_pure _))
    rwa [List.append_nil] at hstarve
  | restore name =>
    have hstarve : (Request.readBody Operation.restore.code).Starves (nameField name ++ []) :=
      Reading.starves_bind (reads_readName hname) (starves_readName hname)
        (Reading.starves_pure _)
    rwa [List.append_nil] at hstarve
  | delete name =>
    have hstarve : (Request.readBody Operation.delete.code).Starves (nameField name ++ []) :=
      Reading.starves_bind (reads_readName hname) (starves_readName hname)
        (Reading.starves_pure _)
    rwa [List.append_nil] at hstarve
  | list => exact Reading.starves_pure _
  | unknown code =>
    simp only [Request.operation, Request.readBody, hunknown code rfl]
    exact Reading.starves_pure _

theorem reads_message (m : Message) : Request.read.Reads m.frame (some (m.header, m.request)) := by
  have hread : Request.read.Reads (m.header.encode ++ (m.request.fields ++ []))
      (some (m.header, m.request)) :=
    Reading.reads_bind (reads_header m.header)
      (Reading.reads_bind (reads_fields m) (Reading.reads_pure _))
  rwa [List.append_nil] at hread

/-- A name that was read is no longer than its length field can say. -/
theorem yields_readName : readName.Yields fun name => name.length ≤ maxNameField := by
  refine Reading.yields_bind (Reading.yields_number 2) fun length hlength => ?_
  intro s rest name h
  have hname := Reading.yields_exactly length s rest name h
  exact Nat.le_of_lt_succ (hname ▸ hlength)

theorem yields_readBody (operation : UInt8) :
    (Request.readBody operation).Yields fun request => request.name.length ≤ maxNameField := by
  unfold Request.readBody
  split
  · exact Reading.yields_bind yields_readName fun _ hname =>
      Reading.yields_bind (Reading.yields_number 4) fun _ _ => Reading.yields_pure hname
  · exact Reading.yields_bind yields_readName fun _ hname => Reading.yields_pure hname
  · exact Reading.yields_bind yields_readName fun _ hname => Reading.yields_pure hname
  · exact Reading.yields_pure (Nat.zero_le _)
  · exact Reading.yields_pure (Nat.zero_le _)

/-- The name of a request that was read fits its field. -/
theorem name_le_of_read {s rest : Source} {header : RequestHeader} {request : Request}
    (h : Request.read s = (.ok (some (header, request)), rest)) :
    request.name.length ≤ maxNameField := by
  simp only [Request.read, bind] at h
  split at h
  next received mid hheader =>
    rcases received with _ | header'
    · cases h
    · dsimp only at h
      split at h
      next request' last hbody =>
        cases h
        exact yields_readBody _ _ _ _ hbody
      next => cases h
  next => cases h

/-- A source without a byte before its end or its fault holds no request. -/
theorem read_of_front_nil {s : Source} (h : s.front = []) :
    ∃ rest, Request.read s =
      (match s.barrier with
        | none => .ok none
        | some kind => .error (.raised kind), rest) := by
  have hlt : s.front.length < RequestHeader.size := by
    rw [h]
    decide
  obtain ⟨rest, hfill⟩ := s.fill_of_front_lt hlt
  rw [h] at hfill
  refine ⟨rest, ?_⟩
  cases hb : s.barrier with
  | none =>
    rw [hb] at hfill
    simp only [Request.read, bind, RequestHeader.read, hfill, Stop.ofBarrier]
    rfl
  | some kind =>
    rw [hb] at hfill
    simp only [Request.read, bind, RequestHeader.read, hfill, Stop.ofBarrier]

/-- A header of which some bytes come, not all, is an error. -/
theorem read_header_cut {s : Source} {missing : Bytes} {header : RequestHeader}
    (h : s.front ++ missing = header.encode) (hne : missing ≠ []) (hbegun : s.front ≠ []) :
    ∃ fault rest, RequestHeader.read s = (.error fault, rest) := by
  obtain ⟨b, bs, hfront⟩ := List.exists_cons_of_ne_nil hbegun
  obtain ⟨rest, hfill | ⟨kind, hfill⟩⟩ := Source.fill_cut h hne
  · rw [RequestHeader.length_encode, hfront] at hfill
    exact ⟨.endedInHeader (b :: bs).length, rest, by simp only [RequestHeader.read, hfill]⟩
  · rw [RequestHeader.length_encode, hfront] at hfill
    exact ⟨.raised kind, rest, by simp only [RequestHeader.read, hfill]⟩

/-- A frame that is cut off after its first byte cannot be read. -/
theorem read_frame_cut {s : Source} {missing : Bytes} {m : Message}
    (h : s.front ++ missing = m.frame) (hne : missing ≠ []) (hbegun : s.front ≠ []) :
    ∃ fault rest, Request.read s = (.error fault, rest) := by
  -- what comes after the header starves wherever it is cut
  have hrest : Reading.Starves (do
      let request ← Request.readBody m.header.operation
      pure (some (m.header, request))) (m.request.fields ++ []) :=
    Reading.starves_bind (reads_fields m) (starves_fields m) (Reading.starves_pure _)
  rw [List.append_nil] at hrest
  -- the cut is within the header, just behind it, or within the fields
  rcases List.append_eq_append_iff.mp h with ⟨short, hheader, hmissing⟩ | ⟨tail, hfront, hfields⟩
  · by_cases hshort : short = []
    · have hfront : s.front = m.header.encode ++ [] := by
        rw [hheader, hshort, List.append_nil, List.append_nil]
      obtain ⟨mid, hmid, hfront', _⟩ := reads_header m.header s [] hfront
      obtain ⟨fault, rest, hread⟩ := hrest mid missing
        (by rw [hfront', hmissing, hshort, List.nil_append, List.nil_append]) hne
      exact ⟨fault, rest, by simp only [Request.read, bind, hmid]; exact hread⟩
    · obtain ⟨fault, rest, hread⟩ := read_header_cut hheader.symm hshort hbegun
      exact ⟨fault, rest, by simp only [Request.read, bind, hread]⟩
  · obtain ⟨mid, hmid, hfront', _⟩ := reads_header m.header s tail hfront
    obtain ⟨fault, rest, hread⟩ := hrest mid missing (by rw [hfront', hfields]) hne
    exact ⟨fault, rest, by simp only [Request.read, bind, hmid]; exact hread⟩

/-! ## 3. Skipping a payload -/

theorem reads_skipPayload (payload : Bytes) : (skipPayload payload.length).Reads payload () := by
  intro s tail h
  obtain ⟨rest, hfill, hfront, hbarrier⟩ := Source.fill_of_front h
  exact ⟨rest, by simp only [skipPayload, hfill], hfront, hbarrier⟩

theorem starves_skipPayload (payload : Bytes) : (skipPayload payload.length).Starves payload := by
  intro s missing h hne
  obtain ⟨rest, hfill | ⟨kind, hfill⟩⟩ := Source.fill_cut h hne
  · exact ⟨.endedInPayload (payload.length - s.front.length), rest,
      by simp only [skipPayload, hfill]⟩
  · exact ⟨.raised kind, rest, by simp only [skipPayload, hfill]⟩

/-! ## 4. Segments -/

theorem blind_readHeader : RequestHeader.read.Blind :=
  Reading.blind_of_fill RequestHeader.size (fun got => .ok (some (RequestHeader.decode got)))
    (fun got => if got = [] then .ok none else .error (.endedInHeader got.length)) fun s => by
      unfold RequestHeader.read
      split <;> simp_all [Reading.conclude]

theorem blind_readName : readName.Blind :=
  Reading.blind_bind (Reading.blind_number 2) fun length => Reading.blind_exactly length

theorem blind_readBody (operation : UInt8) : (Request.readBody operation).Blind := by
  unfold Request.readBody
  split
  · exact Reading.blind_bind blind_readName fun _ =>
      Reading.blind_bind (Reading.blind_number 4) fun _ => Reading.blind_pure _
  · exact Reading.blind_bind blind_readName fun _ => Reading.blind_pure _
  · exact Reading.blind_bind blind_readName fun _ => Reading.blind_pure _
  · exact Reading.blind_pure _
  · exact Reading.blind_pure _

/-- How a request is cut into segments does not show when it is read, nor how one that is
malformed or cut off is. -/
theorem blind_read : Request.read.Blind := by
  refine Reading.blind_bind blind_readHeader fun header => ?_
  cases header with
  | none => exact Reading.blind_pure _
  | some header =>
    exact Reading.blind_bind (blind_readBody header.operation) fun _ => Reading.blind_pure _

theorem blind_skipPayload (length : Nat) : (skipPayload length).Blind :=
  Reading.blind_of_fill length (fun _ => .ok ())
    (fun got => .error (.endedInPayload (length - got.length))) fun s => by
      unfold skipPayload
      split <;> simp_all [Reading.conclude]

end UserVault.Protocol
