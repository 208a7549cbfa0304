import UserVault.Proofs.Protocol.Message
import UserVault.Proofs.Link.Taking

/-!
# The grammar of requests

A stream is empty, or it begins with the frame of a request, or it is the beginning of such a frame
and no more (`Form`).  There is no fourth: whatever the first byte is, some frame begins with it and
goes on as the stream does.  Reading tells the three apart (`Form.ReadAs`), so no frame is the
beginning of another one.
-/

namespace UserVault.Protocol

open Link

/-- What the request calls unknown is not the code of any operation. -/
def Request.Regular (request : Request) : Prop :=
  ∀ code, request = .unknown code → Operation.ofCode? code = none

/-- `frame` is what is put for the request under this header. -/
structure IsFrame (header : RequestHeader) (request : Request) (frame : Bytes) : Prop where
  regular : request.Regular
  operation : request.operation = header.operation
  build : (request.put header.user header.version).build = (.ok (), frame)

/-- What a stream of requests can be. -/
inductive Form
  | empty
  /-- It begins with the frame of a request, and `tail` comes after it. -/
  | whole (header : RequestHeader) (request : Request) (frame tail : Bytes)
  /-- It ends within its first frame. -/
  | part

namespace Form

/-- The stream has the form. -/
def Of (stream : Bytes) : Form → Prop
  | .empty => stream = []
  | .whole header request frame tail => IsFrame header request frame ∧ stream = frame ++ tail
  | .part => stream ≠ [] ∧ ∃ header request frame missing,
      IsFrame header request frame ∧ missing ≠ [] ∧ stream ++ missing = frame

/-- What the reading of a request from a stream of the form comes to, and what it leaves. -/
def ReadAs (reading : Except Fault (Option (RequestHeader × Request)) × Source) : Form → Prop
  | .empty => ∃ rest, reading = (.ok none, rest) ∧ rest.bytes = []
  | .whole header request _ tail =>
      ∃ rest, reading = (.ok (some (header, request)), rest) ∧ rest.bytes = tail
  | .part => ∃ fault rest, reading = (.error fault, rest) ∧ fault.kind = .unexpectedEof ∧
      rest.bytes = []

end Form

/-! ## 1. Frames and messages -/

/-- A request whose name is too long for its field is refused once its header has been put. -/
theorem build_of_lt {request : Request} (user : UInt32) (version : UInt8)
    (h : maxNameField < request.name.length) :
    (request.put user version).build =
      (.error (.fieldTooLong "name" request.name.length),
        RequestHeader.encode ⟨user, version, request.operation⟩) := by
  have hname : putName request.name = throw (.fieldTooLong "name" request.name.length) := by
    rw [putName, if_pos h]
    rfl
  cases request with
  | backup name length =>
    simp only [Request.name] at hname
    simp only [Request.put, hname]
    rfl
  | restore name =>
    simp only [Request.name] at hname
    simp only [Request.put, hname]
    rfl
  | delete name =>
    simp only [Request.name] at hname
    simp only [Request.put, hname]
    rfl
  | list => exact absurd h (Nat.not_lt_zero _)
  | unknown code => exact absurd h (Nat.not_lt_zero _)

/-- The name of a request that has a frame fits its field. -/
theorem IsFrame.name_le {header : RequestHeader} {request : Request} {frame : Bytes}
    (h : IsFrame header request frame) : request.name.length ≤ maxNameField := by
  apply Nat.le_of_not_lt
  intro hlong
  have hbuild := h.build
  rw [build_of_lt header.user header.version hlong] at hbuild
  cases hbuild

/-- A frame is that of a message. -/
theorem IsFrame.exists_message {header : RequestHeader} {request : Request} {frame : Bytes}
    (h : IsFrame header request frame) :
    ∃ m : Message, m.header = header ∧ m.request = request ∧ m.frame = frame := by
  obtain ⟨user, version, operation⟩ := header
  let m : Message :=
    { user, version, request
      payload := List.replicate request.payloadLength 0
      name_le := h.name_le
      payload_length := List.length_replicate
      operation_unknown := h.regular }
  have hframe : (Except.ok (), m.frame) = (Except.ok (), frame) := m.build_put.symm.trans h.build
  refine ⟨m, ?_, rfl, congrArg Prod.snd hframe⟩
  show RequestHeader.mk user version request.operation = ⟨user, version, operation⟩
  rw [h.operation]

/-! ## 2. Every stream has a form -/

theorem exists_littleEndian {width : Nat} {bytes : Bytes} (h : width ≤ bytes.length) :
    ∃ n tail, n < Nat.pow 256 width ∧ bytes = Bytes.littleEndian width n ++ tail := by
  have hwidth : (bytes.take width).length = width := List.length_take_of_le h
  refine ⟨Bytes.ofLittleEndian (bytes.take width), bytes.drop width, ?_, ?_⟩
  · have hlt := Bytes.ofLittleEndian_lt (bytes.take width)
    rwa [hwidth] at hlt
  · have hsame := Bytes.littleEndian_ofLittleEndian (bytes.take width)
    rw [hwidth] at hsame
    rw [hsame, List.take_append_drop]

theorem exists_nameField {bytes : Bytes} (h : 2 + maxNameField ≤ bytes.length) :
    ∃ name tail, name.length ≤ maxNameField ∧ bytes = nameField name ++ tail := by
  have hmax : Nat.pow 256 2 = maxNameField + 1 := rfl
  obtain ⟨n, tail, hn, rfl⟩ := exists_littleEndian (Nat.le_trans (Nat.le_add_right 2 _) h)
  rw [List.length_append, Bytes.length_littleEndian] at h
  have htake : (tail.take n).length = n := List.length_take_of_le (by omega)
  refine ⟨tail.take n, tail.drop n, by omega, ?_⟩
  rw [nameField, htake, List.append_assoc, List.take_append_drop]

theorem exists_header {bytes : Bytes} (h : RequestHeader.size ≤ bytes.length) :
    ∃ (header : RequestHeader) (tail : Bytes), bytes = header.encode ++ tail := by
  have hfour : 4 ≤ bytes.length := Nat.le_trans (by decide) h
  obtain ⟨user, rest, huser, rfl⟩ := exists_littleEndian hfour
  rw [List.length_append, Bytes.length_littleEndian] at h
  match rest with
  | version :: operation :: tail =>
    refine ⟨⟨UInt32.ofNat user, version, operation⟩, tail, ?_⟩
    have hsame : (UInt32.ofNat user).toNat = user := Nat.mod_eq_of_lt huser
    rw [RequestHeader.encode, hsame, List.append_assoc]
    rfl
  | [] => simp [RequestHeader.size] at h
  | [_] => simp [RequestHeader.size] at h

/-- So many bytes hold what follows a header, whatever it is. -/
def enoughFields : Nat := 2 + maxNameField + 4

theorem exists_fields (operation : UInt8) {bytes : Bytes} (h : enoughFields ≤ bytes.length) :
    ∃ (request : Request) (tail : Bytes), request.Regular ∧ request.operation = operation ∧
      request.name.length ≤ maxNameField ∧ bytes = request.fields ++ tail := by
  have hcode {named : Operation} (hnamed : Operation.ofCode? operation = some named) :
      named.code = operation := by
    simpa using List.find?_some hnamed
  obtain ⟨name, tail, hname, hbytes⟩ := exists_nameField (Nat.le_trans (Nat.le_add_right _ 4) h)
  cases hoperation : Operation.ofCode? operation with
  | none =>
    refine ⟨.unknown operation, bytes, fun code hunknown => ?_, rfl, Nat.zero_le _, rfl⟩
    cases hunknown
    exact hoperation
  | some named =>
    cases named with
    | backup =>
      have hlength : 4 ≤ tail.length := by
        rw [hbytes, List.length_append, nameField, List.length_append, Bytes.length_littleEndian,
          enoughFields] at h
        omega
      obtain ⟨n, tail', hn, rfl⟩ := exists_littleEndian hlength
      have hsame : (UInt32.ofNat n).toNat = n := Nat.mod_eq_of_lt hn
      refine ⟨.backup name (UInt32.ofNat n), tail', (fun _ hunknown => by cases hunknown),
        hcode hoperation, hname, ?_⟩
      rw [hbytes, Request.fields, hsame, List.append_assoc]
    | restore =>
      exact ⟨.restore name, tail, (fun _ hunknown => by cases hunknown), hcode hoperation, hname,
        hbytes⟩
    | delete =>
      exact ⟨.delete name, tail, (fun _ hunknown => by cases hunknown), hcode hoperation, hname,
        hbytes⟩
    | list =>
      exact ⟨.list, bytes, (fun _ hunknown => by cases hunknown), hcode hoperation, Nat.zero_le _,
        rfl⟩

/-- Enough bytes begin with a frame, whatever they are. -/
theorem exists_frame {bytes : Bytes} (h : RequestHeader.size + enoughFields ≤ bytes.length) :
    ∃ header request frame tail, IsFrame header request frame ∧ bytes = frame ++ tail := by
  obtain ⟨header, rest, rfl⟩ := exists_header (Nat.le_trans (Nat.le_add_right _ _) h)
  rw [List.length_append, RequestHeader.length_encode] at h
  have hrest : enoughFields ≤ rest.length := by omega
  obtain ⟨request, tail, hregular, hoperation, hname, rfl⟩ := exists_fields header.operation hrest
  have hbuild := (puts_request header.user header.version hname).build
  refine ⟨header, request, _, tail, ⟨hregular, hoperation, hbuild⟩, ?_⟩
  rw [hoperation, List.append_assoc]

/-- A stream is empty, begins with a frame or ends within one. -/
theorem Form.exists_of (stream : Bytes) : ∃ form : Form, form.Of stream := by
  by_cases hempty : stream = []
  · exact ⟨.empty, hempty⟩
  -- with enough zeros behind it, the stream begins with a frame
  · have henough : RequestHeader.size + enoughFields ≤
        (stream ++ List.replicate (RequestHeader.size + enoughFields) 0).length := by
      rw [List.length_append, List.length_replicate]
      omega
    obtain ⟨header, request, frame, tail, hframe, hpadded⟩ := exists_frame henough
    rcases List.append_eq_append_iff.mp hpadded with ⟨short, hlonger, -⟩ | ⟨rest, hstream, -⟩
    · by_cases hshort : short = []
      · refine ⟨.whole header request frame [], hframe, ?_⟩
        rw [hlonger, hshort, List.append_nil, List.append_nil]
      · exact ⟨.part, hempty, header, request, frame, short, hframe, hshort, hlonger.symm⟩
    · exact ⟨.whole header request frame rest, hframe, hstream⟩

/-! ## 3. Reading fails for want of bytes only -/

theorem drains_readName : readName.Drains :=
  Reading.drains_bind (Reading.drains_number 2) Reading.drains_exactly

theorem drains_readHeader : RequestHeader.read.Drains := by
  apply Reading.drains_of_fill RequestHeader.size
  · intro s got rest h
    exact ⟨some (RequestHeader.decode got), by simp only [RequestHeader.read, h]⟩
  · intro s got rest h
    cases got with
    | nil => exact .inl ⟨none, by simp only [RequestHeader.read, h]⟩
    | cons b bs =>
      exact .inr ⟨.endedInHeader (b :: bs).length, by simp only [RequestHeader.read, h], rfl⟩

theorem drains_readBody (operation : UInt8) : (Request.readBody operation).Drains := by
  unfold Request.readBody
  split
  · exact Reading.drains_bind drains_readName fun _ =>
      Reading.drains_bind (Reading.drains_number 4) fun _ => Reading.drains_pure _
  · exact Reading.drains_bind drains_readName fun _ => Reading.drains_pure _
  · exact Reading.drains_bind drains_readName fun _ => Reading.drains_pure _
  · exact Reading.drains_pure _
  · exact Reading.drains_pure _

theorem drains_read : Request.read.Drains := by
  apply Reading.drains_bind drains_readHeader
  intro header
  cases header with
  | none => exact Reading.drains_pure _
  | some header =>
    exact Reading.drains_bind (drains_readBody header.operation) fun _ => Reading.drains_pure _

/-! ## 4. Reading by the form -/

/-- A stream of a form is read as such. -/
theorem Form.Of.readAs {form : Form} {s : Source} (hend : s.barrier = none)
    (h : form.Of s.front) : form.ReadAs (Request.read s) := by
  cases form with
  | empty =>
    have hfront : s.front = [] := h
    have hfill : s.fill RequestHeader.size = ⟨[], .ended, {}⟩ := by
      rw [Source.fill_of_ended (by rw [hfront]; decide) hend, hfront]
    have hread : Request.read s = (.ok none, {}) := by
      simp only [Request.read, bind, RequestHeader.read, hfill]
      rfl
    exact ⟨{}, hread, rfl⟩
  | whole header request frame tail =>
    obtain ⟨hframe, hfront⟩ := h
    obtain ⟨m, rfl, rfl, rfl⟩ := hframe.exists_message
    obtain ⟨rest, hread, hrest, hbarrier⟩ := reads_message m s tail hfront
    exact ⟨rest, hread, (Source.bytes_of_ended (hbarrier.trans hend)).trans hrest⟩
  | part =>
    obtain ⟨hne, header, request, frame, missing, hframe, hmissing, hcut⟩ := h
    obtain ⟨m, rfl, rfl, rfl⟩ := hframe.exists_message
    obtain ⟨fault, rest, hread⟩ := read_frame_cut hcut hmissing hne
    obtain ⟨hkind, hnone⟩ := (drains_read s hend).2 fault (by rw [hread])
    rw [hread] at hnone
    exact ⟨fault, rest, hread, hkind, hnone⟩

/-- A stream has one form: its forms are read from it in the same way. -/
theorem Form.Of.unique {form other : Form} {stream : Bytes} (h : form.Of stream)
    (h' : other.Of stream) : form = other := by
  have hread : form.ReadAs (Request.read (.ofBytes stream)) :=
    readAs rfl (by rwa [Source.front_ofBytes])
  have hread' : other.ReadAs (Request.read (.ofBytes stream)) :=
    readAs rfl (by rwa [Source.front_ofBytes])
  cases form with
  | empty =>
    obtain ⟨rest, hnone, -⟩ := hread
    cases other with
    | empty => rfl
    | whole header request frame tail =>
      obtain ⟨rest', hsome, -⟩ := hread'
      cases hnone.symm.trans hsome
    | part =>
      obtain ⟨fault, rest', hfault, -⟩ := hread'
      cases hnone.symm.trans hfault
  | whole header request frame tail =>
    obtain ⟨rest, hsome, htail⟩ := hread
    cases other with
    | empty =>
      obtain ⟨rest', hnone, -⟩ := hread'
      cases hsome.symm.trans hnone
    | whole header' request' frame' tail' =>
      -- what comes behind the frames is the same, so the frames are
      obtain ⟨rest', hsome', htail'⟩ := hread'
      cases hsome.symm.trans hsome'
      obtain rfl : tail = tail' := htail.symm.trans htail'
      obtain rfl : frame = frame' := List.append_cancel_right (h.2.symm.trans h'.2)
      rfl
    | part =>
      obtain ⟨fault, rest', hfault, -⟩ := hread'
      cases hsome.symm.trans hfault
  | part =>
    obtain ⟨fault, rest, hfault, -⟩ := hread
    cases other with
    | empty =>
      obtain ⟨rest', hnone, -⟩ := hread'
      cases hfault.symm.trans hnone
    | whole header request frame tail =>
      obtain ⟨rest', hsome, -⟩ := hread'
      cases hfault.symm.trans hsome
    | part => rfl

/-- No frame is the beginning of another one. -/
theorem IsFrame.prefix_free {header header' : RequestHeader} {request request' : Request}
    {frame frame' : Bytes} (h : IsFrame header request frame)
    (h' : IsFrame header' request' frame') (hle : frame <+: frame') :
    header = header' ∧ request = request' ∧ frame = frame' := by
  obtain ⟨tail, htail⟩ := hle
  have hform : (Form.whole header request frame tail).Of frame' := ⟨h, htail.symm⟩
  have hform' : (Form.whole header' request' frame' []).Of frame' :=
    ⟨h', (List.append_nil frame').symm⟩
  cases hform.unique hform'
  exact ⟨rfl, rfl, rfl⟩

/-- What was read as a request was the frame of that request. -/
theorem frame_of_read {s rest : Source} {header : RequestHeader} {request : Request}
    (hend : s.barrier = none) (h : Request.read s = (.ok (some (header, request)), rest)) :
    ∃ frame, IsFrame header request frame ∧ s.front = frame ++ rest.bytes := by
  obtain ⟨form, hform⟩ := Form.exists_of s.front
  have hread := hform.readAs hend
  cases form with
  | empty =>
    obtain ⟨rest', hnone, -⟩ := hread
    cases h.symm.trans hnone
  | whole header' request' frame tail =>
    obtain ⟨rest', hsome, htail⟩ := hread
    cases h.symm.trans hsome
    rw [htail]
    exact ⟨frame, hform⟩
  | part =>
    obtain ⟨fault, rest', hfault, -⟩ := hread
    cases h.symm.trans hfault

/-- **Reading accepts the grammar of requests and nothing else.**  However a stream is cut into
segments, it has just one form, and is read as that form is: as nothing, as the request whose frame
it begins with, up to the end of that frame, or as a stream that ended too early and has been taken
whole.  No frame is the beginning of another one, and what was read is put as it stood in the
stream. -/
theorem read_by_grammar :
    (∀ pieces : List Bytes, ∃ form : Form, form.Of pieces.flatten ∧
      (∀ other : Form, other.Of pieces.flatten → other = form) ∧
      form.ReadAs (Request.read (.ofArrivals (pieces.map .segment)))) ∧
    (∀ header request frame header' request' frame', IsFrame header request frame →
      IsFrame header' request' frame' → frame <+: frame' →
      header = header' ∧ request = request' ∧ frame = frame') ∧
    ∀ (pieces : List Bytes) header request rest,
      Request.read (.ofArrivals (pieces.map .segment)) = (.ok (some (header, request)), rest) →
      ∃ frame, IsFrame header request frame ∧ pieces.flatten = frame ++ rest.bytes := by
  refine ⟨fun pieces => ?_, fun _ _ _ _ _ _ h h' => h.prefix_free h', ?_⟩
  · obtain ⟨form, hform⟩ := Form.exists_of pieces.flatten
    refine ⟨form, hform, fun other hother => hother.unique hform, ?_⟩
    apply Form.Of.readAs (Source.barrier_ofArrivals_segments pieces)
    rwa [Source.front_ofArrivals_segments]
  · intro pieces header request rest h
    rw [← Source.front_ofArrivals_segments pieces]
    exact frame_of_read (Source.barrier_ofArrivals_segments pieces) h

/-- A removal in three pieces, one of them empty, with the first byte of the next request behind
it; and a backup that ends within its payload length. -/
theorem read_by_grammar_pieces :
    let removal : List Bytes := [[7, 0, 0, 0, 1, 201, 2], [], [0, 104], [105, 8]]
    let backup : List Bytes := [[7, 0, 0], [0, 1, 100, 1, 0, 104, 5, 0]]
    (∃ rest, Request.read (.ofArrivals (removal.map .segment)) =
        (.ok (some (⟨7, 1, 201⟩, .delete [104, 105])), rest) ∧ rest.bytes = [8] ∧
      ∃ frame, IsFrame ⟨7, 1, 201⟩ (.delete [104, 105]) frame ∧
        removal.flatten = frame ++ rest.bytes) ∧
    (∃ fault rest, Request.read (.ofArrivals (backup.map .segment)) = (.error fault, rest) ∧
      fault.kind = .unexpectedEof ∧ rest.bytes = []) ∧
    ¬([7, 0, 0, 0, 1, 202] : Bytes) <+: [7, 0, 0, 0, 1, 201, 2, 0, 104, 105] := by
  obtain ⟨hform, hfree, hput⟩ := read_by_grammar
  have hremoval : IsFrame ⟨7, 1, 201⟩ (.delete [104, 105])
      [7, 0, 0, 0, 1, 201, 2, 0, 104, 105] := ⟨nofun, rfl, rfl⟩
  have hlisting : IsFrame ⟨7, 1, 202⟩ .list [7, 0, 0, 0, 1, 202] := ⟨nofun, rfl, rfl⟩
  have hbackup : IsFrame ⟨7, 1, 100⟩ (.backup [104] 5)
      [7, 0, 0, 0, 1, 100, 1, 0, 104, 5, 0, 0, 0] := ⟨nofun, rfl, rfl⟩
  refine ⟨?_, ?_, ?_⟩
  · obtain ⟨form, -, hunique, hread⟩ :=
      hform [[7, 0, 0, 0, 1, 201, 2], [], [0, 104], [105, 8]]
    rw [← hunique (.whole _ _ _ [8]) ⟨hremoval, rfl⟩] at hread
    obtain ⟨rest, hresult, hrest⟩ := hread
    exact ⟨rest, hresult, hrest, hput _ _ _ _ hresult⟩
  · obtain ⟨form, -, hunique, hread⟩ := hform [[7, 0, 0], [0, 1, 100, 1, 0, 104, 5, 0]]
    rw [← hunique .part ⟨by decide, _, _, _, [0, 0], hbackup, by decide, rfl⟩] at hread
    exact hread
  · intro hprefix
    cases (hfree _ _ _ _ _ _ hlisting hremoval hprefix).1

end UserVault.Protocol
