import UserVault.Proofs.Protocol.Grammar
import UserVault.Proofs.Protocol.Replies

/-!
# The grammar of replies

A stream begins with a reply, or with a header that calls for a status that there is not, or it is
the beginning of one of these and no more (`Reply.Form`).  Reading tells the three apart: it takes
a reply up to its end, an unknown header and nothing behind it, and all of a stream that ends too
early, so that no part of a content passes for a shorter content.
-/

namespace UserVault.Protocol

open Link

/-- What a stream of replies can be. -/
inductive Reply.Form
  /-- It begins with the reply, and `tail` comes after it. -/
  | whole (r : Reply) (tail : Bytes)
  /-- It begins with the header of no reply, and `tail` comes after it. -/
  | unknown (header : ReplyHeader) (tail : Bytes)
  /-- It ends within its first header, or within what the header calls for. -/
  | part

namespace Reply.Form

/-- The stream has the form. -/
def Of (stream : Bytes) : Form → Prop
  | .whole r tail => r.Proper ∧ stream = r.encode ++ tail
  | .unknown header tail =>
      Status.ofCode? header.status = none ∧ stream = header.encode ++ tail
  | .part => stream.length < ReplyHeader.size ∨ Partial stream

/-- What the reading of a reply from a stream of the form comes to, and what it leaves. -/
def ReadAs (reading : Except Fault Reply × Source) : Form → Prop
  | .whole r tail => ∃ rest, reading = (.ok r, rest) ∧ rest.bytes = tail
  | .unknown header tail => ∃ fault rest, reading = (.error fault, rest) ∧
      fault = .unknownStatus header.status ∧ fault.kind = .invalidData ∧ rest.bytes = tail
  | .part => ∃ fault rest, reading = (.error fault, rest) ∧ fault.kind = .unexpectedEof ∧
      rest.bytes = []

end Reply.Form

namespace Reply

/-! ## 1. Every stream has a form -/

theorem exists_replyHeader {bytes : Bytes} (h : ReplyHeader.size ≤ bytes.length) :
    ∃ (header : ReplyHeader) (tail : Bytes), bytes = header.encode ++ tail := by
  match bytes with
  | [] => simp [ReplyHeader.size] at h
  | version :: rest =>
    have htwo : 2 ≤ rest.length := Nat.le_of_succ_le_succ h
    obtain ⟨status, tail, hstatus, rfl⟩ := exists_littleEndian htwo
    have hsame : (UInt16.ofNat status).toNat = status := Nat.mod_eq_of_lt hstatus
    refine ⟨⟨version, UInt16.ofNat status⟩, tail, ?_⟩
    rw [ReplyHeader.encode, hsame, List.cons_append]

/-- Headers have one length, so one that a stream begins with is the only one. -/
theorem replyHeader_eq {header header' : ReplyHeader} {tail tail' : Bytes}
    (h : header.encode ++ tail = header'.encode ++ tail') : header = header' ∧ tail = tail' := by
  obtain ⟨hheader, htail⟩ := List.append_inj h
    (by rw [ReplyHeader.length_encode, ReplyHeader.length_encode])
  rw [← ReplyHeader.decode_encode header, hheader, ReplyHeader.decode_encode]
  exact ⟨rfl, htail⟩

/-- So many bytes hold what follows a header, whatever it calls for. -/
def enoughParts : Nat := 2 + maxNameField + (4 + UInt32.size)

theorem exists_contentField {bytes : Bytes} (h : 4 + UInt32.size ≤ bytes.length) :
    ∃ content tail, content.length < UInt32.size ∧ bytes = contentField content ++ tail := by
  have hfour : 4 ≤ bytes.length := Nat.le_of_add_right_le h
  obtain ⟨n, tail, hn, rfl⟩ := exists_littleEndian hfour
  have hn' : n < UInt32.size := hn
  rw [List.length_append, Bytes.length_littleEndian] at h
  have htake : (tail.take n).length = n := List.length_take_of_le (by omega)
  refine ⟨tail.take n, tail.drop n, by rw [htake]; exact hn', ?_⟩
  rw [contentField, htake, List.append_assoc, List.take_append_drop]

/-- Enough bytes behind a header with a status hold the parts of a reply, whatever they are. -/
theorem exists_parts {header : ReplyHeader} {status : Status}
    (hstatus : Status.ofCode? header.status = some status) {bytes : Bytes}
    (h : enoughParts ≤ bytes.length) :
    ∃ (r : Reply) (tail : Bytes), r.Proper ∧ header.encode ++ bytes = r.encode ++ tail := by
  have hfield : 2 + maxNameField ≤ bytes.length :=
    Nat.le_of_add_right_le h
  obtain ⟨name, rest, hname, hbytes⟩ := exists_nameField hfield
  cases hshape : status.shape with
  | bare =>
    refine ⟨{ header }, bytes, ⟨status, hstatus, ?_⟩, by simp [encode]⟩
    rw [hshape]
    exact ⟨rfl, rfl⟩
  | named =>
    refine ⟨{ header, name := some name }, rest, ⟨status, hstatus, ?_⟩, by simp [encode, hbytes]⟩
    rw [hshape]
    exact ⟨⟨name, rfl, hname⟩, rfl⟩
  | stream =>
    have hlength : bytes.length = 2 + name.length + rest.length := by
      rw [hbytes, List.length_append, nameField, List.length_append, Bytes.length_littleEndian]
    have hparts : enoughParts ≤ 2 + maxNameField + rest.length :=
      Nat.le_trans (hlength ▸ h) (Nat.add_le_add_right (Nat.add_le_add_left hname 2) rest.length)
    have hrest : 4 + UInt32.size ≤ rest.length := Nat.le_of_add_le_add_left hparts
    obtain ⟨content, tail, hcontent, rfl⟩ := exists_contentField hrest
    refine ⟨{ header, name := some name, content := some content }, tail,
      ⟨status, hstatus, ?_⟩, by simp [encode, hbytes]⟩
    rw [hshape]
    exact ⟨⟨name, rfl, hname⟩, content, rfl, hcontent⟩

/-- A stream begins with a reply or with a header of none, or ends within one. -/
theorem Form.exists_of (stream : Bytes) : ∃ form : Form, form.Of stream := by
  by_cases hshort : stream.length < ReplyHeader.size
  · exact ⟨.part, .inl hshort⟩
  obtain ⟨header, rest, rfl⟩ := exists_replyHeader (Nat.le_of_not_lt hshort)
  cases hstatus : Status.ofCode? header.status with
  | none => exact ⟨.unknown header rest, hstatus, rfl⟩
  | some status =>
    -- with enough zeros behind it, the stream begins with a reply
    have henough : enoughParts ≤ (rest ++ List.replicate enoughParts 0).length := by
      rw [List.length_append, List.length_replicate]
      exact Nat.le_add_left _ _
    obtain ⟨r, tail, hr, hpadded⟩ := exists_parts hstatus henough
    rw [← List.append_assoc] at hpadded
    rcases List.append_eq_append_iff.mp hpadded with ⟨missing, hlonger, -⟩ | ⟨tail, hstream, -⟩
    · by_cases hnone : missing = []
      · refine ⟨.whole r [], hr, ?_⟩
        rw [hlonger, hnone, List.append_nil, List.append_nil]
      · exact ⟨.part, .inr ⟨r, missing, hr, hnone, hlonger.symm⟩⟩
    · exact ⟨.whole r tail, hr, hstream⟩

/-! ## 2. Reading by the form -/

theorem drains_readParts (header : ReplyHeader) (shape : Shape) :
    (readParts header shape).Drains := by
  cases shape with
  | bare => exact Reading.drains_pure _
  | named => exact Reading.drains_bind drains_readName fun _ => Reading.drains_pure _
  | stream =>
    exact Reading.drains_bind drains_readName fun _ =>
      Reading.drains_bind (Reading.drains_number 4) fun length =>
        Reading.drains_bind (Reading.drains_exactly length) fun _ => Reading.drains_pure _

/-- What comes of a reading once its header has been read. -/
theorem read_of_header {s : Source} {header : ReplyHeader} {tail : Bytes}
    (h : s.front = header.encode ++ tail) :
    ∃ mid, mid.front = tail ∧ mid.barrier = s.barrier ∧
      Reply.read s = match Status.ofCode? header.status with
        | none => (.error (.unknownStatus header.status), mid)
        | some status => readParts header status.shape mid := by
  obtain ⟨mid, hexactly, hfront, hbarrier⟩ := Reading.reads_exactly header.encode s tail h
  rw [ReplyHeader.length_encode] at hexactly
  refine ⟨mid, hfront, hbarrier, ?_⟩
  simp only [Reply.read, bind, hexactly, ReplyHeader.decode_encode]
  cases Status.ofCode? header.status <;> rfl

theorem read_of_short {s : Source} (hend : s.barrier = none)
    (h : s.front.length < ReplyHeader.size) : Reply.read s = (.error .endedInBytes, {}) := by
  have hexactly : Source.exactly ReplyHeader.size s = (.error .endedInBytes, {}) := by
    simp only [Source.exactly, Source.fill_of_ended h hend]
  simp only [Reply.read, bind, hexactly]

/-- A stream that ends within a reply whose header it has is taken whole. -/
theorem read_of_partial {s : Source} (hend : s.barrier = none)
    (hheader : ReplyHeader.size ≤ s.front.length) (h : Partial s.front) :
    ∃ fault rest, Reply.read s = (.error fault, rest) ∧ fault.kind = .unexpectedEof ∧
      rest.bytes = [] := by
  obtain ⟨r, missing, hr, hne, hcut⟩ := h
  obtain ⟨fault, rest, hread⟩ := starves_read hr s missing hcut hne
  -- the header that is read is that of the reply, so what comes after it fails for want of bytes
  obtain ⟨header, tail, hfront⟩ := exists_replyHeader hheader
  obtain ⟨mid, -, hbarrier, hparts⟩ := read_of_header hfront
  rw [hfront, encode, List.append_assoc, List.append_assoc] at hcut
  obtain ⟨status, hstatus, -⟩ := hr
  rw [(replyHeader_eq hcut).1, hstatus, hread] at hparts
  have hfail : readParts r.header status.shape mid = (.error fault, rest) := hparts.symm
  obtain ⟨-, hdrains⟩ := drains_readParts r.header status.shape mid (hbarrier.trans hend)
  rw [hfail] at hdrains
  obtain ⟨hkind, hrest⟩ := hdrains fault rfl
  exact ⟨fault, rest, hread, hkind, hrest⟩

/-- A stream of a form is read as such. -/
theorem Form.Of.readAs {form : Form} {s : Source} (hend : s.barrier = none)
    (h : form.Of s.front) : form.ReadAs (Reply.read s) := by
  cases form with
  | whole r tail =>
    obtain ⟨hr, hfront⟩ := h
    obtain ⟨rest, hread, hrest, hbarrier⟩ := reads_read hr s tail hfront
    exact ⟨rest, hread, (Source.bytes_of_ended (hbarrier.trans hend)).trans hrest⟩
  | unknown header tail =>
    obtain ⟨hstatus, hfront⟩ := h
    obtain ⟨mid, hmid, hbarrier, hread⟩ := read_of_header hfront
    rw [hstatus] at hread
    exact ⟨_, mid, hread, rfl, rfl, (Source.bytes_of_ended (hbarrier.trans hend)).trans hmid⟩
  | part =>
    by_cases hshort : s.front.length < ReplyHeader.size
    · exact ⟨_, {}, read_of_short hend hshort, rfl, rfl⟩
    · exact read_of_partial hend (Nat.le_of_not_lt hshort) (h.resolve_left hshort)

/-- A stream has one form: its forms are read from it in the same way. -/
theorem Form.Of.unique {form other : Form} {stream : Bytes} (h : form.Of stream)
    (h' : other.Of stream) : form = other := by
  have hread : form.ReadAs (Reply.read (.ofBytes stream)) :=
    readAs rfl (by rwa [Source.front_ofBytes])
  have hread' : other.ReadAs (Reply.read (.ofBytes stream)) :=
    readAs rfl (by rwa [Source.front_ofBytes])
  cases form with
  | whole r tail =>
    obtain ⟨rest, hok, htail⟩ := hread
    cases other with
    | whole r' tail' =>
      obtain ⟨rest', hok', htail'⟩ := hread'
      cases hok.symm.trans hok'
      rw [← htail, htail']
    | unknown header tail' =>
      obtain ⟨fault, rest', hfault, -⟩ := hread'
      cases hok.symm.trans hfault
    | part =>
      obtain ⟨fault, rest', hfault, -⟩ := hread'
      cases hok.symm.trans hfault
  | unknown header tail =>
    obtain ⟨fault, rest, hfault, -, hkind, -⟩ := hread
    cases other with
    | whole r tail' =>
      obtain ⟨rest', hok, -⟩ := hread'
      cases hfault.symm.trans hok
    | unknown header' tail' =>
      obtain ⟨rfl, rfl⟩ := replyHeader_eq (h.2.symm.trans h'.2)
      rfl
    | part =>
      obtain ⟨fault', rest', hfault', hkind', -⟩ := hread'
      cases hfault.symm.trans hfault'
      cases hkind.symm.trans hkind'
  | part =>
    obtain ⟨fault, rest, hfault, hkind, -⟩ := hread
    cases other with
    | whole r tail =>
      obtain ⟨rest', hok, -⟩ := hread'
      cases hfault.symm.trans hok
    | unknown header tail =>
      obtain ⟨fault', rest', hfault', -, hkind', -⟩ := hread'
      cases hfault.symm.trans hfault'
      cases hkind.symm.trans hkind'
    | part => rfl

/-- What was read as a reply is proper, and stood so in the stream. -/
theorem encode_of_read {s rest : Source} {r : Reply} (hend : s.barrier = none)
    (h : Reply.read s = (.ok r, rest)) : r.Proper ∧ s.front = r.encode ++ rest.bytes := by
  obtain ⟨form, hform⟩ := Form.exists_of s.front
  have hread := hform.readAs hend
  cases form with
  | whole r' tail =>
    obtain ⟨rest', hok, htail⟩ := hread
    cases h.symm.trans hok
    rw [htail]
    exact hform
  | unknown header tail =>
    obtain ⟨fault, rest', hfault, -⟩ := hread
    cases h.symm.trans hfault
  | part =>
    obtain ⟨fault, rest', hfault, -⟩ := hread
    cases h.symm.trans hfault

/-- **Reading accepts the grammar of replies and nothing else.**  However a stream is cut into
segments, it has just one form, and is read as that form is; and what was read as a reply is put as
it stood in the stream. -/
theorem read_reply_by_grammar (pieces : List Bytes) :
    (∃ form : Form, form.Of pieces.flatten ∧
      (∀ other : Form, other.Of pieces.flatten → other = form) ∧
      form.ReadAs (Reply.read (.ofArrivals (pieces.map .segment)))) ∧
    ∀ r rest, Reply.read (.ofArrivals (pieces.map .segment)) = (.ok r, rest) →
      r.Proper ∧ pieces.flatten = r.encode ++ rest.bytes := by
  have hend := Source.barrier_ofArrivals_segments pieces
  constructor
  · obtain ⟨form, hform⟩ := Form.exists_of pieces.flatten
    refine ⟨form, hform, fun other hother => hother.unique hform, ?_⟩
    apply Form.Of.readAs hend
    rwa [Source.front_ofArrivals_segments]
  · intro r rest h
    rw [← Source.front_ofArrivals_segments pieces]
    exact encode_of_read hend h

/-- The content of a restored file that ends after one of three bytes, and a status that there is
not with a byte behind it. -/
theorem read_reply_by_grammar_cut :
    let restored : List Bytes := [[1, 210], [0, 1, 0, 104, 3, 0, 0, 0, 120]]
    let unknown : List Bytes := [[1], [1, 1, 9]]
    (∃ fault rest, Reply.read (.ofArrivals (restored.map .segment)) = (.error fault, rest) ∧
      fault.kind = .unexpectedEof ∧ rest.bytes = []) ∧
    ∃ fault rest, Reply.read (.ofArrivals (unknown.map .segment)) = (.error fault, rest) ∧
      fault = .unknownStatus 257 ∧ fault.kind = .invalidData ∧ rest.bytes = [9] := by
  constructor
  · obtain ⟨form, -, hunique, hread⟩ :=
      (read_reply_by_grammar [[1, 210], [0, 1, 0, 104, 3, 0, 0, 0, 120]]).1
    have hproper : (streamed .restored [104] [120, 121, 122]).Proper :=
      proper_streamed rfl (by decide) (by decide)
    have hpart : Partial [1, 210, 0, 1, 0, 104, 3, 0, 0, 0, 120] :=
      ⟨_, [121, 122], hproper, by decide, rfl⟩
    rw [← hunique .part (.inr hpart)] at hread
    exact hread
  · obtain ⟨form, -, hunique, hread⟩ := (read_reply_by_grammar [[1], [1, 1, 9]]).1
    rw [← hunique (.unknown ⟨1, 257⟩ [9]) ⟨rfl, rfl⟩] at hread
    exact hread

end Reply

end UserVault.Protocol
