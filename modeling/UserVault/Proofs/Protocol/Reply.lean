import UserVault.Proofs.Link.Willing
import UserVault.Proofs.Protocol.Copying

/-!
# Replies on the wire

`Reply.encode` gives the bytes of a reply.  The frames that the service builds are such bytes, a
willing sink gets them whole, and the reader of replies takes exactly these bytes off its source
and gives the reply back.
-/

namespace UserVault.Protocol

open Link

/-! ## 1. Frames under construction -/

/-- The construction puts just `bytes` and does not fail. -/
def Building.Puts (frame : Building Unit) (bytes : Bytes) : Prop :=
  ∀ before : Bytes, StateT.run (ExceptT.run frame) before = (.ok (), before ++ bytes)

theorem puts_put (bytes : Bytes) : (put bytes).Puts bytes := fun _ => rfl

theorem Building.Puts.bind {frame frame' : Building Unit} {bs cs : Bytes} (h : frame.Puts bs)
    (h' : frame'.Puts cs) : Building.Puts (frame >>= fun _ => frame') (bs ++ cs) := by
  intro before
  have hrun := h before
  have hrun' := h' (before ++ bs)
  simp only [ExceptT.run_bind, StateT.run_bind, hrun]
  rw [← List.append_assoc]
  exact hrun'

theorem Building.Puts.build {frame : Building Unit} {bytes : Bytes} (h : frame.Puts bytes) :
    frame.build = (.ok (), bytes) := by
  simpa [Building.build] using h []

/-- A name field as it stands on the wire. -/
def nameField (name : Bytes) : Bytes := Bytes.littleEndian 2 name.length ++ name

theorem puts_putName {name : Bytes} (h : name.length ≤ maxNameField) :
    (putName name).Puts (nameField name) := by
  have hlt : ¬maxNameField < name.length := by omega
  have hputs : Building.Puts (put (Bytes.littleEndian 2 name.length) >>= fun _ => put name)
      (nameField name) := (puts_put _).bind (puts_put _)
  intro before
  simpa [putName, hlt] using hputs before

theorem reads_littleEndian {width n : Nat} (h : n < Nat.pow 256 width) :
    (Source.number width).Reads (Bytes.littleEndian width n) n := by
  have hreads := Reading.reads_number (Bytes.littleEndian width n)
  rwa [Bytes.length_littleEndian, Bytes.ofLittleEndian_littleEndian, Nat.mod_eq_of_lt h] at hreads

theorem starves_littleEndian (width n : Nat) :
    (Source.number width).Starves (Bytes.littleEndian width n) := by
  have hstarves := Reading.starves_number (Bytes.littleEndian width n)
  rwa [Bytes.length_littleEndian] at hstarves

theorem reads_readName {name : Bytes} (h : name.length ≤ maxNameField) :
    readName.Reads (nameField name) name :=
  Reading.reads_bind (reads_littleEndian (Nat.lt_of_le_of_lt h (by decide)))
    (Reading.reads_exactly name)

theorem starves_readName {name : Bytes} (h : name.length ≤ maxNameField) :
    readName.Starves (nameField name) :=
  Reading.starves_bind (reads_littleEndian (Nat.lt_of_le_of_lt h (by decide)))
    (starves_littleEndian _ _) (Reading.starves_exactly name)

/-! ## 2. The bytes of a reply -/

/-- A content field as it stands on the wire. -/
def contentField (content : Bytes) : Bytes := Bytes.littleEndian 4 content.length ++ content

namespace Reply

/-- A reply as it stands on the wire. -/
def encode (r : Reply) : Bytes :=
  r.header.encode ++ (r.name.map nameField).getD [] ++ (r.content.map contentField).getD []

/-- A reply of the service that is its status alone. -/
def bare (status : Status) : Reply := { header := .ofStatus status }

/-- A reply of the service with a name. -/
def named (status : Status) (name : Bytes) : Reply :=
  { header := .ofStatus status, name := some name }

/-- A reply of the service with a name and content. -/
def streamed (status : Status) (name content : Bytes) : Reply :=
  { header := .ofStatus status, name := some name, content := some content }

/-- The reply has the parts that its status calls for, none of them too long for its field. -/
def Proper (r : Reply) : Prop :=
  ∃ status, Status.ofCode? r.header.status = some status ∧
    match status.shape with
    | .bare => r.name = none ∧ r.content = none
    | .named => (∃ name, r.name = some name ∧ name.length ≤ maxNameField) ∧ r.content = none
    | .stream =>
      (∃ name, r.name = some name ∧ name.length ≤ maxNameField) ∧
        ∃ content, r.content = some content ∧ content.length < UInt32.size

end Reply

@[simp] theorem ofCode?_code (status : Status) : Status.ofCode? status.code = some status := by
  cases status <;> rfl

theorem Reply.proper_bare {status : Status} (h : status.shape = .bare) :
    (Reply.bare status).Proper := by
  refine ⟨status, ofCode?_code status, ?_⟩
  rw [h]
  exact ⟨rfl, rfl⟩

theorem Reply.proper_named {status : Status} (h : status.shape = .named) {name : Bytes}
    (hname : name.length ≤ maxNameField) : (Reply.named status name).Proper := by
  refine ⟨status, ofCode?_code status, ?_⟩
  rw [h]
  exact ⟨⟨name, rfl, hname⟩, rfl⟩

theorem Reply.proper_streamed {status : Status} (h : status.shape = .stream) {name content : Bytes}
    (hname : name.length ≤ maxNameField) (hcontent : content.length < UInt32.size) :
    (Reply.streamed status name content).Proper := by
  refine ⟨status, ofCode?_code status, ?_⟩
  rw [h]
  exact ⟨⟨name, rfl, hname⟩, content, rfl, hcontent⟩

theorem ReplyHeader.length_encode (header : ReplyHeader) :
    header.encode.length = ReplyHeader.size := by
  simp [ReplyHeader.encode, ReplyHeader.size]

@[simp] theorem ReplyHeader.decode_encode (header : ReplyHeader) :
    ReplyHeader.decode header.encode = header := by
  have hcode : (Bytes.littleEndian 2 header.status.toNat).take 2 =
      Bytes.littleEndian 2 header.status.toNat :=
    List.take_of_length_le (by simp)
  have hlt : header.status.toNat < Nat.pow 256 2 := header.status.toNat_lt
  simp only [ReplyHeader.encode, ReplyHeader.decode, List.drop_succ_cons, List.drop_zero, hcode,
    Bytes.ofLittleEndian_littleEndian, Nat.mod_eq_of_lt hlt]
  simp

/-- The reader of replies takes a reply off the wire, and nothing that comes after it. -/
theorem Reply.reads_read {r : Reply} (h : r.Proper) : Reply.read.Reads r.encode r := by
  obtain ⟨status, hstatus, hparts⟩ := h
  have hheader : (Source.exactly ReplyHeader.size).Reads r.header.encode r.header.encode := by
    have hreads := Reading.reads_exactly r.header.encode
    rwa [ReplyHeader.length_encode] at hreads
  rw [Reply.encode, List.append_assoc]
  refine Reading.reads_bind hheader ?_
  rw [ReplyHeader.decode_encode]
  dsimp only
  rw [hstatus]
  -- the shape that the status calls for decides how the reader goes on
  obtain ⟨header, name?, content?⟩ := r
  cases hshape : status.shape with
  | bare =>
    rw [hshape] at hparts
    obtain ⟨rfl, rfl⟩ := hparts
    simp only [hshape]
    exact Reading.reads_pure _
  | named =>
    rw [hshape] at hparts
    obtain ⟨⟨name, rfl, hname⟩, rfl⟩ := hparts
    simp only [hshape]
    exact Reading.reads_bind (reads_readName hname) (Reading.reads_pure _)
  | stream =>
    rw [hshape] at hparts
    obtain ⟨⟨name, rfl, hname⟩, content, rfl, hcontent⟩ := hparts
    have htail : contentField content =
        Bytes.littleEndian 4 content.length ++ (content ++ []) := by
      rw [List.append_nil]
      rfl
    simp only [hshape]
    refine Reading.reads_bind (reads_readName hname) ?_
    show Reading.Reads _ (contentField content) _
    rw [htail]
    exact Reading.reads_bind (reads_littleEndian hcontent)
      (Reading.reads_bind (Reading.reads_exactly content) (Reading.reads_pure _))

/-- A part of a reply cannot be read as a reply. -/
theorem Reply.starves_read {r : Reply} (h : r.Proper) : Reply.read.Starves r.encode := by
  obtain ⟨status, hstatus, hparts⟩ := h
  have hheader := Reading.reads_exactly r.header.encode
  have hheader' := Reading.starves_exactly r.header.encode
  rw [ReplyHeader.length_encode] at hheader hheader'
  rw [Reply.encode, List.append_assoc]
  refine Reading.starves_bind hheader hheader' ?_
  rw [ReplyHeader.decode_encode]
  dsimp only
  rw [hstatus]
  obtain ⟨header, name?, content?⟩ := r
  cases hshape : status.shape with
  | bare =>
    rw [hshape] at hparts
    obtain ⟨rfl, rfl⟩ := hparts
    simp only [hshape]
    exact Reading.starves_pure _
  | named =>
    rw [hshape] at hparts
    obtain ⟨⟨name, rfl, hname⟩, rfl⟩ := hparts
    simp only [hshape]
    exact Reading.starves_bind (reads_readName hname) (starves_readName hname)
      (Reading.starves_pure _)
  | stream =>
    rw [hshape] at hparts
    obtain ⟨⟨name, rfl, hname⟩, content, rfl, hcontent⟩ := hparts
    have htail : contentField content =
        Bytes.littleEndian 4 content.length ++ (content ++ []) := by
      rw [List.append_nil]
      rfl
    simp only [hshape]
    refine Reading.starves_bind (reads_readName hname) (starves_readName hname) ?_
    show Reading.Starves _ (contentField content)
    rw [htail]
    exact Reading.starves_bind (reads_littleEndian hcontent) (starves_littleEndian _ _)
      (Reading.starves_bind (Reading.reads_exactly content) (Reading.starves_exactly content)
        (Reading.starves_pure _))

/-! ## 3. Replies written to a willing sink -/

theorem Sink.Willing.send {sink : Sink} (h : sink.Willing) {frame : Building Unit} {bytes : Bytes}
    (hframe : frame.Puts bytes) :
    ∃ sink', send frame sink = (.ok (), sink') ∧ sink'.bytes = sink.bytes ++ bytes ∧
      sink'.Willing := by
  obtain ⟨written, hwrite, hbytes, hwritten⟩ := h.writeAll bytes
  obtain ⟨flushed, hflush, hbytes', hflushed⟩ := hwritten.flush
  refine ⟨flushed, ?_, by rw [hbytes', hbytes], hflushed⟩
  simp only [Protocol.send, hframe.build, hwrite, hflush]

theorem Sink.Willing.sendBare {sink : Sink} (h : sink.Willing) (status : Status) :
    ∃ sink', sendBare status sink = (.ok (), sink') ∧
      sink'.bytes = sink.bytes ++ (Reply.bare status).encode ∧ sink'.Willing := by
  have hbytes : (Reply.bare status).encode = (ReplyHeader.ofStatus status).encode := by
    simp [Reply.encode, Reply.bare]
  rw [hbytes]
  exact Sink.Willing.send h (puts_put _)

theorem Sink.Willing.sendNamed {sink : Sink} (h : sink.Willing) (status : Status) {name : Bytes}
    (hname : name.length ≤ maxNameField) :
    ∃ sink', sendNamed status name sink = (.ok (), sink') ∧
      sink'.bytes = sink.bytes ++ (Reply.named status name).encode ∧ sink'.Willing := by
  have hbytes : (Reply.named status name).encode =
      (ReplyHeader.ofStatus status).encode ++ nameField name := by
    simp [Reply.encode, Reply.named]
  rw [hbytes]
  exact Sink.Willing.send h ((puts_put _).bind (puts_putName hname))

/-- Why a streamed reply breaks off after `sent` bytes of content, by what stopped the source of
the content. -/
def breakOff (length : UInt32) (sent : Nat) : Option FaultKind → FrameError
  | none => .shortContent length sent
  | some kind => .transport (.raised kind)

theorem ending_of_none (length : UInt32) (available : Nat) (barrier : Option FaultKind) :
    ending length available barrier none =
      if length.toNat ≤ available then .ok ()
      else .error (breakOff length available barrier) := by
  by_cases h : length.toNat ≤ available
  · rw [if_pos h, ending_of_le h, flushed]
  · rw [if_neg h, ending_of_lt (Nat.lt_of_not_le h)]
    cases barrier <;> rfl

/-- Copying from any source: all that it has up to the declared length is written, and the copying
fails just where that is too little. -/
theorem copyContent_of_front (chunk : Nat) (length : UInt32) (sent : Nat) (source : Source)
    {sink : Sink} (h : sink.Willing) (hsent : sent ≤ length.toNat) :
    ∃ rest sink', copyContent chunk length sent source sink =
        ⟨if length.toNat ≤ sent + source.front.length then .ok ()
          else .error (breakOff length (sent + source.front.length) source.barrier), rest, sink'⟩ ∧
      sink'.bytes = sink.bytes ++ source.front.take (length.toNat - sent) ∧ sink'.Willing := by
  obtain ⟨taken, written, hcopied⟩ := copied_copyContent chunk source sink hsent
  obtain ⟨hwritten, hresult⟩ := hcopied.whole (h.takes _)
  rw [h.flushFault, ending_of_none] at hresult
  refine ⟨_, _, by rw [← hresult], ?_, h.wrote hcopied.wrote⟩
  rw [hcopied.wrote.bytes, hwritten, contentLeft]

/-- A streamed reply as far as `content`, of which there should be `length` bytes. -/
def streamBegun (status : Status) (name : Bytes) (length : UInt32) (content : Bytes) : Bytes :=
  (ReplyHeader.ofStatus status).encode ++
    (nameField name ++ (Bytes.littleEndian 4 length.toNat ++ content))

theorem streamBegun_append (status : Status) (name : Bytes) (length : UInt32)
    (content more : Bytes) :
    streamBegun status name length content ++ more =
      streamBegun status name length (content ++ more) := by
  simp only [streamBegun, List.append_assoc]

theorem streamBegun_whole (status : Status) (name : Bytes) {length : UInt32} {content : Bytes}
    (h : content.length = length.toNat) :
    streamBegun status name length content = (Reply.streamed status name content).encode := by
  simp [streamBegun, Reply.encode, Reply.streamed, contentField, h]

theorem puts_streamPreamble (status : Status) {name : Bytes} (hname : name.length ≤ maxNameField)
    (length : UInt32) :
    (streamPreamble status name length).Puts (streamBegun status name length []) := by
  rw [streamBegun, List.append_nil]
  exact (puts_put _).bind ((puts_putName hname).bind (puts_put _))

/-- A streamed reply from any source is whole just where the source has the declared length. -/
theorem Sink.Willing.sendStream_of_front {sink : Sink} (h : sink.Willing) (chunk : Nat)
    (status : Status) {name : Bytes} (hname : name.length ≤ maxNameField) (length : UInt32)
    (source : Source) :
    ∃ rest sink', sendStream chunk status name length source sink =
        ⟨if length.toNat ≤ source.front.length then .ok ()
          else .error (breakOff length source.front.length source.barrier), rest, sink'⟩ ∧
      sink'.bytes =
        sink.bytes ++ streamBegun status name length (source.front.take length.toNat) ∧
      sink'.Willing := by
  -- the preamble goes out first, then the content in chunks
  have hframe := puts_streamPreamble status hname length
  obtain ⟨begun, hwrite, hbytes, hbegun⟩ := h.writeAll (streamBegun status name length [])
  obtain ⟨rest, sink', hcopy, hbytes', hsink'⟩ :=
    copyContent_of_front chunk length 0 source hbegun (Nat.zero_le _)
  rw [Nat.zero_add, copyContent] at hcopy
  refine ⟨rest, sink', ?_, ?_, hsink'⟩
  · simp only [Protocol.sendStream, sendFrom, hframe.build, hwrite, hcopy]
  · rw [hbytes', hbytes, Nat.sub_zero, List.append_assoc, streamBegun_append, List.nil_append]

theorem Sink.Willing.sendStream {sink : Sink} (h : sink.Willing) (chunk : Nat) (status : Status)
    {name content : Bytes} (hname : name.length ≤ maxNameField)
    (hcontent : content.length < UInt32.size) :
    ∃ source sink', sendStream chunk status name (UInt32.ofNat content.length) (.ofBytes content)
        sink = ⟨.ok (), source, sink'⟩ ∧
      sink'.bytes = sink.bytes ++ (Reply.streamed status name content).encode ∧
      sink'.Willing := by
  have hlength : (UInt32.ofNat content.length).toNat = content.length :=
    Nat.mod_eq_of_lt hcontent
  obtain ⟨rest, sink', hsend, hbytes, hwilling⟩ := Sink.Willing.sendStream_of_front h chunk status
    hname (UInt32.ofNat content.length) (.ofBytes content)
  rw [Source.front_ofBytes, hlength] at hsend hbytes
  rw [if_pos (Nat.le_refl _)] at hsend
  rw [List.take_length, streamBegun_whole status name hlength.symm] at hbytes
  exact ⟨rest, sink', hsend, hbytes, hwilling⟩

end UserVault.Protocol
