import UserVault.Link.Source

/-!
# What a source delivers

How a source is cut into segments shows in single reads only.  What is read to the end of a field
depends on two things alone: the bytes that come before the first fault (`Source.front`), and
whether a fault or the end comes after them (`Source.barrier`).

A reading is described by what it makes of these.  `Reads m bytes a` says that `m` takes exactly
`bytes` and gives `a`; `Starves m bytes` says that `m` fails where only a part of `bytes` comes.
-/

namespace UserVault.Link

/-- The bytes that arrive before the first fault. -/
def frontOf : List Arrival → Bytes
  | [] => []
  | .segment bytes :: later => bytes ++ frontOf later
  | .fault _ :: _ => []

/-- The first fault, if there is one. -/
def barrierOf : List Arrival → Option FaultKind
  | [] => none
  | .segment _ :: later => barrierOf later
  | .fault kind :: _ => some kind

/-- Why a source is not read past its front. -/
def Stop.ofBarrier : Option FaultKind → Stop
  | none => .ended
  | some kind => .failed kind

namespace Source

/-- The bytes that can be read before a read fails or the source ends. -/
def front (s : Source) : Bytes := s.current ++ frontOf s.later

/-- The fault behind the front, if the source does not end there. -/
def barrier (s : Source) : Option FaultKind := barrierOf s.later

@[simp] theorem front_ofBytes (bytes : Bytes) : (ofBytes bytes).front = bytes := by
  simp [front, ofBytes, frontOf]

-- How bytes are cut into segments makes no difference to the front.
theorem front_ofArrivals_segments (pieces : List Bytes) :
    (ofArrivals (pieces.map .segment)).front = pieces.flatten := by
  show frontOf ((pieces.map Arrival.segment).filter (· ≠ .segment [])) = pieces.flatten
  induction pieces with
  | nil => rfl
  | cons piece pieces ih =>
    by_cases h : piece = []
    · simpa [h] using ih
    · simpa [h, frontOf] using ih

theorem barrier_ofArrivals_segments (pieces : List Bytes) :
    (ofArrivals (pieces.map .segment)).barrier = none := by
  show barrierOf ((pieces.map Arrival.segment).filter (· ≠ .segment [])) = none
  induction pieces with
  | nil => rfl
  | cons piece pieces ih =>
    by_cases h : piece = []
    · simpa [h] using ih
    · simpa [h, barrierOf] using ih

/-- Where enough bytes come before the first fault, they are gathered across all segments. -/
theorem fillFrom_of_le_front {count : Nat} (current : Bytes) (later : List Arrival)
    (h : count ≤ (front ⟨current, later⟩).length) :
    ∃ rest, fillFrom count current later = ⟨(front ⟨current, later⟩).take count, .full, rest⟩ ∧
      rest.front = (front ⟨current, later⟩).drop count ∧ rest.barrier = barrierOf later := by
  induction later generalizing count current with
  | nil =>
    have hle : count ≤ current.length := by simpa [front, frontOf] using h
    refine ⟨⟨current.drop count, []⟩, ?_, by simp [front, frontOf], rfl⟩
    rw [fillFrom_of_le hle]
    simp [front, frontOf]
  | cons arrival later ih =>
    by_cases hle : count ≤ current.length
    · refine ⟨⟨current.drop count, arrival :: later⟩, ?_, ?_, rfl⟩
      · rw [fillFrom_of_le hle]
        simp [front, List.take_append_of_le_length hle]
      · simp [front, List.drop_append_of_le_length hle]
    · have hlt : current.length < count := by omega
      -- a fault cannot come before enough bytes have; a segment adds its bytes to the front
      cases arrival with
      | fault kind =>
        simp only [front, frontOf, List.append_nil] at h
        omega
      | segment bytes =>
        have hfront : front ⟨current, .segment bytes :: later⟩ = current ++ front ⟨bytes, later⟩ :=
          rfl
        rw [hfront, List.length_append] at h
        obtain ⟨rest, hfill, hrest, hbarrier⟩ := ih bytes
          (show count - current.length ≤ (front ⟨bytes, later⟩).length by omega)
        refine ⟨rest, ?_, ?_, hbarrier⟩
        · rw [fillFrom_segment hlt, hfill, hfront, List.take_append]
          simp [List.take_of_length_le (Nat.le_of_lt hlt)]
        · rw [hrest, hfront, List.drop_append]
          simp [List.drop_of_length_le (Nat.le_of_lt hlt)]

/-- Where too few bytes come, all of them are taken and the barrier stops the gathering. -/
theorem fillFrom_of_front_lt {count : Nat} (current : Bytes) (later : List Arrival)
    (h : (front ⟨current, later⟩).length < count) :
    ∃ rest, fillFrom count current later =
      ⟨front ⟨current, later⟩, .ofBarrier (barrierOf later), rest⟩ := by
  induction later generalizing count current with
  | nil =>
    have hlt : current.length < count := by simpa [front, frontOf] using h
    refine ⟨{}, ?_⟩
    rw [fillFrom_nil hlt]
    simp [front, frontOf, barrierOf, Stop.ofBarrier]
  | cons arrival later ih =>
    have hlt : current.length < count := by
      simp only [front, List.length_append] at h
      omega
    cases arrival with
    | fault kind =>
      refine ⟨⟨[], later⟩, ?_⟩
      rw [fillFrom_fault hlt]
      simp [front, frontOf, barrierOf, Stop.ofBarrier]
    | segment bytes =>
      have hfront : front ⟨current, .segment bytes :: later⟩ = current ++ front ⟨bytes, later⟩ :=
        rfl
      rw [hfront, List.length_append] at h
      obtain ⟨rest, hfill⟩ := ih bytes
        (show (front ⟨bytes, later⟩).length < count - current.length by omega)
      exact ⟨rest, by rw [fillFrom_segment hlt, hfill, hfront]; rfl⟩

/-- Gathering the bytes at the front of a source. -/
theorem fill_of_front {s : Source} {bytes tail : Bytes} (h : s.front = bytes ++ tail) :
    ∃ rest, s.fill bytes.length = ⟨bytes, .full, rest⟩ ∧ rest.front = tail ∧
      rest.barrier = s.barrier := by
  have hlen : bytes.length ≤ s.front.length := by rw [h, List.length_append]; omega
  obtain ⟨rest, hfill, hfront, hbarrier⟩ := fillFrom_of_le_front s.current s.later hlen
  refine ⟨rest, ?_, ?_, hbarrier⟩
  · rw [show s.fill bytes.length = fillFrom bytes.length s.current s.later from rfl, hfill,
      show front ⟨s.current, s.later⟩ = bytes ++ tail from h, List.take_left]
  · rw [hfront, show front ⟨s.current, s.later⟩ = bytes ++ tail from h, List.drop_left]

theorem fill_of_front_lt {s : Source} {count : Nat} (h : s.front.length < count) :
    ∃ rest, s.fill count = ⟨s.front, .ofBarrier s.barrier, rest⟩ :=
  fillFrom_of_front_lt s.current s.later h

/-- A front that lacks something of `bytes` is shorter than they are. -/
theorem length_front_lt {s : Source} {bytes missing : Bytes} (h : s.front ++ missing = bytes)
    (hne : missing ≠ []) : s.front.length < bytes.length := by
  have hpos := List.length_pos_iff.mpr hne
  rw [← h, List.length_append]
  omega

/-- Gathering bytes that do not all come stops at the end of the source or at a fault. -/
theorem fill_cut {s : Source} {bytes missing : Bytes} (h : s.front ++ missing = bytes)
    (hne : missing ≠ []) :
    ∃ rest, s.fill bytes.length = ⟨s.front, .ended, rest⟩ ∨
      ∃ kind, s.fill bytes.length = ⟨s.front, .failed kind, rest⟩ := by
  obtain ⟨rest, hfill⟩ := fill_of_front_lt (length_front_lt h hne)
  refine ⟨rest, ?_⟩
  cases hb : s.barrier with
  | none =>
    rw [hb] at hfill
    exact .inl hfill
  | some kind =>
    rw [hb] at hfill
    exact .inr ⟨kind, hfill⟩

end Source

namespace Reading

variable {α β : Type}

/-- Whatever comes after `bytes`, the reading takes just these and gives `a`. -/
def Reads (m : Reading α) (bytes : Bytes) (a : α) : Prop :=
  ∀ (s : Source) (tail : Bytes), s.front = bytes ++ tail →
    ∃ rest, m s = (.ok a, rest) ∧ rest.front = tail ∧ rest.barrier = s.barrier

/-- The reading fails where only a part of `bytes` comes, whatever stops the source there. -/
def Starves (m : Reading α) (bytes : Bytes) : Prop :=
  ∀ (s : Source) (missing : Bytes), s.front ++ missing = bytes → missing ≠ [] →
    ∃ fault rest, m s = (.error fault, rest)

theorem reads_pure (a : α) : Reads (pure a : Reading α) [] a :=
  fun s _ h => ⟨s, rfl, h, rfl⟩

theorem starves_pure (a : α) : Starves (pure a : Reading α) [] := by
  intro s missing h hne
  exact absurd (List.append_eq_nil_iff.mp h).2 hne

theorem reads_bind {m : Reading α} {f : α → Reading β} {bs cs : Bytes} {a : α} {b : β}
    (hm : m.Reads bs a) (hf : (f a).Reads cs b) : (m >>= f).Reads (bs ++ cs) b := by
  intro s tail h
  rw [List.append_assoc] at h
  obtain ⟨mid, hmid, hfront, hbarrier⟩ := hm s (cs ++ tail) h
  obtain ⟨rest, hrest, hfront', hbarrier'⟩ := hf mid tail hfront
  refine ⟨rest, ?_, hfront', hbarrier'.trans hbarrier⟩
  simp only [bind, hmid, hrest]

theorem reads_bind_pure {m : Reading α} {bs : Bytes} {a : α} (hm : m.Reads bs a) (f : α → β) :
    (m >>= fun a => pure (f a)).Reads bs (f a) := by
  have hreads := reads_bind hm (f := fun a => pure (f a)) (reads_pure (f a))
  rwa [List.append_nil] at hreads

/-- A sequence starves in its first part or, with the first part read, in its second. -/
theorem starves_bind {m : Reading α} {f : α → Reading β} {bs cs : Bytes} {a : α}
    (hm : m.Reads bs a) (hm' : m.Starves bs) (hf : (f a).Starves cs) :
    (m >>= f).Starves (bs ++ cs) := by
  intro s missing h hne
  -- the source ends within `bs`, just behind `bs`, or within `cs`
  rcases List.append_eq_append_iff.mp h with ⟨short, hbs, hmissing⟩ | ⟨tail, hfront, hcs⟩
  · by_cases hshort : short = []
    · have hfront : s.front = bs ++ [] := by rw [hbs, hshort, List.append_nil, List.append_nil]
      obtain ⟨mid, hmid, hfront', _⟩ := hm s [] hfront
      have hcs : mid.front ++ missing = cs := by
        rw [hfront', hmissing, hshort, List.nil_append, List.nil_append]
      obtain ⟨fault, rest, hrest⟩ := hf mid missing hcs hne
      exact ⟨fault, rest, by simp only [bind, hmid, hrest]⟩
    · obtain ⟨fault, rest, hrest⟩ := hm' s short hbs.symm hshort
      exact ⟨fault, rest, by simp only [bind, hrest]⟩
  · obtain ⟨mid, hmid, hfront', _⟩ := hm s tail hfront
    obtain ⟨fault, rest, hrest⟩ := hf mid missing (by rw [hfront', hcs]) hne
    exact ⟨fault, rest, by simp only [bind, hmid, hrest]⟩

theorem reads_exactly (bytes : Bytes) : (Source.exactly bytes.length).Reads bytes bytes := by
  intro s tail h
  obtain ⟨rest, hfill, hfront, hbarrier⟩ := Source.fill_of_front h
  exact ⟨rest, by simp only [Source.exactly, hfill], hfront, hbarrier⟩

theorem reads_number (bytes : Bytes) :
    (Source.number bytes.length).Reads bytes (Bytes.ofLittleEndian bytes) := by
  intro s tail h
  obtain ⟨rest, hfill, hfront, hbarrier⟩ := Source.fill_of_front h
  exact ⟨rest, by simp only [Source.number, hfill], hfront, hbarrier⟩

theorem starves_exactly (bytes : Bytes) : (Source.exactly bytes.length).Starves bytes := by
  intro s missing h hne
  obtain ⟨rest, hfill | ⟨kind, hfill⟩⟩ := Source.fill_cut h hne
  · exact ⟨.endedInBytes, rest, by simp only [Source.exactly, hfill]⟩
  · exact ⟨.raised kind, rest, by simp only [Source.exactly, hfill]⟩

theorem starves_number (bytes : Bytes) : (Source.number bytes.length).Starves bytes := by
  intro s missing h hne
  obtain ⟨rest, hfill | ⟨kind, hfill⟩⟩ := Source.fill_cut h hne
  · exact ⟨.endedInNumber, rest, by simp only [Source.number, hfill]⟩
  · exact ⟨.raised kind, rest, by simp only [Source.number, hfill]⟩

end Reading

end UserVault.Link
