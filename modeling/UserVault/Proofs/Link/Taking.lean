import UserVault.Proofs.Link.Segments

/-!
# What is taken from a source

Whatever a read comes to, the bytes that it got and the bytes that it left are those that were there
before.  Where no fault stands in the way, a reading that fails for want of bytes has taken all of
them (`Reading.Drains`).
-/

namespace UserVault.Link

/-- The bytes that a read brings. -/
def Received.got : Received → Bytes
  | .bytes got => got
  | .ended | .failed _ => []

namespace Source

/-! ## 1. Bytes taken and bytes left -/

theorem bytes_eq (current : Bytes) (later : List Arrival) :
    bytes ⟨current, later⟩ = current ++ bytes ⟨[], later⟩ := rfl

theorem bytes_segment (current segment : Bytes) (later : List Arrival) :
    bytes ⟨current, .segment segment :: later⟩ = current ++ bytes ⟨segment, later⟩ := by
  simp [bytes]

theorem bytes_fault (current : Bytes) (kind : FaultKind) (later : List Arrival) :
    bytes ⟨current, .fault kind :: later⟩ = current ++ bytes ⟨[], later⟩ := by
  simp [bytes]

/-- Where no fault is to come, all bytes are at the front. -/
theorem bytes_of_ended {s : Source} (hend : s.barrier = none) : s.bytes = s.front := by
  obtain ⟨current, later⟩ := s
  induction later generalizing current with
  | nil => rfl
  | cons arrival later ih =>
    cases arrival with
    | segment segment =>
      rw [bytes_segment, ih segment hend]
      rfl
    | fault kind => cases hend

theorem bytes_fillFrom (count : Nat) (current : Bytes) (later : List Arrival) :
    bytes ⟨current, later⟩ = (fillFrom count current later).got ++
        (fillFrom count current later).rest.bytes ∧
      (fillFrom count current later).got.length ≤ count := by
  induction later generalizing count current with
  | nil =>
    by_cases hle : count ≤ current.length
    · rw [fillFrom_of_le hle]
      dsimp only
      rw [bytes_eq, bytes_eq (current.drop count), ← List.append_assoc, List.take_append_drop]
      exact ⟨rfl, List.length_take_le count current⟩
    · have hlt : current.length < count := by omega
      rw [fillFrom_nil hlt]
      exact ⟨rfl, Nat.le_of_lt hlt⟩
  | cons arrival later ih =>
    by_cases hle : count ≤ current.length
    · rw [fillFrom_of_le hle]
      dsimp only
      rw [bytes_eq, bytes_eq (current.drop count), ← List.append_assoc, List.take_append_drop]
      exact ⟨rfl, List.length_take_le count current⟩
    · have hlt : current.length < count := by omega
      cases arrival with
      | fault kind =>
        rw [fillFrom_fault hlt]
        exact ⟨bytes_fault current kind later, Nat.le_of_lt hlt⟩
      | segment segment =>
        -- what the segment gives is gathered behind the bytes that were left before it
        obtain ⟨hbytes, hlength⟩ := ih (count - current.length) segment
        rw [fillFrom_segment hlt, bytes_segment, hbytes]
        dsimp only
        rw [List.append_assoc, List.length_append]
        exact ⟨rfl, by omega⟩

/-- Gathering takes no more than was asked for, and loses nothing. -/
theorem bytes_fill (s : Source) (count : Nat) :
    s.bytes = (s.fill count).got ++ (s.fill count).rest.bytes ∧
      (s.fill count).got.length ≤ count :=
  bytes_fillFrom count s.current s.later

theorem bytes_readFrom (room : Nat) (current : Bytes) (later : List Arrival) :
    bytes ⟨current, later⟩ = (readFrom room current later).1.got ++
        (readFrom room current later).2.bytes ∧
      (readFrom room current later).1.got.length ≤ room := by
  have hsplit (b : UInt8) (bs : Bytes) (later : List Arrival) :
      bytes ⟨b :: bs, later⟩ = (b :: bs).take room ++ bytes ⟨(b :: bs).drop room, later⟩ := by
    rw [bytes_eq, bytes_eq ((b :: bs).drop room), ← List.append_assoc, List.take_append_drop]
  induction later generalizing current with
  | nil =>
    cases current with
    | nil => exact ⟨rfl, Nat.zero_le _⟩
    | cons b bs => exact ⟨hsplit b bs _, List.length_take_le room _⟩
  | cons arrival later ih =>
    cases current with
    | nil =>
      cases arrival with
      | segment segment => exact ih segment
      | fault kind => exact ⟨bytes_fault [] kind later, Nat.zero_le _⟩
    | cons b bs => exact ⟨hsplit b bs _, List.length_take_le room _⟩

/-- A single read takes the bytes that come first, no more than there is room for, and loses
none. -/
theorem bytes_of_read (s : Source) (room : Nat) :
    s.bytes = (s.read room).1.got ++ (s.read room).2.bytes ∧
      (s.read room).1.got.length ≤ room :=
  bytes_readFrom room s.current s.later

theorem bytes_read {s rest : Source} {room : Nat} {got : Bytes}
    (h : s.read room = (.bytes got, rest)) : s.bytes = got ++ rest.bytes ∧ got.length ≤ room := by
  have hread := s.bytes_of_read room
  rwa [h] at hread

/-- Of what was in a source just `count` bytes are gone, the first ones. -/
def Took (s rest : Source) (count : Nat) : Prop :=
  ∃ taken, s.bytes = taken ++ rest.bytes ∧ taken.length = count

theorem took_refl (s : Source) : s.Took s 0 := ⟨[], rfl, rfl⟩

theorem Took.trans {s mid rest : Source} {count count' : Nat} (h : s.Took mid count)
    (h' : mid.Took rest count') : s.Took rest (count + count') := by
  obtain ⟨taken, hbytes, hlength⟩ := h
  obtain ⟨taken', hbytes', hlength'⟩ := h'
  refine ⟨taken ++ taken', ?_, ?_⟩
  · rw [hbytes, hbytes', List.append_assoc]
  · rw [List.length_append, hlength, hlength']

theorem took_fill (s : Source) (count : Nat) :
    s.Took (s.fill count).rest (s.fill count).got.length :=
  ⟨_, (s.bytes_fill count).1, rfl⟩

/-! ## 2. Sources without faults -/

/-- Without a fault, gathering gets all that it asks for or all that there is. -/
theorem fill_cases {s : Source} (hend : s.barrier = none) (count : Nat) :
    (∃ got rest, s.fill count = ⟨got, .full, rest⟩ ∧ rest.barrier = none) ∨
      s.fill count = ⟨s.front, .ended, {}⟩ := by
  by_cases hle : count ≤ s.front.length
  · obtain ⟨rest, hfill, -, hbarrier⟩ := fillFrom_of_le_front s.current s.later hle
    exact .inl ⟨_, rest, hfill, hbarrier.trans hend⟩
  · exact .inr (fill_of_ended (by omega) hend)

end Source

namespace Reading

variable {α β : Type} {m : Reading α}

/-- From a source without faults the reading fails only at the end, and has taken all bytes then. -/
def Drains (m : Reading α) : Prop := ∀ s : Source, s.barrier = none →
  (m s).2.barrier = none ∧
    ∀ fault, (m s).1 = .error fault → fault.kind = .unexpectedEof ∧ (m s).2.bytes = []

theorem drains_pure (a : α) : Drains (pure a : Reading α) := by
  intro s hend
  exact ⟨hend, fun fault hfault => by cases hfault⟩

theorem drains_bind {f : α → Reading β} (hm : m.Drains) (hf : ∀ a, (f a).Drains) :
    (m >>= f).Drains := by
  intro s hend
  obtain ⟨hmid, hfail⟩ := hm s hend
  simp only [bind]
  -- a failure of the first part is the failure of all
  split
  next a mid heq =>
    rw [heq] at hmid
    exact hf a mid hmid
  next fault mid heq =>
    rw [heq] at hmid hfail
    refine ⟨hmid, fun fault' hfault => ?_⟩
    cases hfault
    exact hfail fault rfl

/-- A reading that goes by what was gathered drains, if it fails for want of bytes only. -/
theorem drains_of_fill (count : Nat)
    (hfull : ∀ (s : Source) got rest, s.fill count = ⟨got, .full, rest⟩ →
      ∃ a, m s = (.ok a, rest))
    (hended : ∀ (s : Source) got rest, s.fill count = ⟨got, .ended, rest⟩ →
      (∃ a, m s = (.ok a, rest)) ∨
        ∃ fault, m s = (.error fault, rest) ∧ fault.kind = .unexpectedEof) : m.Drains := by
  intro s hend
  have hok {a : α} {rest : Source} (h : m s = (.ok a, rest)) (hrest : rest.barrier = none) :
      (m s).2.barrier = none ∧
        ∀ fault, (m s).1 = .error fault → fault.kind = .unexpectedEof ∧ (m s).2.bytes = [] := by
    rw [h]
    exact ⟨hrest, fun fault hfault => by cases hfault⟩
  rcases s.fill_cases hend count with ⟨got, rest, hfill, hrest⟩ | hfill
  · obtain ⟨a, h⟩ := hfull s got rest hfill
    exact hok h hrest
  · rcases hended s _ _ hfill with ⟨a, h⟩ | ⟨fault, h, hkind⟩
    · exact hok h rfl
    · rw [h]
      refine ⟨rfl, fun fault' hfault => ?_⟩
      cases hfault
      exact ⟨hkind, rfl⟩

theorem drains_exactly (count : Nat) : (Source.exactly count).Drains := by
  apply drains_of_fill count
  · intro s got rest h
    exact ⟨got, by simp only [Source.exactly, h]⟩
  · intro s got rest h
    exact .inr ⟨.endedInBytes, by simp only [Source.exactly, h], rfl⟩

theorem drains_number (width : Nat) : (Source.number width).Drains := by
  apply drains_of_fill width
  · intro s got rest h
    exact ⟨Bytes.ofLittleEndian got, by simp only [Source.number, h]⟩
  · intro s got rest h
    exact .inr ⟨.endedInNumber, by simp only [Source.number, h], rfl⟩

/-! ## 3. Readings of so many bytes -/

/-- The reading takes at most `count` bytes, and just so many if it succeeds. -/
def Takes (m : Reading α) (count : Nat) : Prop :=
  ∀ s : Source, ∃ taken ≤ count, s.Took (m s).2 taken ∧
    ∀ a, (m s).1 = .ok a → taken = count

/-- A reading that goes by what was gathered takes this, if it succeeds only with all of it. -/
theorem takes_of_fill (count : Nat) (hrest : ∀ s, (m s).2 = (s.fill count).rest)
    (hok : ∀ s a, (m s).1 = .ok a → (s.fill count).stop = .full) : m.Takes count := by
  intro s
  refine ⟨(s.fill count).got.length, (s.bytes_fill count).2, ?_, ?_⟩
  · rw [hrest]
    exact s.took_fill count
  · intro a ha
    exact Source.length_got_of_full count s.current s.later (hok s a ha)

theorem takes_exactly (count : Nat) : (Source.exactly count).Takes count := by
  apply takes_of_fill count
  · intro s
    unfold Source.exactly
    split <;> simp_all
  · intro s bytes h
    unfold Source.exactly at h
    split at h <;> simp_all

end Reading

end UserVault.Link
