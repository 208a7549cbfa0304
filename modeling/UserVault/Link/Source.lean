import UserVault.Bytes
import UserVault.Link.Fault

/-!
# Byte sources

A source hands out what a peer sends: segments, none of which is crossed by a single read, and
faults, each of which fails one read.  Everything that reads more than one segment goes through
`fill`, which gathers up to a number of bytes and says what stopped it.
-/

namespace UserVault.Link

/-- What comes in at once. -/
inductive Arrival
  | segment (bytes : Bytes)
  | fault (kind : FaultKind)
  deriving DecidableEq, Repr

/-- What an arrival counts as input still to come. -/
def Arrival.load : Arrival → Nat
  | .segment bytes => bytes.length
  | .fault _ => 1

/-- The unread part of the segment being read, and what comes after it.  A source that has
nothing left has ended. -/
structure Source where
  current : Bytes := []
  later : List Arrival := []
  deriving DecidableEq, Repr

/-- What one read brings. -/
inductive Received
  | bytes (bytes : Bytes)
  | ended
  | failed (kind : FaultKind)
  deriving DecidableEq, Repr

/-- Why a source was read no further. -/
inductive Stop
  | full
  | ended
  | failed (kind : FaultKind)
  deriving DecidableEq, Repr

/-- The bytes gathered, what stopped the gathering, and what is still unread. -/
structure Filled where
  got : Bytes
  stop : Stop
  rest : Source

/-- A computation that takes its input from a source.  What it has read stays read when it
fails. -/
def Reading (α : Type) := Source → Except Fault α × Source

instance : Monad Reading where
  pure a := fun s => (.ok a, s)
  bind m f := fun s =>
    match m s with
    | (.ok a, s) => f a s
    | (.error e, s) => (.error e, s)

namespace Source

/-- A source of the arrivals in their order; empty segments carry nothing and are left out. -/
def ofArrivals (arrivals : List Arrival) : Source :=
  { later := arrivals.filter (· ≠ .segment []) }

/-- A source of one run of bytes. -/
def ofBytes (bytes : Bytes) : Source := { current := bytes }

/-- The bytes still to come, whatever faults stand between them. -/
def bytes (s : Source) : Bytes :=
  s.current ++ s.later.flatMap fun
    | .segment b => b
    | .fault _ => []

/-- The number of segments of which nothing has been read. -/
def unopened (s : Source) : Nat :=
  s.later.countP fun
    | .segment _ => true
    | .fault _ => false

/-- How much a source still holds: its bytes and its faults. -/
def load (s : Source) : Nat :=
  s.current.length + s.later.foldr (fun arrival load => arrival.load + load) 0

/-- The same source with more to come after it. -/
def append (s : Source) (arrivals : List Arrival) : Source :=
  { s with later := s.later ++ arrivals.filter (· ≠ .segment []) }

/-- One read with room for `room` bytes, when `current` is what is left of the segment read. -/
def readFrom (room : Nat) (current : Bytes) (later : List Arrival) : Received × Source :=
  match current, later with
  | b :: bs, later => (.bytes ((b :: bs).take room), ⟨(b :: bs).drop room, later⟩)
  | [], [] => (.ended, {})
  | [], .fault kind :: later => (.failed kind, ⟨[], later⟩)
  | [], .segment bytes :: later => readFrom room bytes later

/-- One read with room for `room` bytes: part of one segment, a fault, or the end. -/
def read (s : Source) (room : Nat) : Received × Source :=
  readFrom room s.current s.later

/-- Gathers `count` bytes from what is left of a segment and from what comes after it. -/
def fillFrom (count : Nat) (current : Bytes) (later : List Arrival) : Filled :=
  if (current.take count).length = count then
    ⟨current.take count, .full, ⟨current.drop count, later⟩⟩
  else match later with
    | [] => ⟨current, .ended, {}⟩
    | .fault kind :: later => ⟨current, .failed kind, ⟨[], later⟩⟩
    | .segment bytes :: later =>
      let more := fillFrom (count - current.length) bytes later
      { more with got := current ++ more.got }

/-- Reads until `count` bytes are there, a read fails, or the source ends. -/
def fill (s : Source) (count : Nat) : Filled :=
  fillFrom count s.current s.later

/-- Reads exactly `count` bytes; those that came before a failure are gone. -/
def exactly (count : Nat) : Reading Bytes := fun s =>
  match s.fill count with
  | ⟨got, .full, rest⟩ => (.ok got, rest)
  | ⟨_, .ended, rest⟩ => (.error .endedInBytes, rest)
  | ⟨_, .failed kind, rest⟩ => (.error (.raised kind), rest)

/-- Reads a number of `width` bytes, least significant first. -/
def number (width : Nat) : Reading Nat := fun s =>
  match s.fill width with
  | ⟨got, .full, rest⟩ => (.ok (Bytes.ofLittleEndian got), rest)
  | ⟨_, .ended, rest⟩ => (.error .endedInNumber, rest)
  | ⟨_, .failed kind, rest⟩ => (.error (.raised kind), rest)

theorem fillFrom_of_le {count : Nat} {current : Bytes} (h : count ≤ current.length)
    (later : List Arrival) :
    fillFrom count current later =
      ⟨current.take count, .full, ⟨current.drop count, later⟩⟩ := by
  unfold fillFrom
  simp [Nat.min_eq_left h]

theorem fillFrom_nil {count : Nat} {current : Bytes} (h : current.length < count) :
    fillFrom count current [] = ⟨current, .ended, {}⟩ := by
  have hne : ¬min count current.length = count := by omega
  simp [fillFrom, hne]

theorem fillFrom_fault {count : Nat} {current : Bytes} (h : current.length < count)
    (kind : FaultKind) (later : List Arrival) :
    fillFrom count current (.fault kind :: later) = ⟨current, .failed kind, ⟨[], later⟩⟩ := by
  have hne : ¬min count current.length = count := by omega
  simp [fillFrom, hne]

theorem fillFrom_segment {count : Nat} {current : Bytes} (h : current.length < count)
    (bytes : Bytes) (later : List Arrival) :
    fillFrom count current (.segment bytes :: later) =
      { fillFrom (count - current.length) bytes later with
        got := current ++ (fillFrom (count - current.length) bytes later).got } := by
  have hne : ¬min count current.length = count := by omega
  simp [fillFrom, hne]

theorem load_fillFrom (count : Nat) (current : Bytes) (later : List Arrival) :
    (fillFrom count current later).rest.load + (fillFrom count current later).got.length ≤
      load ⟨current, later⟩ := by
  induction later generalizing count current with
  | nil =>
    by_cases hlen : count ≤ current.length
    · simp [fillFrom_of_le hlen, load]
      omega
    · simp [fillFrom_nil (by omega : current.length < count), load]
  | cons arrival later ih =>
    by_cases hlen : count ≤ current.length
    · simp [fillFrom_of_le hlen, load]
      omega
    · have hlt : current.length < count := by omega
      cases arrival with
      | fault kind =>
        simp [fillFrom_fault hlt, load, Arrival.load]
        omega
      | segment bytes =>
        have h := ih (count - current.length) bytes
        simp only [fillFrom_segment hlt, load, List.length_append, List.foldr_cons,
          Arrival.load] at h ⊢
        omega

theorem length_got_of_full (count : Nat) (current : Bytes) (later : List Arrival)
    (h : (fillFrom count current later).stop = .full) :
    (fillFrom count current later).got.length = count := by
  induction later generalizing count current with
  | nil =>
    by_cases hlen : count ≤ current.length
    · simp [fillFrom_of_le hlen, hlen]
    · simp [fillFrom_nil (by omega : current.length < count)] at h
  | cons arrival later ih =>
    by_cases hlen : count ≤ current.length
    · simp [fillFrom_of_le hlen, hlen]
    · have hlt : current.length < count := by omega
      cases arrival with
      | fault kind => simp [fillFrom_fault hlt] at h
      | segment bytes =>
        simp only [fillFrom_segment hlt] at h ⊢
        rw [List.length_append, ih _ _ h]
        omega

theorem load_fill (s : Source) (count : Nat) :
    (s.fill count).rest.load + (s.fill count).got.length ≤ s.load :=
  load_fillFrom count s.current s.later

end Source

namespace Reading

/-- A reading after which the source holds no more than before. -/
def Shrinks {α : Type} (m : Reading α) : Prop := ∀ s, (m s).2.load ≤ s.load

theorem shrinks_pure {α : Type} (a : α) : Shrinks (pure a : Reading α) :=
  fun _ => Nat.le_refl _

theorem shrinks_bind {α β : Type} {m : Reading α} {f : α → Reading β} (hm : m.Shrinks)
    (hf : ∀ a, (f a).Shrinks) : (m >>= f).Shrinks := by
  intro s
  have h := hm s
  simp only [bind]
  split
  next a s' hs =>
    rw [hs] at h
    exact Nat.le_trans (hf a s') h
  next e s' hs =>
    rw [hs] at h
    exact h

theorem shrinks_exactly (count : Nat) : (Source.exactly count).Shrinks := by
  intro s
  have h := s.load_fill count
  unfold Source.exactly
  split <;> simp_all <;> omega

theorem shrinks_number (width : Nat) : (Source.number width).Shrinks := by
  intro s
  have h := s.load_fill width
  unfold Source.number
  split <;> simp_all <;> omega

end Reading

end UserVault.Link
