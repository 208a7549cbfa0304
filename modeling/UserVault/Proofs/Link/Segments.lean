import UserVault.Proofs.Link.Front

/-!
# What segments do not show

A single read may stop at the end of a segment, but it takes bytes off the front of its source and
leaves the others there (`Source.read_of_front`).  So two sources that have the same bytes and then
the end cannot be told apart by reading fields (`Reading.Blind`), wherever they are cut.
-/

namespace UserVault.Link

namespace Source

/-! ## 1. Single reads -/

theorem readFrom_of_nil {room : Nat} {current : Bytes} {later : List Arrival}
    (h : front ⟨current, later⟩ = []) :
    ∃ rest, readFrom room current later =
      (match barrierOf later with
        | none => .ended
        | some kind => .failed kind, rest) := by
  induction later generalizing current with
  | nil =>
    obtain rfl : current = [] := by simpa [front, frontOf] using h
    exact ⟨{}, by simp [readFrom, barrierOf]⟩
  | cons arrival later ih =>
    obtain ⟨rfl, hlater⟩ := List.append_eq_nil_iff.mp h
    cases arrival with
    | fault kind => exact ⟨⟨[], later⟩, by simp [readFrom, barrierOf]⟩
    | segment bytes =>
      obtain ⟨rest, hread⟩ := ih hlater
      exact ⟨rest, by simp [readFrom, barrierOf, hread]⟩

theorem readFrom_of_ne_nil {room : Nat} (hroom : room ≠ 0) {current : Bytes}
    {later : List Arrival} (h : front ⟨current, later⟩ ≠ []) :
    ∃ b bs rest, readFrom room current later = (.bytes (b :: bs), rest) ∧
      (b :: bs).length ≤ room ∧ front ⟨current, later⟩ = b :: bs ++ rest.front ∧
      rest.barrier = barrierOf later := by
  obtain ⟨room, rfl⟩ : ∃ r, room = r + 1 := ⟨room - 1, by omega⟩
  induction later generalizing current with
  | nil =>
    cases current with
    | nil => exact absurd rfl h
    | cons b bs =>
      refine ⟨b, bs.take room, ⟨bs.drop room, []⟩, by simp [readFrom], ?_, ?_, rfl⟩
      · exact Nat.succ_le_succ (List.length_take_le room bs)
      · simp [front, frontOf]
  | cons arrival later ih =>
    cases current with
    | cons b bs =>
      refine ⟨b, bs.take room, ⟨bs.drop room, arrival :: later⟩, by simp [readFrom], ?_, ?_, rfl⟩
      · exact Nat.succ_le_succ (List.length_take_le room bs)
      · simp only [front, List.cons_append, ← List.append_assoc, List.take_append_drop]
    | nil =>
      cases arrival with
      | fault kind => exact absurd rfl h
      | segment bytes =>
        have hne : front ⟨bytes, later⟩ ≠ [] := h
        obtain ⟨b, bs, rest, hread, hlen, hfront, hbarrier⟩ := ih hne
        exact ⟨b, bs, rest, by simp [readFrom, hread], hlen, hfront, hbarrier⟩

/-- A read with some room brings some bytes of the front, or what stops the source if there are
none. -/
theorem read_of_front (s : Source) {room : Nat} (hroom : room ≠ 0) :
    (s.front = [] ∧ ∃ rest, s.read room =
      (match s.barrier with
        | none => .ended
        | some kind => .failed kind, rest)) ∨
    ∃ b bs rest, s.read room = (.bytes (b :: bs), rest) ∧ (b :: bs).length ≤ room ∧
      s.front = b :: bs ++ rest.front ∧ rest.barrier = s.barrier := by
  by_cases h : s.front = []
  · exact .inl ⟨h, readFrom_of_nil h⟩
  · exact .inr (readFrom_of_ne_nil hroom h)

/-! ## 2. Sources that have ended -/

theorem fillFrom_of_ended {count : Nat} (current : Bytes) (later : List Arrival)
    (h : (front ⟨current, later⟩).length < count) (hend : barrierOf later = none) :
    fillFrom count current later = ⟨front ⟨current, later⟩, .ended, {}⟩ := by
  induction later generalizing count current with
  | nil =>
    have hlt : current.length < count := by simpa [front, frontOf] using h
    rw [fillFrom_nil hlt]
    simp [front, frontOf]
  | cons arrival later ih =>
    have hlt : current.length < count := by
      simp only [front, List.length_append] at h
      omega
    cases arrival with
    | fault kind => cases hend
    | segment bytes =>
      have hfront : front ⟨current, .segment bytes :: later⟩ = current ++ front ⟨bytes, later⟩ :=
        rfl
      rw [hfront, List.length_append] at h
      rw [fillFrom_segment hlt, ih bytes (by omega) hend, hfront]

/-- Where too few bytes come before the end, all are taken and nothing is left. -/
theorem fill_of_ended {s : Source} {count : Nat} (h : s.front.length < count)
    (hend : s.barrier = none) : s.fill count = ⟨s.front, .ended, {}⟩ :=
  fillFrom_of_ended s.current s.later h hend

/-- The same bytes are in both sources, and then the end. -/
structure Same (s t : Source) : Prop where
  front : s.front = t.front
  ended : s.barrier = none
  ended' : t.barrier = none

theorem same_empty : Same {} {} := ⟨rfl, rfl, rfl⟩

/-- From sources with the same bytes the same are gathered. -/
theorem Same.fill {s t : Source} (h : s.Same t) (count : Nat) :
    ∃ got stop rest rest', s.fill count = ⟨got, stop, rest⟩ ∧ t.fill count = ⟨got, stop, rest'⟩ ∧
      Same rest rest' := by
  by_cases hlen : count ≤ s.front.length
  · obtain ⟨rest, hfill, hrest, hbarrier⟩ := fillFrom_of_le_front s.current s.later hlen
    obtain ⟨rest', hfill', hrest', hbarrier'⟩ := fillFrom_of_le_front t.current t.later
      (show count ≤ t.front.length from h.front ▸ hlen)
    refine ⟨_, _, rest, rest', hfill, ?_, ?_, hbarrier.trans h.ended, hbarrier'.trans h.ended'⟩
    · show fillFrom count t.current t.later = ⟨s.front.take count, _, _⟩
      rw [hfill', h.front]
    · rw [hrest, hrest']
      exact congrArg (List.drop count) h.front
  · have hlt : s.front.length < count := by omega
    exact ⟨_, _, {}, {}, fill_of_ended hlt h.ended,
      h.front ▸ fill_of_ended (h.front ▸ hlt) h.ended', same_empty⟩

end Source

namespace Reading

variable {α β : Type}

/-! ## 3. Readings that do not see segments -/

/-- A reading that does the same with sources that have the same bytes. -/
def Blind (m : Reading α) : Prop :=
  ∀ s t : Source, s.Same t → ∃ result rest rest', m s = (result, rest) ∧ m t = (result, rest') ∧
    rest.Same rest'

theorem blind_pure (a : α) : Blind (pure a : Reading α) :=
  fun s t h => ⟨.ok a, s, t, rfl, rfl, h⟩

theorem blind_bind {m : Reading α} {f : α → Reading β} (hm : m.Blind) (hf : ∀ a, (f a).Blind) :
    (m >>= f).Blind := by
  intro s t h
  obtain ⟨result, mid, mid', hmid, hmid', hsame⟩ := hm s t h
  cases result with
  | error fault => exact ⟨.error fault, mid, mid', by simp only [bind, hmid],
      by simp only [bind, hmid'], hsame⟩
  | ok a =>
    obtain ⟨result, rest, rest', hrest, hrest', hsame'⟩ := hf a mid mid' hsame
    exact ⟨result, rest, rest', by simp only [bind, hmid, hrest],
      by simp only [bind, hmid', hrest'], hsame'⟩

/-- What a gathering comes to: `full` where all was gathered, `ended` where the source ended
first. -/
def conclude (full ended : Except Fault α) : Stop → Except Fault α
  | .full => full
  | .ended => ended
  | .failed kind => .error (.raised kind)

/-- A reading is blind if it makes something of what was gathered and of nothing else. -/
theorem blind_of_fill {m : Reading α} (count : Nat) (full ended : Bytes → Except Fault α)
    (hm : ∀ s, m s = (conclude (full (s.fill count).got) (ended (s.fill count).got)
      (s.fill count).stop, (s.fill count).rest)) :
    m.Blind := by
  intro s t h
  obtain ⟨got, stop, rest, rest', hfill, hfill', hsame⟩ := h.fill count
  exact ⟨conclude (full got) (ended got) stop, rest, rest', by rw [hm, hfill],
    by rw [hm, hfill'], hsame⟩

theorem blind_exactly (count : Nat) : (Source.exactly count).Blind :=
  blind_of_fill count .ok (fun _ => .error .endedInBytes) fun s => by
    unfold Source.exactly
    split <;> simp_all [conclude]

theorem blind_number (width : Nat) : (Source.number width).Blind :=
  blind_of_fill width (fun got => .ok (Bytes.ofLittleEndian got)) (fun _ => .error .endedInNumber)
    fun s => by
      unfold Source.number
      split <;> simp_all [conclude]

/-! ## 4. What a reading can give -/

/-- Whatever the source, what the reading gives is such. -/
def Yields (m : Reading α) (such : α → Prop) : Prop :=
  ∀ (s rest : Source) (a : α), m s = (.ok a, rest) → such a

theorem yields_pure {such : α → Prop} {a : α} (h : such a) : Yields (pure a : Reading α) such := by
  intro s rest b hb
  cases hb
  exact h

theorem yields_bind {m : Reading α} {f : α → Reading β} {such : α → Prop} {such' : β → Prop}
    (hm : m.Yields such) (hf : ∀ a, such a → (f a).Yields such') : (m >>= f).Yields such' := by
  intro s rest b hb
  simp only [bind] at hb
  split at hb
  next a mid hmid => exact hf a (hm s mid a hmid) mid rest b hb
  next => cases hb

theorem yields_exactly (count : Nat) :
    (Source.exactly count).Yields fun bytes => bytes.length = count := by
  intro s rest bytes h
  have hgot := Source.length_got_of_full count s.current s.later
  unfold Source.exactly Source.fill at h
  split at h
  next hfill =>
    rw [hfill] at hgot
    cases h
    exact hgot rfl
  next => cases h
  next => cases h

theorem yields_number (width : Nat) :
    (Source.number width).Yields fun n => n < Nat.pow 256 width := by
  intro s rest n h
  have hgot := Source.length_got_of_full width s.current s.later
  unfold Source.number Source.fill at h
  split at h
  next got _ hfill =>
    rw [hfill] at hgot
    cases h
    have hlt := Bytes.ofLittleEndian_lt got
    rwa [hgot rfl] at hlt
  next => cases h
  next => cases h

/-! ## 5. What a reading takes -/

/-- Whenever the reading gives something, it has taken something. -/
def Consumes (m : Reading α) : Prop :=
  ∀ (s rest : Source) (a : α), m s = (.ok a, rest) → rest.load < s.load

theorem consumes_exactly {count : Nat} (hcount : count ≠ 0) : (Source.exactly count).Consumes := by
  intro s rest bytes h
  have hlength := yields_exactly count s rest bytes h
  have hload := s.load_fill count
  unfold Source.exactly at h
  split at h
  next hfill =>
    rw [hfill] at hload
    cases h
    dsimp only at hload
    omega
  next => cases h
  next => cases h

/-- A sequence takes something if its first part does. -/
theorem consumes_bind {m : Reading α} {f : α → Reading β} (hm : m.Consumes)
    (hf : ∀ a, (f a).Shrinks) : (m >>= f).Consumes := by
  intro s rest b hb
  simp only [bind] at hb
  split at hb
  next a mid hmid =>
    have hrest := hf a mid
    rw [hb] at hrest
    exact Nat.lt_of_le_of_lt hrest (hm s mid a hmid)
  next => cases hb

end Reading

end UserVault.Link
