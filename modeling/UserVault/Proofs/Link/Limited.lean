import UserVault.Proofs.Link.Willing

/-!
# Sinks with limited room

A limited sink takes so many bytes, in pieces however small, and fails every write from then on.
`Curtailed` compares what is done to it with what is done to a willing sink: as far as there is
room the same bytes are taken, and there is a failure just where there is not enough of it.
-/

namespace UserVault.Link.Sink

/-- A sink that takes `room` more bytes, be it in many pieces, and none after them. -/
structure Limited (s : Sink) (room : Nat) : Prop where
  room : s.room = some room
  maxWrite : s.maxWrite ≠ some 0
  flushFault : s.flushFault = none

variable {s w : Sink} {room : Nat} {out : Bytes}

theorem Limited.forget (h : s.Limited room) : s.forget.Limited room :=
  ⟨h.room, h.maxWrite, h.flushFault⟩

theorem Limited.limit (h : s.Limited room) : s.limit = some room := by
  rw [Sink.limit, if_neg h.maxWrite, h.room]

theorem Limited.wrote (h : s.Limited room) (hwrote : s.Wrote w out) :
    w.Limited (room - out.length) where
  room := by rw [hwrote.room, h.room, Option.map_some]
  maxWrite := by rw [hwrote.maxWrite]; exact h.maxWrite
  flushFault := hwrote.flushFault.trans h.flushFault

theorem Limited.flush (h : s.Limited room) :
    ∃ s', s.flush = (.ok (), s') ∧ s'.bytes = s.bytes ∧ s'.Limited room := by
  obtain ⟨s', hwrote, hflush⟩ := s.flush_eq
  rw [h.flushFault] at hflush
  exact ⟨s', hflush, hwrote.bytes.trans (List.append_nil _), h.wrote hwrote⟩

/-- What comes of something that writes `out` to a willing sink and then has the result `result`,
when it is done to a sink with limited room. -/
inductive Curtailed {ε α : Type} (result : Except ε α) (out : Bytes) (s : Sink) (room : Nat) :
    Except ε α → Sink → Prop
  | whole (s' : Sink) (hroom : out.length ≤ room) (hbytes : s'.bytes = s.bytes ++ out)
    (hlimited : s'.Limited (room - out.length)) : Curtailed result out s room result s'
  | part (e : ε) (s' : Sink) (hroom : room < out.length)
    (hbytes : s'.bytes = s.bytes ++ out.take room) : Curtailed result out s room (.error e) s'

section
variable {ε α : Type} {result r : Except ε α} {s₁ s₂ : Sink} {more : Bytes}

theorem Limited.curtailed_nil (h : s.Limited room) (result : Except ε α) :
    Curtailed result [] s room result s :=
  .whole s (Nat.zero_le _) (by rw [List.append_nil]) h

-- Where there is no room for the first bytes, none of those after them is taken.
theorem Curtailed.append_part (hroom : room < out.length)
    (hbytes : s₁.bytes = s.bytes ++ out.take room) (more : Bytes) (e : ε) :
    Curtailed result (out ++ more) s room (.error e) s₁ := by
  refine .part e s₁ (by rw [List.length_append]; omega) ?_
  rw [hbytes, List.take_append_of_le_length (Nat.le_of_lt hroom)]

/-- What is written after bytes for which there was room goes on in the room that is left. -/
theorem Curtailed.append_whole (hroom : out.length ≤ room) (hbytes : s₁.bytes = s.bytes ++ out)
    (h : Curtailed result more s₁ (room - out.length) r s₂) :
    Curtailed result (out ++ more) s room r s₂ := by
  cases h with
  | whole _ hroom' hbytes' hlimited =>
    refine .whole _ (by rw [List.length_append]; omega) ?_ ?_
    · rw [hbytes', hbytes, List.append_assoc]
    · rw [List.length_append, ← Nat.sub_sub]
      exact hlimited
  | part e _ hroom' hbytes' =>
    refine .part e _ (by rw [List.length_append]; omega) ?_
    rw [hbytes', hbytes, List.append_assoc, List.take_append, List.take_of_length_le hroom]

end

theorem Limited.writeAll (h : s.Limited room) (bytes : Bytes) :
    Curtailed (.ok ()) bytes s room (s.writeAll bytes).1 (s.writeAll bytes).2 := by
  have hspec := s.writeAll_spec bytes
  generalize s.writeAll bytes = result at hspec ⊢
  cases hspec with
  | whole s' hwrote =>
    exact .whole s' (hwrote.takes room h.limit) hwrote.bytes (h.wrote hwrote)
  | part s' fault begun hwrote hbegun hfull hlt =>
    obtain rfl : room = begun.length := Option.some.inj (h.limit.symm.trans hfull)
    refine .part _ s' hlt ?_
    rw [hwrote.bytes, ← List.prefix_iff_eq_take.mp hbegun]

/-- Something that is done to sinks writes to one with limited room what it writes to a willing
one, as far as there is room, and fails where there is not enough. -/
def Steadfast {ε α : Type} (f : Sink → Except ε α × Sink) : Prop :=
  ∀ w : Sink, w.Willing → ∃ out, (f w).2.bytes = w.bytes ++ out ∧ (f w).2.Willing ∧
    ∀ (s : Sink) (room : Nat), s.Limited room → Curtailed (f w).1 out s room (f s).1 (f s).2

theorem steadfast_const {ε α : Type} (result : Except ε α) : Steadfast fun s => (result, s) :=
  fun w hw => ⟨[], (List.append_nil w.bytes).symm, hw, fun _ _ hs => hs.curtailed_nil result⟩

theorem steadfast_writeAll (bytes : Bytes) : Steadfast (writeAll · bytes) := by
  intro w hw
  obtain ⟨w', hwrite, hbytes, hwilling⟩ := hw.writeAll bytes
  simp only [hwrite]
  exact ⟨bytes, hbytes, hwilling, fun s room hs => hs.writeAll bytes⟩

/-- A flush writes nothing, and neither sink makes it fail. -/
theorem steadfast_flush : Steadfast flush := by
  intro w hw
  obtain ⟨w', hflush, hbytes, hwilling⟩ := hw.flush
  refine ⟨[], ?_, ?_, fun s room hs => ?_⟩
  · rw [hflush, hbytes, List.append_nil]
  · rw [hflush]
    exact hwilling
  · obtain ⟨s', hflush', hbytes', hlimited⟩ := hs.flush
    rw [hflush, hflush']
    exact .whole s' (Nat.zero_le _) (by rw [hbytes', List.append_nil]) hlimited

/-- Does something to a sink and goes on with what it leaves, unless it failed. -/
def andThen {ε ε' α : Type} (report : ε → ε') (first : Sink → Except ε Unit × Sink)
    (rest : Sink → Except ε' α × Sink) (s : Sink) : Except ε' α × Sink :=
  match first s with
  | (.error e, s) => (.error (report e), s)
  | (.ok (), s) => rest s

theorem Steadfast.andThen {ε ε' α : Type} (report : ε → ε') {first : Sink → Except ε Unit × Sink}
    {rest : Sink → Except ε' α × Sink} (hfirst : Steadfast first) (hrest : Steadfast rest) :
    Steadfast (andThen report first rest) := by
  intro w hw
  obtain ⟨out, hout, hw', hcut⟩ := hfirst w hw
  unfold Sink.andThen
  generalize first w = onWilling at hout hw' hcut ⊢
  obtain ⟨result, w'⟩ := onWilling
  dsimp only at hout hw' hcut
  cases result with
  | error e =>
    refine ⟨out, hout, hw', fun s room hs => ?_⟩
    specialize hcut s room hs
    generalize first s = onLimited at hcut ⊢
    obtain ⟨result', s'⟩ := onLimited
    cases hcut with
    | whole _ hroom hbytes hlimited => exact .whole s' hroom hbytes hlimited
    | part e' _ hroom hbytes => exact .part _ s' hroom hbytes
  | ok _ =>
    obtain ⟨more, hmore, hw'', hcut'⟩ := hrest w' hw'
    refine ⟨out ++ more, by rw [hmore, hout, List.append_assoc], hw'', fun s room hs => ?_⟩
    specialize hcut s room hs
    generalize first s = onLimited at hcut ⊢
    obtain ⟨result', s'⟩ := onLimited
    cases hcut with
    | whole _ hroom hbytes hlimited =>
      exact .append_whole hroom hbytes (hcut' s' _ hlimited)
    | part e _ hroom hbytes => exact .append_part hroom hbytes more _

end UserVault.Link.Sink
