import UserVault.Proofs.Link.Capacity

/-!
# Willing sinks

A sink is willing if no write and no flush to it fails, however little it takes at once.
-/

namespace UserVault.Link.Sink

/-- A sink that takes all that is written to it, be it in many pieces. -/
structure Willing (s : Sink) : Prop where
  room : s.room = none
  maxWrite : s.maxWrite ≠ some 0
  flushFault : s.flushFault = none

@[simp] theorem bytes_forget (s : Sink) : s.forget.bytes = [] := rfl

theorem Willing.forget {s : Sink} (h : s.Willing) : s.forget.Willing :=
  ⟨h.room, h.maxWrite, h.flushFault⟩

theorem Willing.limit {s : Sink} (h : s.Willing) : s.limit = none := by
  rw [Sink.limit, if_neg h.maxWrite, h.room]

theorem Willing.takes {s : Sink} (h : s.Willing) (count : Nat) : s.Takes count := by
  intro limit hlimit
  rw [h.limit] at hlimit
  cases hlimit

theorem Willing.wrote {s s' : Sink} {out : Bytes} (h : s.Willing) (hwrote : s.Wrote s' out) :
    s'.Willing where
  room := by rw [hwrote.room, h.room, Option.map_none]
  maxWrite := by rw [hwrote.maxWrite]; exact h.maxWrite
  flushFault := hwrote.flushFault.trans h.flushFault

theorem Willing.writeAll {s : Sink} (h : s.Willing) (bytes : Bytes) :
    ∃ s', s.writeAll bytes = (.ok (), s') ∧ s'.bytes = s.bytes ++ bytes ∧ s'.Willing := by
  have hspec := s.writeAll_spec bytes
  generalize s.writeAll bytes = result at hspec ⊢
  cases hspec with
  | whole s' hwrote => exact ⟨s', rfl, hwrote.bytes, h.wrote hwrote⟩
  | part s' fault begun hwrote hprefix hfull => cases h.limit.symm.trans hfull

theorem Willing.flush {s : Sink} (h : s.Willing) :
    ∃ s', s.flush = (.ok (), s') ∧ s'.bytes = s.bytes ∧ s'.Willing := by
  obtain ⟨s', hwrote, hflush⟩ := s.flush_eq
  rw [h.flushFault] at hflush
  exact ⟨s', hflush, hwrote.bytes.trans (List.append_nil _), h.wrote hwrote⟩

end UserVault.Link.Sink
