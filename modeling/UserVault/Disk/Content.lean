import UserVault.Bytes

/-!
# File content

The content of a file is a run of written bytes and, after them, a run of zero bytes that were
never written.  The written bytes are kept in reverse, so that writing at the end costs no more
than what is written; `bytes` is the content as a reader sees it.
-/

namespace UserVault.Disk

structure Content where
  /-- The written bytes, the last one first. -/
  written : Bytes := []
  /-- How many there are. -/
  count : Nat := 0
  /-- The number of zero bytes after them. -/
  zeros : Nat := 0
  count_eq : count = written.length

namespace Content

def bytes (c : Content) : Bytes := c.written.reverse ++ List.replicate c.zeros 0

def size (c : Content) : Nat := c.count + c.zeros

def ofBytes (bytes : Bytes) : Content where
  written := bytes.reverse
  count := bytes.length
  count_eq := by simp

/-- No bytes. -/
def empty : Content := ⟨[], 0, 0, rfl⟩

/-- `size` bytes, all zero. -/
def sparse (size : Nat) : Content := ⟨[], 0, size, rfl⟩

/-- Puts `bytes` in place of what stands at `offset`, or after zeros where nothing does. -/
def writeAt (c : Content) (offset : Nat) (bytes : Bytes) : Content :=
  if offset = c.count ∧ c.zeros = 0 then
    { written := bytes.reverse ++ c.written
      count := c.count + bytes.length
      count_eq := by simp [c.count_eq, Nat.add_comm] }
  else
    let old := c.written.reverse
    let stop := offset + bytes.length
    let whole := old.take offset ++ List.replicate (offset - old.length) 0 ++ bytes ++ old.drop stop
    { written := whole.reverse
      count := whole.length
      zeros := if stop ≤ c.count then c.zeros else c.size - stop
      count_eq := by simp }

theorem length_bytes (c : Content) : c.bytes.length = c.size := by
  simp [bytes, size, c.count_eq]

@[simp] theorem bytes_ofBytes (bytes : Bytes) : (ofBytes bytes).bytes = bytes := by
  simp [ofBytes, Content.bytes]

/-- Writing at the end appends. -/
theorem bytes_writeAt_size (c : Content) (bytes : Bytes) :
    (c.writeAt c.size bytes).bytes = c.bytes ++ bytes := by
  unfold writeAt
  by_cases hz : c.zeros = 0
  · have hs : c.size = c.count := by simp [size, hz]
    simp [hs, hz, Content.bytes]
  · have hlen : c.written.length = c.count := c.count_eq.symm
    have htake : c.written.reverse.take c.size = c.written.reverse :=
      List.take_of_length_le (by simp [size, hlen])
    have hdrop : c.written.reverse.drop (c.size + bytes.length) = [] :=
      List.drop_of_length_le (by simp [size, hlen]; omega)
    have hpad : c.size - c.written.reverse.length = c.zeros := by simp [size, hlen]
    have hstop : ¬c.size + bytes.length ≤ c.count := by simp only [size]; omega
    have hzeros : c.size - (c.size + bytes.length) = 0 := by omega
    have hne : ¬(c.size = c.count ∧ c.zeros = 0) := fun h => hz h.2
    simp only [hne, if_false, htake, hdrop, hpad, hstop, hzeros, Content.bytes,
      List.reverse_reverse, List.append_nil, List.replicate_zero]

end Content

end UserVault.Disk
