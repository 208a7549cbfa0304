import UserVault.Bytes

/-!
# UTF-8

`decode?` reads a byte string as text and refuses what is not well-formed: overlong forms,
surrogates, values above U+10FFFF and truncated sequences.  `repair` makes any byte string
well-formed by putting U+FFFD for each longest broken piece.
-/

namespace UserVault.Utf8

/-- The bytes of a text. -/
def encode (text : List Char) : Bytes :=
  text.flatMap String.utf8EncodeChar

/-- The bytes of a string. -/
def ofString (s : String) : Bytes :=
  encode s.toList

/-- What a leading byte promises. -/
structure Lead where
  /-- How many continuation bytes follow. -/
  more : Nat
  /-- The least value of the first of them. -/
  low : UInt8 := 0x80
  /-- The greatest value of the first of them. -/
  high : UInt8 := 0xBF
  /-- The bits that the leading byte itself carries. -/
  bits : Nat

/-- The bounds on the byte after `E0`, `ED`, `F0` and `F4` keep out overlong forms, surrogates
and values above U+10FFFF; `80` to `C1` and `F5` to `FF` lead nothing. -/
def lead? (b : UInt8) : Option Lead :=
  if b < 0x80 then some { more := 0, bits := b.toNat }
  else if b < 0xC2 then none
  else if b < 0xE0 then some { more := 1, bits := b.toNat - 0xC0 }
  else if b = 0xE0 then some { more := 2, low := 0xA0, bits := 0 }
  else if b = 0xED then some { more := 2, high := 0x9F, bits := 0xD }
  else if b < 0xF0 then some { more := 2, bits := b.toNat - 0xE0 }
  else if b = 0xF0 then some { more := 3, low := 0x90, bits := 0 }
  else if b < 0xF4 then some { more := 3, bits := b.toNat - 0xF0 }
  else if b = 0xF4 then some { more := 3, high := 0x8F, bits := 4 }
  else none

/-- Reads `more` continuation bytes, the first between `low` and `high`, onto the bits so far.
Where one is missing, the rest starts with the byte that stands in its place. -/
def continuation : (more : Nat) → (low high : UInt8) → (bits : Nat) → Bytes → Option Nat × Bytes
  | 0, _, _, bits, rest => (some bits, rest)
  | _ + 1, _, _, _, [] => (none, [])
  | more + 1, low, high, bits, b :: rest =>
    if low ≤ b ∧ b ≤ high then
      continuation more 0x80 0xBF (bits * 64 + (b.toNat - 0x80)) rest
    else (none, b :: rest)

/-- The character at the front of `b :: rest`, if one stands there, and what follows it.  Where
none does, what follows is what comes after the longest piece that could have begun one. -/
def next (b : UInt8) (rest : Bytes) : Option Char × Bytes :=
  match lead? b with
  | none => (none, rest)
  | some lead =>
    let (code, rest) := continuation lead.more lead.low lead.high lead.bits rest
    (code.map Char.ofNat, rest)

theorem length_continuation_le (more : Nat) (low high : UInt8) (bits : Nat) (rest : Bytes) :
    (continuation more low high bits rest).2.length ≤ rest.length := by
  fun_induction continuation more low high bits rest with
  | case1 => exact Nat.le_refl _
  | case2 => exact Nat.le_refl _
  | case3 _ _ _ _ _ _ _ ih => exact Nat.le_succ_of_le ih
  | case4 => exact Nat.le_refl _

theorem length_next_le (b : UInt8) (rest : Bytes) : (next b rest).2.length ≤ rest.length := by
  unfold next
  split
  · exact Nat.le_refl _
  · exact length_continuation_le ..

/-- The text that `bs` encodes, if it is well-formed. -/
def decode? : Bytes → Option (List Char)
  | [] => some []
  | b :: rest =>
    match (next b rest).1 with
    | some c => (decode? (next b rest).2).map (c :: ·)
    | none => none
termination_by bs => bs.length
decreasing_by exact Nat.lt_succ_of_le (length_next_le b rest)

/-- The character that stands for what is no character. -/
def replacement : Char := '\ufffd'

/-- The characters of `bs` in their order, with the replacement character in place of each
longest piece that is no character. -/
def repaired : Bytes → List Char
  | [] => []
  | b :: rest => (next b rest).1.getD replacement :: repaired (next b rest).2
termination_by bs => bs.length
decreasing_by exact Nat.lt_succ_of_le (length_next_le b rest)

/-- The bytes of the repaired text. -/
def repair (bs : Bytes) : Bytes := encode (repaired bs)

end UserVault.Utf8
