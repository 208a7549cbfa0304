import UserVault.Text.Utf8

/-!
# Well-formed text is its own encoding

Whatever `Utf8.decode?` takes for text is the encoding of that text, byte for byte, so repairing it
changes nothing, and a byte below 128 stands in it for the character of that number only.
-/

namespace UserVault.Utf8

/-! ## 1. The encoding of one character -/

private theorem ofNat_eq {n : Nat} {b : UInt8} (h : n = b.toNat) : UInt8.ofNat n = b := by
  rw [h, UInt8.ofNat_toNat]

theorem toNat_ofNat (code : Nat) (h : code < 0xD800 ∨ 0xDFFF < code ∧ code < 0x110000) :
    (Char.ofNat code).val.toNat = code := by
  have hvalid : code.isValidChar := h
  rw [Char.ofNat, dif_pos hvalid]
  rfl

theorem encodeChar_one {b : UInt8} (hb : b.toNat < 0x80) :
    String.utf8EncodeChar (Char.ofNat b.toNat) = [b] := by
  have hcode := toNat_ofNat b.toNat (by omega)
  rw [String.utf8EncodeChar, hcode, if_pos (by omega), UInt8.ofNat_toNat]

theorem encodeChar_two {b b₁ : UInt8} {code : Nat} (hb : 0xC2 ≤ b.toNat) (hb' : b.toNat < 0xE0)
    (h₁ : 0x80 ≤ b₁.toNat) (h₁' : b₁.toNat ≤ 0xBF)
    (hcode : code = (b.toNat - 0xC0) * 64 + (b₁.toNat - 0x80)) :
    String.utf8EncodeChar (Char.ofNat code) = [b, b₁] := by
  have hval := toNat_ofNat code (by omega)
  rw [String.utf8EncodeChar, hval, if_neg (by omega), if_pos (by omega)]
  rw [ofNat_eq (b := b) (by omega), ofNat_eq (b := b₁) (by omega)]

theorem encodeChar_three {b b₁ b₂ : UInt8} (bits : Nat) {code : Nat} (hb : b.toNat = 0xE0 + bits)
    (hbits : bits < 16) (h₁ : 0x80 ≤ b₁.toNat) (h₁' : b₁.toNat ≤ 0xBF) (h₂ : 0x80 ≤ b₂.toNat)
    (h₂' : b₂.toNat ≤ 0xBF) (hlow : 0x800 ≤ code) (hsurrogate : code < 0xD800 ∨ 0xDFFF < code)
    (hcode : code = (bits * 64 + (b₁.toNat - 0x80)) * 64 + (b₂.toNat - 0x80)) :
    String.utf8EncodeChar (Char.ofNat code) = [b, b₁, b₂] := by
  have hval := toNat_ofNat code (by omega)
  rw [String.utf8EncodeChar, hval, if_neg (by omega), if_neg (by omega), if_pos (by omega)]
  rw [ofNat_eq (b := b) (by omega), ofNat_eq (b := b₁) (by omega), ofNat_eq (b := b₂) (by omega)]

theorem encodeChar_four {b b₁ b₂ b₃ : UInt8} (bits : Nat) {code : Nat} (hb : b.toNat = 0xF0 + bits)
    (hbits : bits < 5) (h₁ : 0x80 ≤ b₁.toNat) (h₁' : b₁.toNat ≤ 0xBF) (h₂ : 0x80 ≤ b₂.toNat)
    (h₂' : b₂.toNat ≤ 0xBF) (h₃ : 0x80 ≤ b₃.toNat) (h₃' : b₃.toNat ≤ 0xBF)
    (hlow : 0x10000 ≤ code) (hhigh : code < 0x110000)
    (hcode : code =
      ((bits * 64 + (b₁.toNat - 0x80)) * 64 + (b₂.toNat - 0x80)) * 64 + (b₃.toNat - 0x80)) :
    String.utf8EncodeChar (Char.ofNat code) = [b, b₁, b₂, b₃] := by
  have hval := toNat_ofNat code (by omega)
  rw [String.utf8EncodeChar, hval, if_neg (by omega), if_neg (by omega), if_neg (by omega)]
  rw [ofNat_eq (b := b) (by omega), ofNat_eq (b := b₁) (by omega), ofNat_eq (b := b₂) (by omega),
    ofNat_eq (b := b₃) (by omega)]

/-! ## 2. One character at the front -/

/-- A continuation byte that is taken lies within the bounds. -/
theorem continuation_succ {more bits code : Nat} {low high : UInt8} {bytes rest : Bytes}
    (h : continuation (more + 1) low high bits bytes = (some code, rest)) :
    ∃ b bytes', bytes = b :: bytes' ∧ low.toNat ≤ b.toNat ∧ b.toNat ≤ high.toNat ∧
      continuation more 0x80 0xBF (bits * 64 + (b.toNat - 0x80)) bytes' = (some code, rest) := by
  cases bytes with
  | nil => simp [continuation] at h
  | cons b bytes' =>
    rw [continuation] at h
    by_cases hb : low ≤ b ∧ b ≤ high
    · rw [if_pos hb] at h
      exact ⟨b, bytes', rfl, UInt8.le_iff_toNat_le.mp hb.1, UInt8.le_iff_toNat_le.mp hb.2, h⟩
    · rw [if_neg hb] at h
      simp at h

theorem continuation_one {bits code : Nat} {low high : UInt8} {bytes rest : Bytes}
    (h : continuation 1 low high bits bytes = (some code, rest)) :
    ∃ b, bytes = b :: rest ∧ low.toNat ≤ b.toNat ∧ b.toNat ≤ high.toNat ∧
      code = bits * 64 + (b.toNat - 0x80) := by
  obtain ⟨b, bytes', rfl, hlow, hhigh, h⟩ := continuation_succ h
  simp only [continuation, Prod.mk.injEq, Option.some.injEq] at h
  exact ⟨b, by rw [h.2], hlow, hhigh, h.1.symm⟩

theorem continuation_two {bits code : Nat} {low high : UInt8} {bytes rest : Bytes}
    (h : continuation 2 low high bits bytes = (some code, rest)) :
    ∃ b₁ b₂, bytes = b₁ :: b₂ :: rest ∧ low.toNat ≤ b₁.toNat ∧ b₁.toNat ≤ high.toNat ∧
      0x80 ≤ b₂.toNat ∧ b₂.toNat ≤ 0xBF ∧
      code = (bits * 64 + (b₁.toNat - 0x80)) * 64 + (b₂.toNat - 0x80) := by
  obtain ⟨b₁, bytes', rfl, hlow, hhigh, h⟩ := continuation_succ h
  obtain ⟨b₂, rfl, hlow₂, hhigh₂, hcode⟩ := continuation_one h
  exact ⟨b₁, b₂, rfl, hlow, hhigh, hlow₂, hhigh₂, hcode⟩

theorem continuation_three {bits code : Nat} {low high : UInt8} {bytes rest : Bytes}
    (h : continuation 3 low high bits bytes = (some code, rest)) :
    ∃ b₁ b₂ b₃, bytes = b₁ :: b₂ :: b₃ :: rest ∧ low.toNat ≤ b₁.toNat ∧ b₁.toNat ≤ high.toNat ∧
      0x80 ≤ b₂.toNat ∧ b₂.toNat ≤ 0xBF ∧ 0x80 ≤ b₃.toNat ∧ b₃.toNat ≤ 0xBF ∧
      code =
        ((bits * 64 + (b₁.toNat - 0x80)) * 64 + (b₂.toNat - 0x80)) * 64 + (b₃.toNat - 0x80) := by
  obtain ⟨b₁, bytes', rfl, hlow, hhigh, h⟩ := continuation_succ h
  obtain ⟨b₂, b₃, rfl, hlow₂, hhigh₂, hlow₃, hhigh₃, hcode⟩ := continuation_two h
  exact ⟨b₁, b₂, b₃, rfl, hlow, hhigh, hlow₂, hhigh₂, hlow₃, hhigh₃, hcode⟩

/-- What a leading byte promises follows from the range that it is in. -/
theorem lead?_cases {b : UInt8} {lead : Lead} (h : lead? b = some lead) :
    (b.toNat < 0x80 ∧ lead = { more := 0, bits := b.toNat }) ∨
    (0xC2 ≤ b.toNat ∧ b.toNat < 0xE0 ∧ lead = { more := 1, bits := b.toNat - 0xC0 }) ∨
    (b.toNat = 0xE0 ∧ lead = { more := 2, low := 0xA0, bits := 0 }) ∨
    (b.toNat = 0xED ∧ lead = { more := 2, high := 0x9F, bits := 0xD }) ∨
    (0xE0 < b.toNat ∧ b.toNat < 0xF0 ∧ b.toNat ≠ 0xED ∧
      lead = { more := 2, bits := b.toNat - 0xE0 }) ∨
    (b.toNat = 0xF0 ∧ lead = { more := 3, low := 0x90, bits := 0 }) ∨
    (0xF0 < b.toNat ∧ b.toNat < 0xF4 ∧ lead = { more := 3, bits := b.toNat - 0xF0 }) ∨
    (b.toNat = 0xF4 ∧ lead = { more := 3, high := 0x8F, bits := 4 }) := by
  simp only [lead?, UInt8.lt_iff_toNat_lt, ← UInt8.toNat_inj] at h
  repeat' split at h
  all_goals simp_all
  all_goals omega

/-- A character at the front stands there as it is encoded. -/
theorem next_eq_some {b : UInt8} {bytes rest : Bytes} {c : Char}
    (h : next b bytes = (some c, rest)) : b :: bytes = String.utf8EncodeChar c ++ rest := by
  unfold next at h
  split at h
  next => simp at h
  next lead hlead =>
    obtain ⟨code, hcontinuation, rfl⟩ : ∃ code,
        continuation lead.more lead.low lead.high lead.bits bytes = (some code, rest) ∧
          Char.ofNat code = c := by
      generalize continuation lead.more lead.low lead.high lead.bits bytes = result at h
      obtain ⟨code?, rest'⟩ := result
      cases code? with
      | none => simp at h
      | some code =>
        simp only [Option.map_some, Prod.mk.injEq, Option.some.injEq] at h
        exact ⟨code, by rw [h.2], h.1⟩
    rcases lead?_cases hlead with ⟨hb, rfl⟩ | ⟨hb, hb', rfl⟩ | ⟨hb, rfl⟩ | ⟨hb, rfl⟩ |
      ⟨hb, hb', hb'', rfl⟩ | ⟨hb, rfl⟩ | ⟨hb, hb', rfl⟩ | ⟨hb, rfl⟩ <;>
      dsimp only at hcontinuation
    -- one byte; two; three, with the first and the last lead bytes apart; and four, likewise
    · simp only [continuation, Prod.mk.injEq, Option.some.injEq] at hcontinuation
      rw [← hcontinuation.1, encodeChar_one hb, hcontinuation.2]
      rfl
    · obtain ⟨b₁, rfl, h₁, h₁', hcode⟩ := continuation_one hcontinuation
      simp only [UInt8.reduceToNat] at h₁ h₁'
      rw [encodeChar_two hb hb' h₁ h₁' hcode]
      rfl
    · obtain ⟨b₁, b₂, rfl, h₁, h₁', h₂, h₂', hcode⟩ := continuation_two hcontinuation
      simp only [UInt8.reduceToNat] at h₁ h₁'
      rw [encodeChar_three (b := b) 0 (by omega) (by omega) (by omega) h₁' h₂ h₂'
        (by omega) (by omega) hcode]
      rfl
    · obtain ⟨b₁, b₂, rfl, h₁, h₁', h₂, h₂', hcode⟩ := continuation_two hcontinuation
      simp only [UInt8.reduceToNat] at h₁ h₁'
      rw [encodeChar_three (b := b) 0xD (by omega) (by omega) h₁ (by omega) h₂ h₂'
        (by omega) (by omega) hcode]
      rfl
    · obtain ⟨b₁, b₂, rfl, h₁, h₁', h₂, h₂', hcode⟩ := continuation_two hcontinuation
      simp only [UInt8.reduceToNat] at h₁ h₁'
      rw [encodeChar_three (b := b) (b.toNat - 0xE0) (by omega) (by omega) h₁ h₁' h₂ h₂'
        (by omega) (by omega) hcode]
      rfl
    · obtain ⟨b₁, b₂, b₃, rfl, h₁, h₁', h₂, h₂', h₃, h₃', hcode⟩ :=
        continuation_three hcontinuation
      simp only [UInt8.reduceToNat] at h₁ h₁'
      rw [encodeChar_four (b := b) 0 (by omega) (by omega) (by omega) h₁' h₂ h₂' h₃ h₃'
        (by omega) (by omega) hcode]
      rfl
    · obtain ⟨b₁, b₂, b₃, rfl, h₁, h₁', h₂, h₂', h₃, h₃', hcode⟩ :=
        continuation_three hcontinuation
      simp only [UInt8.reduceToNat] at h₁ h₁'
      rw [encodeChar_four (b := b) (b.toNat - 0xF0) (by omega) (by omega) h₁ h₁' h₂ h₂'
        h₃ h₃' (by omega) (by omega) hcode]
      rfl
    · obtain ⟨b₁, b₂, b₃, rfl, h₁, h₁', h₂, h₂', h₃, h₃', hcode⟩ :=
        continuation_three hcontinuation
      simp only [UInt8.reduceToNat] at h₁ h₁'
      rw [encodeChar_four (b := b) 4 (by omega) (by omega) h₁ (by omega) h₂ h₂' h₃ h₃'
        (by omega) (by omega) hcode]
      rfl

/-! ## 3. Whole texts -/

theorem encode_of_decode? {bytes : Bytes} {text : List Char} (h : decode? bytes = some text) :
    encode text = bytes := by
  fun_induction decode? bytes generalizing text with
  | case1 =>
    cases h
    rfl
  | case2 b rest c hc ih =>
    cases htail : decode? (next b rest).2 with
    | none => simp [htail] at h
    | some tail =>
      rw [htail] at h
      cases h
      rw [next_eq_some (Prod.ext hc rfl : next b rest = (some c, (next b rest).2)), ← ih htail]
      rfl
  | case3 b rest hnone => cases h

theorem repaired_of_decode? {bytes : Bytes} {text : List Char} (h : decode? bytes = some text) :
    repaired bytes = text := by
  fun_induction decode? bytes generalizing text with
  | case1 =>
    cases h
    rw [repaired]
  | case2 b rest c hc ih =>
    cases htail : decode? (next b rest).2 with
    | none => simp [htail] at h
    | some tail =>
      rw [htail] at h
      cases h
      rw [repaired, hc, ih htail]
      rfl
  | case3 b rest hnone => cases h

/-- Repairing well-formed text changes nothing. -/
theorem repair_of_decode? {bytes : Bytes} {text : List Char} (h : decode? bytes = some text) :
    repair bytes = bytes := by
  rw [repair, repaired_of_decode? h, encode_of_decode? h]

/-- A byte below 128 in an encoded text is the character of that number. -/
theorem code_of_mem_encodeChar {c : Char} {b : UInt8} (hb : b.toNat < 128)
    (h : b ∈ String.utf8EncodeChar c) : c.val.toNat = b.toNat := by
  have hbyte {n : Nat} (hn : n < 256) (h : b = UInt8.ofNat n) : n = b.toNat := by
    rw [h, UInt8.toNat_ofNat', Nat.mod_eq_of_lt hn]
  -- the bytes of a longer sequence are all above 127
  have hhigh {n : Nat} (hn : n < 256) (hlow : 128 ≤ n) : b ≠ UInt8.ofNat n := by
    intro h
    have hcode := hbyte hn h
    omega
  unfold String.utf8EncodeChar at h
  dsimp only at h
  generalize c.val.toNat = v at h ⊢
  split at h
  · exact (hbyte (by omega) (List.mem_singleton.mp h))
  split at h
  · simp only [List.mem_cons, List.not_mem_nil, or_false] at h
    rcases h with h | h <;> exact absurd h (hhigh (by omega) (by omega))
  split at h
  · simp only [List.mem_cons, List.not_mem_nil, or_false] at h
    rcases h with h | h | h <;> exact absurd h (hhigh (by omega) (by omega))
  · simp only [List.mem_cons, List.not_mem_nil, or_false] at h
    rcases h with h | h | h | h <;> exact absurd h (hhigh (by omega) (by omega))

/-- Such a byte stands in a text where the character does, and nowhere else. -/
theorem mem_encode_iff {text : List Char} {c : Char} {b : UInt8} (hb : b.toNat < 128)
    (hc : c.val.toNat = b.toNat) : b ∈ encode text ↔ c ∈ text := by
  rw [encode, List.mem_flatMap]
  constructor
  · rintro ⟨c', hmem, hbyte⟩
    have heq : c' = c := by
      apply Char.ext
      apply UInt32.toNat_inj.mp
      rw [code_of_mem_encodeChar hb hbyte, hc]
    rw [← heq]
    exact hmem
  · intro hmem
    refine ⟨c, hmem, ?_⟩
    rw [String.utf8EncodeChar, hc, if_pos (by omega), ofNat_eq rfl]
    exact List.mem_singleton_self b

end UserVault.Utf8
