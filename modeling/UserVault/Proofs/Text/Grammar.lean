import Mathlib.Data.List.Forall2
import UserVault.Proofs.Text.Utf8

/-!
# The grammar of UTF-8

A byte string is well-formed when it is a series of sequences of nine forms, each given by the
least and the greatest value of its bytes.  The narrower ranges after `E0`, `ED`, `F0` and `F4`
keep out overlong forms, surrogates and values above U+10FFFF, and no form can be cut short.
`decode?` reads exactly the well-formed strings, and reads in them the text that they encode.
-/

namespace UserVault.Utf8

/-! ## 1. Well-formed strings -/

/-- The values of a byte that continues a sequence. -/
def tail : UInt8 × UInt8 := (0x80, 0xBF)

/-- The forms of a sequence, with the least and the greatest value of each byte. -/
def forms : List (List (UInt8 × UInt8)) :=
  [[(0x00, 0x7F)],
   [(0xC2, 0xDF), tail],
   [(0xE0, 0xE0), (0xA0, 0xBF), tail],
   [(0xE1, 0xEC), tail, tail],
   [(0xED, 0xED), (0x80, 0x9F), tail],
   [(0xEE, 0xEF), tail, tail],
   [(0xF0, 0xF0), (0x90, 0xBF), tail, tail],
   [(0xF1, 0xF3), tail, tail, tail],
   [(0xF4, 0xF4), (0x80, 0x8F), tail, tail]]

def Within (range : UInt8 × UInt8) (b : UInt8) : Prop :=
  range.1.toNat ≤ b.toNat ∧ b.toNat ≤ range.2.toNat

/-- The bytes are a sequence of this form. -/
def Fits (form : List (UInt8 × UInt8)) (sequence : Bytes) : Prop :=
  List.Forall₂ Within form sequence

inductive WellFormed : Bytes → Prop
  | nil : WellFormed []
  | cons {form : List (UInt8 × UInt8)} {sequence rest : Bytes} (hform : form ∈ forms)
      (hfits : Fits form sequence) (hrest : WellFormed rest) : WellFormed (sequence ++ rest)

/-! ## 2. A sequence is read as a character -/

/-- The bytes that a leading byte promises. -/
def Lead.followers (lead : Lead) : List (UInt8 × UInt8) :=
  match lead.more with
  | 0 => []
  | more + 1 => (lead.low, lead.high) :: List.replicate more tail

instance (range : UInt8 × UInt8) (b : UInt8) : Decidable (Within range b) :=
  inferInstanceAs (Decidable (_ ∧ _))

/-- Whether a form says of a leading byte what `lead?` says, if it is about this byte. -/
def formAgrees (form : List (UInt8 × UInt8)) (b : UInt8) : Bool :=
  match form with
  | [] => true
  | first :: others => !decide (Within first b) || (lead? b).map Lead.followers = some others

/-- The forms say of each leading byte what `lead?` says. -/
theorem followers_of_form {first : UInt8 × UInt8} {others : List (UInt8 × UInt8)} {b : UInt8}
    (hform : first :: others ∈ forms) (hb : Within first b) :
    (lead? b).map Lead.followers = some others := by
  have hall : (forms.all fun form => (List.range 256).all fun n =>
      formAgrees form (UInt8.ofNat n)) = true := by
    decide +kernel
  have hone := List.all_eq_true.mp (List.all_eq_true.mp hall _ hform) b.toNat
    (List.mem_range.mpr b.toNat_lt)
  rw [UInt8.ofNat_toNat] at hone
  simpa [formAgrees, hb] using hone

/-- Promised bytes that stand there are taken. -/
theorem continuation_of_fits {more : Nat} {low high : UInt8} {sequence : Bytes} (bits : Nat)
    (rest : Bytes) (hfits : Fits ((low, high) :: List.replicate more tail) sequence) :
    ∃ code, continuation (more + 1) low high bits (sequence ++ rest) = (some code, rest) := by
  induction more generalizing low high bits sequence with
  | zero =>
    cases hfits with
    | cons hb hnone =>
      cases hnone
      rw [List.singleton_append, continuation,
        if_pos ⟨UInt8.le_iff_toNat_le.mpr hb.1, UInt8.le_iff_toNat_le.mpr hb.2⟩]
      exact ⟨_, rfl⟩
  | succ more ih =>
    cases hfits with
    | cons hb hothers =>
      rw [List.cons_append, continuation,
        if_pos ⟨UInt8.le_iff_toNat_le.mpr hb.1, UInt8.le_iff_toNat_le.mpr hb.2⟩]
      exact ih _ hothers

theorem next_of_fits {form : List (UInt8 × UInt8)} {b : UInt8} {others : Bytes} (rest : Bytes)
    (hform : form ∈ forms) (hfits : Fits form (b :: others)) :
    ∃ c, next b (others ++ rest) = (some c, rest) := by
  cases hfits with
  | cons hb hothers =>
    obtain ⟨lead, hlead, rfl⟩ := Option.map_eq_some_iff.mp (followers_of_form hform hb)
    unfold next
    rw [hlead]
    obtain ⟨more, low, high, bits⟩ := lead
    cases more with
    | zero =>
      cases hothers
      exact ⟨_, rfl⟩
    | succ more =>
      obtain ⟨code, hcode⟩ := continuation_of_fits bits rest hothers
      exact ⟨Char.ofNat code, by simp only [hcode, Option.map_some]⟩

theorem exists_cons_of_fits {form : List (UInt8 × UInt8)} {sequence : Bytes} (hform : form ∈ forms)
    (hfits : Fits form sequence) : ∃ b others, sequence = b :: others := by
  cases hfits with
  | nil => exact absurd hform (by decide)
  | cons _ _ => exact ⟨_, _, rfl⟩

theorem exists_text_of_wellFormed {bytes : Bytes} (h : WellFormed bytes) :
    ∃ text, decode? bytes = some text := by
  induction h with
  | nil => exact ⟨[], by rw [decode?]⟩
  | @cons form sequence rest hform hfits _ ih =>
    obtain ⟨text, htext⟩ := ih
    obtain ⟨b, others, rfl⟩ := exists_cons_of_fits hform hfits
    obtain ⟨c, hnext⟩ := next_of_fits rest hform hfits
    exact ⟨c :: text, by rw [List.cons_append, decode?, hnext, htext]; rfl⟩

/-! ## 3. A character is written as a sequence -/

/-- The number of a character is no surrogate and not above U+10FFFF. -/
theorem code_bounds (c : Char) :
    c.val.toNat < 0xD800 ∨ 0xDFFF < c.val.toNat ∧ c.val.toNat < 0x110000 := c.valid

private theorem within_ofNat (low high : UInt8) {n : Nat} (hlow : low.toNat ≤ n)
    (hhigh : n ≤ high.toNat) : Within (low, high) (UInt8.ofNat n) := by
  have hlt : n < 256 := Nat.lt_of_le_of_lt hhigh high.toNat_lt
  rw [Within, UInt8.toNat_ofNat', Nat.mod_eq_of_lt hlt]
  exact ⟨hlow, hhigh⟩

private theorem within_tail (n : Nat) : Within tail (UInt8.ofNat (n % 64 + 128)) := by
  apply within_ofNat
  · show 128 ≤ n % 64 + 128
    omega
  · show n % 64 + 128 ≤ 191
    omega

/-- Where three bytes are written, the number is told apart by the leading byte: after `E0` it
would be overlong, and after `ED` a surrogate, if the second byte could be any. -/
private theorem exists_form_three {v : Nat} (hlow : 0x800 ≤ v) (hhigh : v < 0x10000)
    (hsurrogate : v < 0xD800 ∨ 0xDFFF < v) :
    ∃ form ∈ forms, Fits form [UInt8.ofNat (v / 4096 % 16 + 0xE0),
      UInt8.ofNat (v / 64 % 64 + 128), UInt8.ofNat (v % 64 + 128)] := by
  have hlast := List.Forall₂.cons (within_tail v) .nil
  have htwo := List.Forall₂.cons (within_tail (v / 64)) hlast
  by_cases hE0 : v < 0x1000
  · refine ⟨[(0xE0, 0xE0), (0xA0, 0xBF), tail], by decide,
      .cons (within_ofNat _ _ ?_ ?_) (.cons (within_ofNat _ _ ?_ ?_) hlast)⟩ <;>
      simp only [UInt8.reduceToNat] <;> omega
  by_cases hEC : v < 0xD000
  · refine ⟨[(0xE1, 0xEC), tail, tail], by decide, .cons (within_ofNat _ _ ?_ ?_) htwo⟩ <;>
      simp only [UInt8.reduceToNat] <;> omega
  by_cases hED : v < 0xD800
  · refine ⟨[(0xED, 0xED), (0x80, 0x9F), tail], by decide,
      .cons (within_ofNat _ _ ?_ ?_) (.cons (within_ofNat _ _ ?_ ?_) hlast)⟩ <;>
      simp only [UInt8.reduceToNat] <;> omega
  · refine ⟨[(0xEE, 0xEF), tail, tail], by decide, .cons (within_ofNat _ _ ?_ ?_) htwo⟩ <;>
      simp only [UInt8.reduceToNat] <;> omega

/-- Where four bytes are written, the number would be overlong after `F0`, and too great after
`F4`, if the second byte could be any. -/
private theorem exists_form_four {v : Nat} (hlow : 0x10000 ≤ v) (hhigh : v < 0x110000) :
    ∃ form ∈ forms, Fits form [UInt8.ofNat (v / 262144 % 8 + 0xF0),
      UInt8.ofNat (v / 4096 % 64 + 128), UInt8.ofNat (v / 64 % 64 + 128),
      UInt8.ofNat (v % 64 + 128)] := by
  have htwo := List.Forall₂.cons (within_tail (v / 64)) (.cons (within_tail v) .nil)
  have hthree := List.Forall₂.cons (within_tail (v / 4096)) htwo
  by_cases hF0 : v < 0x40000
  · refine ⟨[(0xF0, 0xF0), (0x90, 0xBF), tail, tail], by decide,
      .cons (within_ofNat _ _ ?_ ?_) (.cons (within_ofNat _ _ ?_ ?_) htwo)⟩ <;>
      simp only [UInt8.reduceToNat] <;> omega
  by_cases hF3 : v < 0x100000
  · refine ⟨[(0xF1, 0xF3), tail, tail, tail], by decide,
      .cons (within_ofNat _ _ ?_ ?_) hthree⟩ <;>
      simp only [UInt8.reduceToNat] <;> omega
  · refine ⟨[(0xF4, 0xF4), (0x80, 0x8F), tail, tail], by decide,
      .cons (within_ofNat _ _ ?_ ?_) (.cons (within_ofNat _ _ ?_ ?_) htwo)⟩ <;>
      simp only [UInt8.reduceToNat] <;> omega

theorem exists_form (c : Char) : ∃ form ∈ forms, Fits form (String.utf8EncodeChar c) := by
  have hbounds := code_bounds c
  unfold String.utf8EncodeChar
  dsimp only
  generalize c.val.toNat = v at hbounds
  split
  next hone =>
    refine ⟨[(0x00, 0x7F)], by decide, .cons (within_ofNat _ _ ?_ ?_) .nil⟩ <;>
      simp only [UInt8.reduceToNat] <;> omega
  next hone =>
    split
    next htwo =>
      refine ⟨[(0xC2, 0xDF), tail], by decide,
        .cons (within_ofNat _ _ ?_ ?_) (.cons (within_tail _) .nil)⟩ <;>
        simp only [UInt8.reduceToNat] <;> omega
    next htwo =>
      split
      next hthree => exact exists_form_three (by omega) (by omega) (by omega)
      next hthree => exact exists_form_four (by omega) (by omega)

theorem wellFormed_encode (text : List Char) : WellFormed (encode text) := by
  induction text with
  | nil => exact .nil
  | cons c text ih =>
    obtain ⟨form, hform, hfits⟩ := exists_form c
    exact .cons hform hfits ih

/-- The well-formed strings are those that are read, and those that are written. -/
theorem wellFormed_iff {bytes : Bytes} : WellFormed bytes ↔ ∃ text, decode? bytes = some text := by
  constructor
  · exact exists_text_of_wellFormed
  · rintro ⟨text, htext⟩
    rw [← encode_of_decode? htext]
    exact wellFormed_encode text

theorem decode?_eq_none {bytes : Bytes} : decode? bytes = none ↔ ¬WellFormed bytes := by
  rw [wellFormed_iff, ← Option.isSome_iff_exists, Option.not_isSome_iff_eq_none]

/-! ## 4. Reading what was written -/

theorem encode_injective {text text' : List Char} (h : encode text = encode text') :
    text = text' := by
  apply String.ofList_injective
  apply String.toByteArray_inj.mp
  show (encode text).toByteArray = (encode text').toByteArray
  rw [h]

theorem decode?_encode (text : List Char) : decode? (encode text) = some text := by
  obtain ⟨text', hread⟩ := exists_text_of_wellFormed (wellFormed_encode text)
  rw [hread, encode_injective (encode_of_decode? hread)]

theorem decode?_eq_some {bytes : Bytes} {text : List Char} :
    decode? bytes = some text ↔ encode text = bytes :=
  ⟨encode_of_decode?, fun h => h ▸ decode?_encode text⟩

end UserVault.Utf8
