import UserVault.Proofs.Text.Grammar
import UserVault.Proofs.Vault.Layout

/-!
# Which names are accepted

A name has to be well-formed, to have between 1 and 255 bytes, to be no step that a path takes
in a special way, and to hold none of four characters.  The check reads the text of the name;
said of its bytes the rules are the same, as a byte below 128 stands in well-formed text for the
character of that number only.  A name that breaks several rules is refused for the first of
them.
-/

namespace UserVault.Vault

/-! ## 1. The rules -/

/-- The bytes of `/`, `\`, `:` and NUL. -/
def forbiddenBytes : Bytes := [0x2F, 0x5C, 0x3A, 0x00]

/-- The name breaks the rule that the fault tells of. -/
inductive Breaks (name : Bytes) : NameFault → Prop
  | notUtf8 (h : ¬Utf8.WellFormed name) : Breaks name .notUtf8
  | empty (h : name = []) : Breaks name .empty
  | tooLong (h : 255 < name.length) : Breaks name .tooLong
  | dot (h : name = [0x2E]) : Breaks name (.reserved ['.'])
  | dots (h : name = [0x2E, 0x2E]) : Breaks name (.reserved ['.', '.'])
  /-- The character is the first forbidden one of the text. -/
  | forbidden {before after : List Char} {c : Char} (h : Utf8.encode (before ++ c :: after) = name)
      (hc : c ∈ ['/', '\\', ':', '\x00']) (hbefore : ∀ c' ∈ before, c' ∉ ['/', '\\', ':', '\x00']) :
      Breaks name (.forbidden c)

/-- The place of a fault in the order in which the rules are checked.  The last is no fault of
the name by itself. -/
def NameFault.rank : NameFault → Nat
  | .notUtf8 => 0
  | .empty => 1
  | .tooLong => 2
  | .reserved _ => 3
  | .forbidden _ => 4
  | .outside _ => 5

/-! ## 2. Characters and bytes -/

theorem isForbidden_iff {c : Char} : isForbidden c ↔ c ∈ ['/', '\\', ':', '\x00'] := by
  simp [isForbidden]

/-- To look for a forbidden character is to look for a forbidden byte. -/
theorem exists_forbidden_iff {text : List Char} :
    (∃ c ∈ text, isForbidden c) ↔ ∃ b ∈ Utf8.encode text, b ∈ forbiddenBytes := by
  have hbyte {c : Char} {b : UInt8} (hb : b.toNat < 128) (hc : c.val.toNat = b.toNat) :
      b ∈ Utf8.encode text ↔ c ∈ text := Utf8.mem_encode_iff hb hc
  have hslash := hbyte (c := '/') (b := 0x2F) (by decide) rfl
  have hbackslash := hbyte (c := '\\') (b := 0x5C) (by decide) rfl
  have hcolon := hbyte (c := ':') (b := 0x3A) (by decide) rfl
  have hnul := hbyte (c := '\x00') (b := 0x00) (by decide) rfl
  simp only [isForbidden_iff, forbiddenBytes, List.mem_cons, List.not_mem_nil, or_false,
    and_or_left, exists_or, exists_eq_right, hslash, hbackslash, hcolon, hnul]

theorem eq_nil_iff {text : List Char} {name : Bytes} (h : Utf8.encode text = name) :
    text = [] ↔ name = [] :=
  ⟨fun hnil => by rw [← h, hnil]; rfl, fun hnil => Utf8.encode_injective (h.trans hnil)⟩

theorem eq_dot_iff {text : List Char} {name : Bytes} (h : Utf8.encode text = name) :
    text = ['.'] ↔ name = [0x2E] :=
  ⟨fun hdot => by rw [← h, hdot]; rfl, fun hdot => Utf8.encode_injective (h.trans hdot)⟩

theorem eq_dots_iff {text : List Char} {name : Bytes} (h : Utf8.encode text = name) :
    text = ['.', '.'] ↔ name = [0x2E, 0x2E] :=
  ⟨fun hdots => by rw [← h, hdots]; rfl, fun hdots => Utf8.encode_injective (h.trans hdots)⟩

/-! ## 3. The check follows the rules -/

theorem encode_of_checkName {name : Bytes} {text : List Char} (h : checkName name = .ok text) :
    Utf8.encode text = name :=
  Utf8.encode_of_decode? (checkName_eq_ok h).1

/-- What is accepted breaks no rule. -/
theorem not_breaks_of_checkName {name : Bytes} {text : List Char} {fault : NameFault}
    (h : checkName name = .ok text) : ¬Breaks name fault := by
  have hname := encode_of_checkName h
  obtain ⟨hdecode, hne, hlength, hdot, hdots, hforbidden⟩ := checkName_eq_ok h
  intro hbreaks
  cases hbreaks with
  | notUtf8 hnot => exact hnot (Utf8.wellFormed_iff.mpr ⟨text, hdecode⟩)
  | empty hnil => exact hne ((eq_nil_iff hname).mpr hnil)
  | tooLong hlong => exact absurd hlength (Nat.not_le.mpr hlong)
  | dot hreserved => exact hdot ((eq_dot_iff hname).mpr hreserved)
  | dots hreserved => exact hdots ((eq_dots_iff hname).mpr hreserved)
  | @forbidden before after c hsplit hc hbefore =>
    have htext : text = before ++ c :: after := Utf8.encode_injective (hname.trans hsplit.symm)
    have hclear := hforbidden c (by rw [htext]; exact List.mem_append_right _ List.mem_cons_self)
    rw [isForbidden_iff.mpr hc] at hclear
    cases hclear

/-- The fault that is told is one of the name, and no rule before it is broken. -/
theorem breaks_of_checkName {name : Bytes} {fault : NameFault} (h : checkName name = .error fault) :
    Breaks name fault ∧ ∀ other, Breaks name other → fault.rank ≤ other.rank := by
  unfold checkName at h
  split at h
  next hdecode =>
    cases h
    exact ⟨.notUtf8 (Utf8.decode?_eq_none.mp hdecode), fun other _ => Nat.zero_le _⟩
  next text hdecode =>
    have hwell : Utf8.WellFormed name := Utf8.wellFormed_iff.mpr ⟨text, hdecode⟩
    have hname := Utf8.encode_of_decode? hdecode
    split at h
    next hnil =>
      cases h
      refine ⟨.empty ((eq_nil_iff hname).mp hnil), fun other hother => ?_⟩
      cases hother with
      | notUtf8 hnot => exact absurd hwell hnot
      | _ => exact Nat.le_add_left 1 _
    next hne =>
      split at h
      next hlong =>
        cases h
        refine ⟨.tooLong hlong, fun other hother => ?_⟩
        cases hother with
        | notUtf8 hnot => exact absurd hwell hnot
        | empty hnil => exact absurd ((eq_nil_iff hname).mpr hnil) hne
        | _ => exact Nat.le_add_left 2 _
      next hlength =>
        split at h
        next hreserved =>
          cases h
          refine ⟨?_, fun other hother => ?_⟩
          · rcases hreserved with rfl | rfl
            · exact .dot ((eq_dot_iff hname).mp rfl)
            · exact .dots ((eq_dots_iff hname).mp rfl)
          · cases hother with
            | notUtf8 hnot => exact absurd hwell hnot
            | empty hnil => exact absurd ((eq_nil_iff hname).mpr hnil) hne
            | tooLong hlong => exact absurd hlong hlength
            | _ => exact Nat.le_add_left 3 _
        next hreserved =>
          split at h
          next c hfind =>
            cases h
            obtain ⟨hc, before, after, rfl, hbefore⟩ := List.find?_eq_some_iff_append.mp hfind
            refine ⟨.forbidden hname (isForbidden_iff.mp hc) fun c' hmem hc' => ?_,
              fun other hother => ?_⟩
            · have hclear := hbefore c' hmem
              rw [isForbidden_iff.mpr hc'] at hclear
              cases hclear
            · cases hother with
              | notUtf8 hnot => exact absurd hwell hnot
              | empty hnil => exact absurd ((eq_nil_iff hname).mpr hnil) hne
              | tooLong hlong => exact absurd hlong hlength
              | dot hdot => exact absurd (.inl ((eq_dot_iff hname).mpr hdot)) hreserved
              | dots hdots => exact absurd (.inr ((eq_dots_iff hname).mpr hdots)) hreserved
              | forbidden => exact Nat.le_refl 4
          next hfind => cases h

/-- A name has at most one fault by each rule. -/
theorem Breaks.eq_of_rank {name : Bytes} {fault fault' : NameFault} (h : Breaks name fault)
    (h' : Breaks name fault') (hrank : fault.rank = fault'.rank) : fault = fault' := by
  cases h with
  | notUtf8 | empty | tooLong => cases h' <;> first | rfl | cases hrank
  | dot hname =>
    cases h' with
    | dot => rfl
    | dots hname' => exact absurd (hname.symm.trans hname') (by decide)
    | _ => cases hrank
  | dots hname =>
    cases h' with
    | dots => rfl
    | dot hname' => exact absurd (hname.symm.trans hname') (by decide)
    | _ => cases hrank
  | @forbidden before after c hname hc hbefore =>
    cases h' with
    | @forbidden before' after' c' hname' hc' hbefore' =>
      -- the first that is found in a text is one and the same
      have hfind {before : List Char} {c : Char} (hc : c ∈ ['/', '\\', ':', '\x00'])
          (hbefore : ∀ c' ∈ before, c' ∉ ['/', '\\', ':', '\x00']) (after : List Char) :
          (before ++ c :: after).find? isForbidden = some c := by
        refine List.find?_eq_some_iff_append.mpr ⟨isForbidden_iff.mpr hc, before, after, rfl, ?_⟩
        intro x hx
        rw [Bool.not_eq_true', Bool.eq_false_iff, ne_eq, isForbidden_iff]
        exact hbefore x hx
      have htext := Utf8.encode_injective (hname.trans hname'.symm)
      have hfound := hfind hc hbefore after
      rw [htext, hfind hc' hbefore' after'] at hfound
      rw [Option.some.inj hfound]
    | _ => cases hrank

/-- A name is refused for the first rule that it breaks. -/
theorem checkName_eq_error_iff {name : Bytes} {fault : NameFault} :
    checkName name = .error fault ↔
      Breaks name fault ∧ ∀ other, Breaks name other → fault.rank ≤ other.rank := by
  constructor
  · exact breaks_of_checkName
  · rintro ⟨hbreaks, hfirst⟩
    cases hcheck : checkName name with
    | ok text => exact absurd hbreaks (not_breaks_of_checkName hcheck)
    | error told =>
      obtain ⟨htold, hleast⟩ := breaks_of_checkName hcheck
      have hrank := Nat.le_antisymm (hleast fault hbreaks) (hfirst told htold)
      rw [htold.eq_of_rank hbreaks hrank]

/-- The rules as they read on the bytes. -/
theorem checkName_isOk_iff {name : Bytes} :
    (∃ text, checkName name = .ok text) ↔
      Utf8.WellFormed name ∧ 1 ≤ name.length ∧ name.length ≤ 255 ∧ name ≠ [0x2E] ∧
        name ≠ [0x2E, 0x2E] ∧ ∀ b ∈ name, b ∉ forbiddenBytes := by
  constructor
  · rintro ⟨text, hcheck⟩
    have hname := encode_of_checkName hcheck
    obtain ⟨hdecode, hne, hlength, hdot, hdots, hforbidden⟩ := checkName_eq_ok hcheck
    refine ⟨Utf8.wellFormed_iff.mpr ⟨text, hdecode⟩,
      List.length_pos_iff.mpr fun hnil => hne ((eq_nil_iff hname).mpr hnil), hlength,
      fun h => hdot ((eq_dot_iff hname).mpr h), fun h => hdots ((eq_dots_iff hname).mpr h), ?_⟩
    intro b hb hbad
    rw [← hname] at hb
    obtain ⟨c, hc, hbad⟩ := exists_forbidden_iff.mpr ⟨b, hb, hbad⟩
    exact absurd hbad (Bool.eq_false_iff.mp (hforbidden c hc))
  · rintro ⟨hwell, hne, hlength, hdot, hdots, hforbidden⟩
    cases hcheck : checkName name with
    | ok text => exact ⟨text, rfl⟩
    | error fault =>
      exfalso
      cases (breaks_of_checkName hcheck).1 with
      | notUtf8 hnot => exact hnot hwell
      | empty hnil => exact List.length_pos_iff.mp hne hnil
      | tooLong hlong => exact absurd hlength (Nat.not_le.mpr hlong)
      | dot h => exact hdot h
      | dots h => exact hdots h
      | forbidden h hc _ =>
        obtain ⟨b, hb, hbad⟩ := exists_forbidden_iff.mp
          ⟨_, List.mem_append_right _ List.mem_cons_self, isForbidden_iff.mpr hc⟩
        rw [h] at hb
        exact hforbidden b hb hbad

/-! ## 4. The whole of the check -/

/-- The check accepts exactly the names that keep all rules, gives back their text, finds in the
text what is in the bytes, and tells of the first rule that is broken. -/
theorem name_grammar (name : Bytes) :
    ((∃ text, checkName name = .ok text) ↔
      Utf8.WellFormed name ∧ 1 ≤ name.length ∧ name.length ≤ 255 ∧ name ≠ [0x2E] ∧
        name ≠ [0x2E, 0x2E] ∧ ∀ b ∈ name, b ∉ forbiddenBytes) ∧
    (∀ text, checkName name = .ok text → Utf8.encode text = name) ∧
    (∀ text, Utf8.encode text = name →
      ((∃ c ∈ text, isForbidden c) ↔ ∃ b ∈ name, b ∈ forbiddenBytes)) ∧
    (∀ fault, checkName name = .error fault ↔
      Breaks name fault ∧ ∀ other, Breaks name other → fault.rank ≤ other.rank) := by
  refine ⟨checkName_isOk_iff, fun text h => encode_of_checkName h, ?_,
    fun fault => checkName_eq_error_iff⟩
  rintro text rfl
  exact exists_forbidden_iff

end UserVault.Vault
