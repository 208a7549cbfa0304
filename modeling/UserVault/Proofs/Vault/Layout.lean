import UserVault.Vault.Layout
import UserVault.Proofs.Disk.Path
import UserVault.Proofs.Text.Utf8

/-!
# Where things lie in a vault

A name that is accepted is one plain step of a path, and so is every name that the vault gives out
itself.  Hence a vault knows four kinds of spots, each at a path of its own, and what is
asked for a user stays among the files of this user.
-/

namespace UserVault.Vault

open Disk

/-! ## 1. The names that a vault gives out -/

theorem stagingName_eq : stagingName = [0x2E, 0x73, 0x74, 0x61, 0x67, 0x69, 0x6E, 0x67] := by
  decide

theorem stagedStem_eq : stagedStem = [0x75, 0x70, 0x6C, 0x6F, 0x61, 0x64, 0x2D] := by decide

theorem plain_stagingName : Plain stagingName := by
  rw [stagingName_eq]
  exact ⟨by decide, by decide, by decide, by decide⟩

/-- The name of a file on its way in. -/
def stagedName (number : Nat) : Name := stagedStem ++ Decimal.encode number

theorem plain_stagedName (number : Nat) : Plain (stagedName number) where
  ne_nil h := by simp [stagedName, stagedStem_eq] at h
  ne_here h := by simp [stagedName, stagedStem_eq, here] at h
  ne_up h := by simp [stagedName, stagedStem_eq, up] at h
  slash_notMem h := by
    rcases List.mem_append.mp h with h | h
    · exact absurd h (by rw [stagedStem_eq]; decide)
    · exact (plain_numeral number).slash_notMem h

/-! ## 2. Accepted names -/

/-- Whether a user may give a file this name. -/
def accepts (name : Bytes) : Bool := (checkName name).isOk

theorem exists_of_accepts {name : Bytes} (h : accepts name) :
    ∃ text, checkName name = .ok text := by
  unfold accepts at h
  cases hcheck : checkName name with
  | ok text => exact ⟨text, rfl⟩
  | error fault =>
    rw [hcheck] at h
    cases h

theorem exists_of_not_accepts {name : Bytes} (h : ¬accepts name) :
    ∃ fault, checkName name = .error fault := by
  unfold accepts at h
  cases hcheck : checkName name with
  | error fault => exact ⟨fault, rfl⟩
  | ok text =>
    rw [hcheck] at h
    exact absurd rfl h

/-- What the check of a name has made sure of. -/
theorem checkName_eq_ok {name : Bytes} {text : List Char} (h : checkName name = .ok text) :
    Utf8.decode? name = some text ∧ text ≠ [] ∧ name.length ≤ maxNameLength ∧
      text ≠ ['.'] ∧ text ≠ ['.', '.'] ∧ ∀ c ∈ text, isForbidden c = false := by
  unfold checkName at h
  split at h
  · cases h
  next decoded hdecode =>
    split at h
    · cases h
    next hne =>
      split at h
      · cases h
      next hlength =>
        split at h
        · cases h
        next hreserved =>
          split at h
          · cases h
          next hfind =>
            cases h
            refine ⟨hdecode, hne, by omega, fun h => hreserved (.inl h),
              fun h => hreserved (.inr h), ?_⟩
            intro c hc
            simpa using List.find?_eq_none.mp hfind c hc

theorem length_le_of_accepts {name : Bytes} (h : accepts name) : name.length ≤ maxNameLength := by
  obtain ⟨text, hcheck⟩ := exists_of_accepts h
  exact (checkName_eq_ok hcheck).2.2.1

theorem repair_of_accepts {name : Bytes} (h : accepts name) : Utf8.repair name = name := by
  obtain ⟨text, hcheck⟩ := exists_of_accepts h
  exact Utf8.repair_of_decode? (checkName_eq_ok hcheck).1

theorem plain_of_accepts {name : Bytes} (h : accepts name) : Plain name := by
  obtain ⟨text, hcheck⟩ := exists_of_accepts h
  obtain ⟨hdecode, hne, -, hdot, hdots, hforbidden⟩ := checkName_eq_ok hcheck
  -- the check looks at the text, so what it says has to be brought back to the bytes
  refine ⟨?_, ?_, ?_, ?_⟩
  · rintro rfl
    rw [Utf8.decode?] at hdecode
    exact hne (Option.some.inj hdecode).symm
  · rintro rfl
    have hread : Utf8.decode? here = some ['.'] := by
      simp [here, Utf8.decode?, Utf8.next, Utf8.lead?, Utf8.continuation]
    exact hdot (Option.some.inj (hdecode.symm.trans hread))
  · rintro rfl
    have hread : Utf8.decode? up = some ['.', '.'] := by
      simp [up, Utf8.decode?, Utf8.next, Utf8.lead?, Utf8.continuation]
    exact hdots (Option.some.inj (hdecode.symm.trans hread))
  · intro hslash
    rw [← Utf8.encode_of_decode? hdecode, Utf8.mem_encode_iff (c := '/') (by decide) rfl] at hslash
    exact absurd (hforbidden '/' hslash) (by decide)

/-! ## 3. Spots -/

/-- The places in a vault that it knows by itself. -/
inductive Spot
  /-- The directory for files on their way in. -/
  | staging
  /-- A file on its way in. -/
  | staged (number : Nat)
  /-- The directory of a user. -/
  | folder (user : UInt32)
  /-- A user's file. -/
  | file (user : UInt32) (name : Bytes)
  deriving DecidableEq

namespace Spot

/-- The steps from the vault's directory to a spot. -/
def steps : Spot → List Name
  | .staging => [stagingName]
  | .staged number => [stagingName, stagedName number]
  | .folder user => [Decimal.encode user.toNat]
  | .file user name => [Decimal.encode user.toNat, name]

theorem steps_ne_nil (spot : Spot) : spot.steps ≠ [] := by
  cases spot <;> exact List.cons_ne_nil _ _

theorem numeral_ne_stagingName (n : Nat) : Decimal.encode n ≠ stagingName := by
  intro h
  have hdigit := Decimal.isDigit_of_mem_encode (n := n) (b := 0x2E)
    (by rw [h, stagingName_eq]; decide)
  exact absurd hdigit (by decide)

/-- Different spots are in different places. -/
theorem steps_injective {spot spot' : Spot} (h : spot.steps = spot'.steps) : spot = spot' := by
  -- numerals and the name of the staging directory start with different bytes
  have hne (n : Nat) := numeral_ne_stagingName n
  have huser {u u' : UInt32} (h : Decimal.encode u.toNat = Decimal.encode u'.toNat) : u = u' :=
    UInt32.toNat_inj.mp (Decimal.encode_injective h)
  cases spot with
  | staging =>
    cases spot' with
    | staging => rfl
    | folder u => exact absurd (List.cons.inj h).1.symm (hne _)
    | staged n => simp [steps] at h
    | file u name => simp [steps] at h
  | staged n =>
    cases spot' with
    | staged n' =>
      have hname : stagedName n = stagedName n' := (List.cons.inj (List.cons.inj h).2).1
      rw [Decimal.encode_injective (List.append_cancel_left hname)]
    | file u name => exact absurd (List.cons.inj h).1.symm (hne _)
    | staging => simp [steps] at h
    | folder u => simp [steps] at h
  | folder u =>
    cases spot' with
    | folder u' => rw [huser (List.cons.inj h).1]
    | staging => exact absurd (List.cons.inj h).1 (hne _)
    | staged n => simp [steps] at h
    | file u name => simp [steps] at h
  | file u name =>
    cases spot' with
    | file u' name' => rw [huser (List.cons.inj h).1, (List.cons.inj (List.cons.inj h).2).1]
    | staged n => exact absurd (List.cons.inj h).1 (hne _)
    | staging => simp [steps] at h
    | folder u => simp [steps] at h

/-- A spot that a vault may come to use. -/
def Valid : Spot → Prop
  | .file _ name => accepts name
  | _ => True

theorem Valid.plain {spot : Spot} (h : spot.Valid) {step : Name} (hmem : step ∈ spot.steps) :
    Plain step := by
  cases spot with
  | staging =>
    rw [List.mem_singleton.mp hmem]
    exact plain_stagingName
  | folder u =>
    rw [List.mem_singleton.mp hmem]
    exact plain_numeral _
  | staged n =>
    simp only [steps, List.mem_cons, List.not_mem_nil, or_false] at hmem
    rcases hmem with rfl | rfl
    · exact plain_stagingName
    · exact plain_stagedName n
  | file u name =>
    simp only [steps, List.mem_cons, List.not_mem_nil, or_false] at hmem
    rcases hmem with rfl | rfl
    · exact plain_numeral _
    · exact plain_of_accepts h

end Spot

/-- The path of a spot. -/
def pathOf (v : Vault) (spot : Spot) : Path := { v.base with steps := v.base.steps ++ spot.steps }

theorem pathOf_injective {v : Vault} {spot spot' : Spot} (h : v.pathOf spot = v.pathOf spot') :
    spot = spot' :=
  Spot.steps_injective (List.append_cancel_left (congrArg Path.steps h))

theorem stagingDirectory_eq (v : Vault) : v.stagingDirectory = v.pathOf .staging :=
  Path.join_plain v.base plain_stagingName

theorem userDirectory_eq (v : Vault) (user : UInt32) :
    v.userDirectory user = v.pathOf (.folder user) :=
  Path.join_plain v.base (plain_numeral _)

theorem join_stagedName (v : Vault) (number : Nat) :
    v.stagingDirectory.join (stagedStem ++ Decimal.encode number) = v.pathOf (.staged number) := by
  rw [stagingDirectory_eq]
  have hjoin := Path.join_plain (v.pathOf .staging) (plain_stagedName number)
  rw [stagedName] at hjoin
  rw [hjoin]
  simp [pathOf, Spot.steps, stagedName]

theorem join_name (v : Vault) (user : UInt32) {name : Bytes} (h : Plain name) :
    (v.userDirectory user).join name = v.pathOf (.file user name) := by
  rw [userDirectory_eq, Path.join_plain _ h]
  simp [pathOf, Spot.steps]

theorem parent?_file (v : Vault) (user : UInt32) (name : Bytes) :
    (v.pathOf (.file user name)).parent? = some (v.userDirectory user) := by
  rw [userDirectory_eq]
  simp [Path.parent?, pathOf, Spot.steps]

theorem fileName?_file (v : Vault) (user : UInt32) {name : Bytes} (h : Plain name) :
    (v.pathOf (.file user name)).fileName? = some name := by
  simp [Path.fileName?, pathOf, Spot.steps, h.ne_up]

theorem resolve_of_accepts (v : Vault) (user : UInt32) {name : Bytes} (h : accepts name) :
    v.resolve user name = .ok (v.pathOf (.file user name)) := by
  obtain ⟨text, hcheck⟩ := exists_of_accepts h
  have hplain := plain_of_accepts h
  simp only [resolve, hcheck, join_name v user hplain, parent?_file, fileName?_file v user hplain,
    Option.isSome_some, and_self, if_true]

theorem resolve_of_not_accepts (v : Vault) (user : UInt32) {name : Bytes} (h : ¬accepts name) :
    ∃ fault, v.resolve user name = .error (.invalidName fault) := by
  obtain ⟨fault, hcheck⟩ := exists_of_not_accepts h
  exact ⟨fault, by simp only [resolve, hcheck]⟩

end UserVault.Vault
