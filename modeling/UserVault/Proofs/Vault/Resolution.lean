import UserVault.Proofs.Vault.Names

/-!
# What path a name is given

A vault resolves exactly the names that its check accepts.  The path that it gives is that of the
vault's directory with two steps behind it, the numeral of the user and the name as it is; so
different pairs have different paths, and none comes near the files of others, or near those on
their way in.
-/

namespace UserVault

open Disk

/-! ## 1. One path within another -/

/-- The path is the other one, or leads on from it. -/
def Disk.Path.Within (p q : Path) : Prop := p.absolute = q.absolute ∧ q.steps <+: p.steps

theorem Disk.Path.within_refl (p : Path) : p.Within p := ⟨rfl, List.prefix_rfl⟩

namespace Vault

variable {v : Vault}

/-- Only the user's directory leads to a user's file, as the vault's own spots go. -/
theorem Spot.steps_prefix_file {spot : Spot} {user : UInt32} {name : Name} :
    spot.steps <+: (file user name).steps ↔ spot = folder user ∨ spot = file user name := by
  constructor
  · intro h
    cases spot with
    | staging => exact absurd (List.cons_prefix_cons.mp h).1.symm (numeral_ne_stagingName _)
    | staged number => exact absurd (List.cons_prefix_cons.mp h).1.symm (numeral_ne_stagingName _)
    | folder user' =>
      have hnumeral := (List.cons_prefix_cons.mp h).1
      exact .inl (steps_injective (congrArg (fun step => [step]) hnumeral))
    | file user' name' => exact .inr (steps_injective (h.eq_of_length rfl))
  · rintro (rfl | rfl)
    · exact List.prefix_append [Decimal.encode user.toNat] [name]
    · exact List.prefix_rfl

/-- A user's file leads to no other spot. -/
theorem Spot.eq_file_of_steps {spot : Spot} {user : UInt32} {name : Name}
    (h : (file user name).steps <+: spot.steps) : spot = file user name := by
  have hlength : spot.steps.length ≤ 2 := by cases spot <;> simp [steps]
  exact steps_injective (h.eq_of_length_le hlength).symm

theorem within_pathOf {spot spot' : Spot} :
    (v.pathOf spot).Within (v.pathOf spot') ↔ spot'.steps <+: spot.steps := by
  rw [Path.Within, pathOf, pathOf, List.prefix_append_right_inj]
  exact and_iff_right rfl

/-! ## 2. Resolved paths -/

/-- What holds of the path that a vault gives to a user's file of this name. -/
structure Resolved (v : Vault) (user : UInt32) (name : Bytes) (path : Path) : Prop where
  steps : ∃ numeral, Decimal.IsNumeral numeral user.toNat ∧
    path = { v.base with steps := v.base.steps ++ [numeral, name] }
  /-- However the vault's directory is written, two pieces are written behind it. -/
  written : ∀ text, v.base = .parse text →
    path = .parse (Disk.Path.extend (Disk.Path.extend text (Decimal.encode user.toNat)) name)
  parent : path.parent? = some (v.userDirectory user)
  last : path.fileName? = some name
  /-- No two files that are asked for share a path, and none lies below another. -/
  alone : ∀ user' name' path', v.resolve user' name' = .ok path' →
    (path' = path ↔ user' = user ∧ name' = name) ∧ (path'.Within path ↔ path' = path)
  staging : ¬path.Within v.stagingDirectory
  directory : ∀ user', ¬(v.userDirectory user').Within path
  owner : ∀ user', path.Within (v.userDirectory user') ↔ user' = user

theorem accepts_of_checkName {name : Bytes} {text : List Char} (h : checkName name = .ok text) :
    accepts name := by
  rw [accepts, h]
  rfl

theorem accepts_of_resolve {user : UInt32} {name : Bytes} {path : Path}
    (h : v.resolve user name = .ok path) : accepts name := by
  by_contra hnot
  obtain ⟨fault, hfault⟩ := resolve_of_not_accepts v user hnot
  cases h.symm.trans hfault

theorem resolved_of_accepts (user : UInt32) {name : Bytes} (h : accepts name) :
    v.Resolved user name (v.pathOf (.file user name)) where
  steps := ⟨Decimal.encode user.toNat, Decimal.isNumeral_encode _, rfl⟩
  written text htext := by
    rw [Path.parse_extend (plain_of_accepts h), Path.parse_extend (plain_numeral _), ← htext]
    exact (join_name v user (plain_of_accepts h)).symm
  parent := parent?_file v user name
  last := fileName?_file v user (plain_of_accepts h)
  alone user' name' path' hpath' := by
    rw [resolve_of_accepts v user' (accepts_of_resolve hpath')] at hpath'
    cases hpath'
    refine ⟨⟨fun heq => ?_, ?_⟩, fun hwithin => ?_, fun heq => ?_⟩
    · cases pathOf_injective heq
      exact ⟨rfl, rfl⟩
    · rintro ⟨rfl, rfl⟩
      rfl
    · rw [Spot.eq_file_of_steps (within_pathOf.mp hwithin)]
    · rw [heq]
      exact Path.within_refl _
  staging hwithin := by
    rw [stagingDirectory_eq, within_pathOf, Spot.steps_prefix_file] at hwithin
    simp at hwithin
  directory user' hwithin := by
    rw [userDirectory_eq, within_pathOf] at hwithin
    cases Spot.eq_file_of_steps hwithin
  owner user' := by
    rw [userDirectory_eq, within_pathOf, Spot.steps_prefix_file]
    simp

/-- The check of a name alone decides whether it is resolved, and with which fault it is refused;
the rule that the path lies in the user's directory is never broken. -/
theorem resolve_confined (v : Vault) (user : UInt32) (name : Bytes) :
    match checkName name with
    | .ok _ => ∃ path, v.resolve user name = .ok path ∧ v.Resolved user name path
    | .error fault => v.resolve user name = .error (.invalidName fault) ∧
        ∀ text, fault ≠ .outside text := by
  split
  next text hcheck =>
    have haccepts := accepts_of_checkName hcheck
    exact ⟨_, resolve_of_accepts v user haccepts, resolved_of_accepts user haccepts⟩
  next fault hcheck =>
    refine ⟨by simp only [resolve, hcheck], ?_⟩
    rintro text rfl
    cases (breaks_of_checkName hcheck).1

end Vault

end UserVault
