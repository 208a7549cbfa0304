import Mathlib.Data.Fintype.EquivFin
import UserVault.Proofs.Vault.Stores

/-!
# The numbers of files aside

A new file aside gets the least number that is not taken.  Numbers run out only when every number
whose name is short enough is taken, and there are at least `10 ^ 248` of these.
-/

namespace UserVault

open Disk

/-! ## 1. Long numerals -/

namespace Decimal

/-- A greater number has no shorter numeral. -/
theorem length_encode_mono {m n : Nat} (h : m ≤ n) : (encode m).length ≤ (encode n).length := by
  fun_induction encode n generalizing m with
  | case1 n hn =>
    rw [encode, if_pos (Nat.lt_of_le_of_lt h hn)]
    exact Nat.le_refl 1
  | case2 n hn ih =>
    rw [List.length_append, List.length_singleton]
    by_cases hm : m < 10
    · rw [encode, if_pos hm]
      exact Nat.le_add_left 1 _
    · rw [encode, if_neg hm, List.length_append, List.length_singleton]
      exact Nat.succ_le_succ (ih (Nat.div_le_div_right h))

end Decimal

end UserVault

namespace UserVault.Vault

open Disk

variable {v : Vault} {root : Place} {d₀ d d' : Disk} {m n : Nat}

theorem length_stagedName (n : Nat) : (stagedName n).length = 7 + (Decimal.encode n).length := by
  rw [stagedName, stagedStem_eq, List.length_append]
  rfl

theorem size_pathOf_staged (v : Vault) (n : Nat) :
    (v.pathOf (.staged n)).size =
      Path.reach v.base.absolute v.base.steps + (stagingName.length + (stagedName n).length + 2) +
        v.base.idle - 1 := by
  rw [Path.size, pathOf, Spot.steps, Path.reach_append]
  simp only [Path.reach, List.foldl_cons, List.foldl_nil, Bool.toNat_false]
  omega

/-- Where a number has become too long, all greater ones have. -/
theorem TooLong.mono (h : TooLong v m) (hle : m ≤ n) : TooLong v n := by
  have hlength := Decimal.length_encode_mono hle
  have hm := length_stagedName m
  have hn := length_stagedName n
  rcases h with hsize | hname
  · rw [size_pathOf_staged] at hsize
    refine .inl ?_
    rw [size_pathOf_staged]
    omega
  · exact .inr (by omega)

theorem not_tooLong_of_lt (hbase : EmptyBase v d₀ root) (h : n < 10 ^ 248) : ¬TooLong v n := by
  have hlength := Decimal.length_encode_le 248 (by decide) h
  have hname := length_stagedName n
  have hsize := v.base.size_append_le (Spot.steps (.staged n))
  have hroom := hbase.room
  have hstaging : stagingName.length = 8 := by
    rw [stagingName_eq]
    rfl
  simp only [Spot.steps, Path.reach, List.foldl_cons, List.foldl_nil, Bool.toNat_false] at hsize
  rintro (hlong | hlong)
  · rw [pathOf, Spot.steps] at hlong
    omega
  · have hmax : maxName = 255 := rfl
    omega

/-! ## 2. The least number that is not taken -/

/-- Whether a file stands aside under a number. -/
def Taken (root : Place) (d : Disk) (n : Nat) : Prop :=
  d.node? (Spot.under (.staged n) root) ≠ none

/-- Files that stand aside have entries of their own in the tree. -/
theorem le_length_of_taken (h : ∀ m, m < n → Taken root d m) : n ≤ d.nodes.entries.length := by
  have hplaces : ((List.range n).map fun m => Spot.under (.staged m) root).Nodup := by
    refine List.nodup_range.map fun m m' heq => ?_
    cases Spot.under_injective heq
    rfl
  have hsubset : ((List.range n).map fun m => Spot.under (.staged m) root) ⊆
      d.nodes.entries.map (·.1) := by
    intro place hplace
    obtain ⟨m, hm, rfl⟩ := List.mem_map.mp hplace
    obtain ⟨node, hnode⟩ := Option.ne_none_iff_exists'.mp (h m (List.mem_range.mp hm))
    rw [node?_of_ne (Spot.under_ne_nil _ _)] at hnode
    exact List.mem_map.mpr ⟨_, Table.mem_of_get? hnode, rfl⟩
  have hle := (List.subperm_of_subset hplaces hsubset).length_le
  rwa [List.length_map, List.length_range, List.length_map] at hle

section
variable (htrace : ∀ n, d.locate (v.pathOf (.staged n)) =
  if TooLong v n then .error .nameTooLong else .ok (d.foundAt (Spot.under (.staged n) root)))
include htrace

/-- What the search for a number looks for. -/
theorem search_staged (n : Nat) :
    (match d.locate (v.stagingDirectory.join (stagedStem ++ Decimal.encode n)) with
      | .ok (.node _ _) => false
      | _ => true) = true ↔ TooLong v n ∨ ¬Taken root d n := by
  rw [join_stagedName, htrace n]
  by_cases hlong : TooLong v n
  · rw [if_pos hlong]
    exact ⟨fun _ => .inl hlong, fun _ => rfl⟩
  · rw [if_neg hlong, or_iff_right hlong, Taken, not_not]
    cases hnode : d.node? (Spot.under (.staged n) root) with
    | none =>
      rw [foundAt_of_none hnode]
      exact ⟨fun _ => rfl, fun _ => rfl⟩
    | some node =>
      rw [foundAt_of_some hnode]
      exact ⟨fun h => (nomatch h), fun h => (nomatch h)⟩

/-- Where all short names aside can be looked up, the next file aside gets the least number that is
not taken, or one that is too long. -/
theorem freeNumber_of_trace :
    (TooLong v (Upload.freeNumber v d) ∨ ¬Taken root d (Upload.freeNumber v d)) ∧
      ∀ m, m < Upload.freeNumber v d → ¬TooLong v m ∧ Taken root d m := by
  have hsearch := search_staged htrace
  rw [Upload.freeNumber]
  generalize hfind : List.find? _ _ = found
  cases found with
  | none =>
    -- more numbers would be taken than there are entries
    rw [List.find?_range_eq_none] at hfind
    have htaken (m : Nat) (hm : m < d.nodes.entries.length + 1) : Taken root d m := by
      by_contra hfree
      have hfalse : _ = false := (Bool.not_eq_true' _).mp (hfind m hm)
      exact Bool.false_ne_true (hfalse.symm.trans ((hsearch m).mpr (.inr hfree)))
    exact absurd (le_length_of_taken htaken) (Nat.not_succ_le_self _)
  | some n =>
    rw [List.find?_range_eq_some] at hfind
    obtain ⟨hn, -, hless⟩ := hfind
    refine ⟨(hsearch n).mp hn, fun m hm => ?_⟩
    have hfalse : _ = false := (Bool.not_eq_true' _).mp (hless m hm)
    have hnot : ¬(TooLong v m ∨ ¬Taken root d m) := fun hor =>
      Bool.false_ne_true (hfalse.symm.trans ((hsearch m).mpr hor))
    exact ⟨fun hlong => hnot (.inl hlong), by_contra fun hfree => hnot (.inr hfree)⟩

end

theorem freeNumber_spec (hbase : EmptyBase v d₀ root) (h : Orderly v root d₀ d) :
    (TooLong v (Upload.freeNumber v d) ∨ ¬Taken root d (Upload.freeNumber v d)) ∧
      ∀ m, m < Upload.freeNumber v d → ¬TooLong v m ∧ Taken root d m :=
  freeNumber_of_trace fun n => h.trace_staged hbase n

/-- A new file aside is refused only when numbers have run out. -/
theorem createNew_stagedPath (hbase : EmptyBase v d₀ root) (h : Orderly v root d₀ d) :
    d.createNew (Upload.stagedPath v d) =
      if TooLong v (Upload.freeNumber v d) then .error .nameTooLong
      else .ok ({ target := .file d.nextFile },
        putNew d root (.staged (Upload.freeNumber v d))) := by
  rw [stagedPath_eq, h.createNew_staged hbase]
  split
  · rfl
  next hfits =>
    have hfree := (freeNumber_spec hbase h).1.resolve_left hfits
    rw [Taken, not_not] at hfree
    rw [hfree]
    rfl

/-- Where as many files or more stand aside on `d` and numbers have not run out there, they have
not run out on `d'` either. -/
theorem freeNumber_fits (hbase : EmptyBase v d₀ root) (h : Orderly v root d₀ d)
    (h' : Orderly v root d₀ d') {R : Nat → Nat → Prop}
    (htotal : ∀ m, Taken root d' m → ∃ k, R m k ∧ Taken root d k ∧ ¬TooLong v k)
    (hinjective : ∀ m m' k, R m k → R m' k → m = m')
    (hfits : ¬TooLong v (Upload.freeNumber v d)) : ¬TooLong v (Upload.freeNumber v d') := by
  intro hlong
  have hless := (freeNumber_spec hbase h').2
  -- all short numbers are taken on `d'`, so they are all taken on `d`
  have hcounterpart (m : Fin (Upload.freeNumber v d')) :
      ∃ k : Fin (Upload.freeNumber v d'), R m k ∧ Taken root d k := by
    obtain ⟨k, hR, htaken, hshort⟩ := htotal m (hless m m.isLt).2
    refine ⟨⟨k, ?_⟩, hR, htaken⟩
    by_contra hge
    exact hshort (hlong.mono (Nat.le_of_not_lt hge))
  choose f hR htaken using hcounterpart
  have hsurjective : Function.Surjective f := Finite.injective_iff_surjective.mp fun m m' heq =>
    Fin.ext (hinjective m m' (f m) (hR m) (heq ▸ hR m'))
  have hfree := (freeNumber_spec hbase h).1.resolve_left hfits
  have hge : Upload.freeNumber v d' ≤ Upload.freeNumber v d := by
    by_contra hlt
    obtain ⟨m, hm⟩ := hsurjective ⟨_, Nat.lt_of_not_le hlt⟩
    have hnumber := htaken m
    rw [hm] at hnumber
    exact hfree hnumber
  exact hfits (hlong.mono hge)

end UserVault.Vault
