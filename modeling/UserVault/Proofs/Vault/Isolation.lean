import UserVault.Proofs.Vault.Mirror

/-!
# Users do not notice each other

Take any run of a crowd, and leave out all that is not done for a certain user.  What is left is a
run of its own, in which everything looks to the user as it did before: who has to wait, what the
calls come to, which bytes are read, and what is in the user's directory in the end.
-/

namespace UserVault.Vault

open Disk Link

variable {v : Vault} {root : Place} {d₀ : Disk} {user : UInt32} {c c' : Crowd} {readers : Readers}
  {ρ ρ' : FileId → FileId → Prop}

namespace Crowd

/-- The moments of a run. -/
def trail (v : Vault) : Crowd → Readers → List Action → List Moment
  | _, _, [] => []
  | c, readers, action :: actions =>
    let m : Moment := { crowd := c, readers, action }
    m :: trail v (c.step v action) m.readersAfter actions

/-- What is noticed in the course of a run. -/
def noticed (v : Vault) : Crowd → List Action → List Seen
  | _, [] => []
  | c, action :: actions => c.seen v action :: noticed v (c.step v action) actions

/-! ## 1. What the user notices -/

section
variable (h : c.Twin v root d₀ user readers ρ c') {i : Nat}
include h

theorem Twin.seenOfStore_eq (hmine : ∀ p, c.stores i = some p → p.order.user = user) :
    c'.seenOfStore i = c.seenOfStore i := by
  cases hp : c.stores i with
  | none =>
    have hp' : c'.stores i = none := Option.eq_none_iff_forall_not_mem.mpr fun p' hp' => by
      obtain ⟨p, hsome, -⟩ := h.stores' i p' hp'
      cases hp.symm.trans hsome
    simp only [seenOfStore, hp, hp']
  | some p =>
    obtain ⟨p', hp', -, htwin⟩ := h.stores i p hp (hmine p hp)
    simp only [seenOfStore, hp, hp', htwin.result?_eq, htwin.body, htwin.remaining]

theorem Twin.seenOfRemoval_eq (hmine : ∀ p, c.removals i = some p → p.user = user) :
    c'.seenOfRemoval i = c.seenOfRemoval i := by
  cases hp : c.removals i with
  | none =>
    have hp' : c'.removals i = none := Option.eq_none_iff_forall_not_mem.mpr fun p' hp' => by
      obtain ⟨p, hsome, -⟩ := h.removals' i p' hp'
      cases hp.symm.trans hsome
    simp only [seenOfRemoval, hp, hp']
  | some p =>
    obtain ⟨p', hp', -, -, htwin⟩ := h.removals i p hp (hmine p hp)
    simp only [seenOfRemoval, hp, hp', htwin.result?_eq]

theorem Twin.seenOfRestore_eq (hmine : readers i = some user) :
    c'.seenOfRestore i = c.seenOfRestore i := by
  cases hr : c.restores i with
  | none =>
    have hr' : c'.restores i = none := Option.eq_none_iff_forall_not_mem.mpr fun r' hr' => by
      obtain ⟨r, hsome, -⟩ := h.restores' i r' hr'
      cases hr.symm.trans hsome
    simp only [seenOfRestore, hr, hr']
  | some r =>
    obtain ⟨r', hr', hresult, hsent, hshort⟩ := h.restores i r hr hmine
    simp only [seenOfRestore, hr, hr', hsent, hshort]
    generalize r.result = result at hresult ⊢
    generalize r'.result = result' at hresult ⊢
    cases hresult <;> rfl

end

/-- What is done for the user looks the same in the mirror. -/
theorem Twin.seen_eq (hbase : EmptyBase v d₀ root)
    (h : c.Twin v root d₀ user readers ρ c') {action : Action}
    (hown : Moment.concerns ⟨c, readers, action⟩ user = true)
    (hafter : (c.step v action).Twin v root d₀ user (Moment.readersAfter ⟨c, readers, action⟩)
      ρ' (c'.step v (Moment.given v ⟨c, readers, action⟩))) :
    c'.seen v (Moment.given v ⟨c, readers, action⟩) = c.seen v action := by
  cases action with
  | store i order =>
    simp only [Moment.concerns, decide_eq_true_eq, Option.isNone_iff_eq_none] at hown
    refine hafter.seenOfStore_eq fun p hp => ?_
    simp only [Crowd.step, hown.2, Function.update_self, Option.some.injEq] at hp
    rw [← hp]
    exact hown.1
  | remove i user' name =>
    simp only [Moment.concerns, decide_eq_true_eq, Option.isNone_iff_eq_none] at hown
    refine hafter.seenOfRemoval_eq fun p hp => ?_
    simp only [Crowd.step, hown.2, Function.update_self, Option.some.injEq] at hp
    rw [← hp]
    exact hown.1
  | restore i user' name =>
    simp only [Moment.concerns, decide_eq_true_eq] at hown
    refine hafter.seenOfRestore_eq ?_
    simp only [Moment.readersAfter, hown.2, if_true, Function.update_self, hown.1]
  | list user' =>
    simp only [Moment.concerns, decide_eq_true_eq] at hown
    subst hown
    simp only [Moment.given, seen,
      h.alike.listNames_eq hbase h.orderly h.standing'.tidy.tree]
  | advanceStore i fault =>
    simp only [Moment.concerns, decide_eq_true_eq, Option.map_eq_some_iff] at hown
    obtain ⟨p, hp, huser⟩ := hown
    simp only [Moment.given, hp] at hafter ⊢
    simp only [seen, h.storeReady_eq hp huser]
    rw [hafter.seenOfStore_eq fun q hq => ?_]
    simp only [Crowd.step, hp] at hq
    split at hq
    · simp only [Function.update_self, Option.some.injEq] at hq
      rw [← hq]
      exact huser
    · cases hp.symm.trans hq
      exact huser
  | advanceRemoval i fault =>
    simp only [Moment.concerns, decide_eq_true_eq, Option.map_eq_some_iff] at hown
    obtain ⟨p, hp, huser⟩ := hown
    simp only [Moment.given] at hafter ⊢
    simp only [seen, h.removalReady_eq hp huser]
    rw [hafter.seenOfRemoval_eq fun q hq => ?_]
    simp only [Crowd.step, hp] at hq
    split at hq
    · simp only [Function.update_self, Option.some.injEq] at hq
      rw [← hq]
      exact huser
    · cases hp.symm.trans hq
      exact huser
  | read i count =>
    simp only [Moment.concerns, decide_eq_true_eq] at hown
    exact hafter.seenOfRestore_eq hown

/-- A mirror goes through what is done for the user, and stays one. -/
theorem Twin.run (hbase : EmptyBase v d₀ root) (actions : List Action)
    (h : c.Twin v root d₀ user readers ρ c') :
    let own := (trail v c readers actions).filter (·.concerns user)
    own.map (fun m => m.crowd.seen v m.action) = noticed v c' (own.map (·.given v)) ∧
      ∃ readers' ρ', (run v c actions).Twin v root d₀ user readers' ρ'
        (Crowd.run v c' (own.map (·.given v))) := by
  induction actions generalizing c c' readers ρ with
  | nil => exact ⟨rfl, readers, ρ, h⟩
  | cons action actions ih =>
    cases hconcerns : Moment.concerns ⟨c, readers, action⟩ user with
    | false =>
      simp only [trail, List.filter_cons, hconcerns]
      exact ih (h.step_other hbase action hconcerns)
    | true =>
      obtain ⟨ρ', hafter⟩ := h.step_own hbase action hconcerns
      obtain ⟨hseen, hrun⟩ := ih hafter
      simp only [trail, List.filter_cons, hconcerns, if_true, List.map_cons, noticed,
        h.seen_eq hbase hconcerns hafter, hseen]
      exact ⟨trivial, hrun⟩

theorem mirrors_start (hbase : EmptyBase v d₀ root) (user : UInt32) (readers : Readers) :
    (start v d₀).Twin v root d₀ user readers (fun _ _ => False) (start v d₀) where
  standing := standing_start hbase
  standing' := standing_start hbase
  fair := fair_start v d₀
  fair' := fair_start v d₀
  alike := by
    refine ⟨rfl, rfl, fun _ _ h => h.elim, fun _ _ h => h.elim, fun _ _ _ _ h => h.elim, ?_⟩
    intro spot hmine
    have hvacant : (start v d₀).state.disk.node? (spot.under root) = none :=
      node?_prepare hbase fun heq => by
        rw [heq] at hmine
        exact hmine
    rw [hvacant]
    exact .vacant
  reserved := by
    refine ⟨fun _ h => ?_, fun _ _ h => ?_, fun _ _ _ _ _ h => (nomatch h)⟩ <;>
      obtain ⟨_, hfalse⟩ := h <;> exact hfalse.elim
  stores _ _ h := nomatch h
  stores' _ _ h := nomatch h
  removals _ _ h := nomatch h
  removals' _ _ h := nomatch h
  restores _ _ h := nomatch h
  restores' _ _ h := nomatch h

/-! ## 2. Numbers for files aside -/

/-- At most `k` stores have come. -/
def Begun (c : Crowd) (k : Nat) : Prop :=
  ∃ s : Finset Nat, s.card ≤ k ∧ ∀ i p, c.stores i = some p → i ∈ s

theorem begun_start (v : Vault) (d : Disk) : (start v d).Begun 0 :=
  ⟨∅, Nat.le_refl 0, fun _ _ h => nomatch h⟩

theorem Begun.step {k : Nat} (h : c.Begun k) (action : Action) :
    (c.step v action).Begun (k + 1) := by
  obtain ⟨s, hcard, hall⟩ := h
  have hkeep {c₁ : Crowd} (hsame : ∀ i p, c₁.stores i = some p → ∃ q, c.stores i = some q) :
      c₁.Begun (k + 1) :=
    ⟨s, Nat.le_succ_of_le hcard, fun i p hp => (hsame i p hp).elim fun q hq => hall i q hq⟩
  cases action with
  | store i order =>
    simp only [Crowd.step]
    split
    · exact hkeep fun j p hp => ⟨p, hp⟩
    · refine ⟨insert i s, (Finset.card_insert_le i s).trans (Nat.succ_le_succ hcard), ?_⟩
      intro j p hp
      rcases eq_some_update hp with ⟨rfl, -⟩ | ⟨-, hp⟩
      · exact Finset.mem_insert_self j s
      · exact Finset.mem_insert_of_mem (hall j p hp)
  | advanceStore i fault =>
    simp only [Crowd.step]
    split
    · exact hkeep fun j p hp => ⟨p, hp⟩
    next p₀ hp₀ =>
      split
      · refine hkeep fun j p hp => ?_
        rcases eq_some_update hp with ⟨rfl, -⟩ | ⟨-, hp⟩
        · exact ⟨p₀, hp₀⟩
        · exact ⟨p, hp⟩
      · exact hkeep fun j p hp => ⟨p, hp⟩
  | remove | advanceRemoval | restore | list | read =>
    simp only [Crowd.step]
    repeat' split
    all_goals exact hkeep fun j p hp => ⟨p, hp⟩

/-- The next file aside gets a number below the number of stores that have come. -/
theorem Standing.freeNumber_le (hbase : EmptyBase v d₀ root) (h : c.Standing v root d₀) {k : Nat}
    (hbegun : c.Begun k) : Upload.freeNumber v c.state.disk ≤ k := by
  obtain ⟨s, hcard, hall⟩ := hbegun
  have howner (m : Fin (Upload.freeNumber v c.state.disk)) : ∃ i p, c.stores i = some p ∧
      p.upload.opened? = some (some (v.pathOf (.staged m))) := by
    have htaken := ((freeNumber_spec hbase h.tidy.tree).2 m m.isLt).2
    obtain ⟨node, hnode⟩ := Option.ne_none_iff_exists'.mp htaken
    exact h.owned m node hnode
  choose f p hp hopened using howner
  have hinjective : Function.Injective f := by
    intro m m' heq
    have hsame := hp m'
    rw [← heq, hp m] at hsame
    have hpaths := hopened m'
    rw [← Option.some.inj hsame, hopened m] at hpaths
    exact Fin.ext (Spot.staged.inj (pathOf_injective (Option.some.inj (Option.some.inj hpaths))))
  have hle := Finset.card_le_card_of_injOn f (s := Finset.univ) (t := s)
    (fun m _ => hall (f m) (p m) (hp m)) hinjective.injOn
  rw [Finset.card_fin] at hle
  exact hle.trans hcard

/-- In a run of fewer than `10 ^ 248` actions nobody runs out of numbers. -/
theorem given_of_mem_trail (hbase : EmptyBase v d₀ root) {k : Nat} (h : c.Standing v root d₀)
    (hbegun : c.Begun k) {actions : List Action} (hfew : k + actions.length ≤ 10 ^ 248) {m : Moment}
    (hm : m ∈ trail v c readers actions) : m.given v = m.action := by
  induction actions generalizing c readers k with
  | nil => cases hm
  | cons action actions ih =>
    rw [List.length_cons] at hfew
    rcases List.mem_cons.mp hm with rfl | hm
    · have hfits : ¬TooLong v (Upload.freeNumber v c.state.disk) :=
        not_tooLong_of_lt hbase (Nat.lt_of_le_of_lt (h.freeNumber_le hbase hbegun) (by omega))
      unfold Moment.given
      split
      next i fault heq =>
        split
        next p hp =>
          rw [heq]
          refine congrArg _ ?_
          unfold Upload.met
          split
          · rw [if_neg fun hlong => hfits hlong.2]
          · rfl
        next => exact heq.symm
      next => rfl
    · exact ih (h.step hbase action) (hbegun.step action) (by omega) hm

/-! ## 3. Isolation -/

/-- Take any run of a crowd in a vault that starts in an empty directory.  What is done for a user
in it, and nothing else, is a run in which each of the actions looks the same and after which the
same is to be seen in the user's directory.  It is made of the very same actions unless the run is
so long that numbers for files aside may run out; then the system lets an action fail where it
failed for want of a number before. -/
theorem isolated_run (hbase : EmptyBase v d₀ root) (actions : List Action) (user : UInt32) :
    let own := (trail v (start v d₀) (fun _ => none) actions).filter (·.concerns user)
    let alone := own.map (·.given v)
    own.map (fun m => m.crowd.seen v m.action) = noticed v (start v d₀) alone ∧
      (∀ steps : List Name,
        (run v (start v d₀) alone).state.disk.sight?
            (root ++ Decimal.encode user.toNat :: steps) =
          (run v (start v d₀) actions).state.disk.sight?
            (root ++ Decimal.encode user.toNat :: steps)) ∧
      (actions.length ≤ 10 ^ 248 → alone = own.map (·.action)) := by
  obtain ⟨hseen, readers, ρ, hmirrors⟩ :=
    (mirrors_start hbase user fun _ => none).run hbase actions
  refine ⟨hseen, fun steps => ?_, fun hfew => ?_⟩
  · exact hmirrors.alike.sight_eq hmirrors.orderly hmirrors.standing'.tidy.tree steps
  · refine List.map_congr_left fun m hm => ?_
    refine given_of_mem_trail hbase (standing_start hbase) (begun_start v d₀) ?_
      (List.mem_of_mem_filter hm)
    rwa [Nat.zero_add]

/-- Two users store under the same name at the same time; one of them looks at what is there. -/
theorem isolated_run_two :
    let v : Vault :=
      { base := { absolute := true, steps := [] }, options := { exclusive := true } }
    let d : Disk := {}
    let user : UInt32 := 7
    let actions : List Action :=
      [.store 0 ⟨7, [0x61], 1, .ofBytes [1]⟩, .store 1 ⟨8, [0x61], 1, .ofBytes [2]⟩] ++
        (List.range 14).flatMap (fun _ => [.advanceStore 1 none, .advanceStore 0 none]) ++
        [.remove 0 8 [0x61], .list 7, .restore 0 7 [0x61], .advanceRemoval 0 none, .read 0 1]
    let own := (trail v (start v d) (fun _ => none) actions).filter (·.concerns user)
    let alone := own.map (·.given v)
    own.map (fun m => m.crowd.seen v m.action) = noticed v (start v d) alone ∧
      (∀ steps : List Name,
        (run v (start v d) alone).state.disk.sight? ([] ++ Decimal.encode user.toNat :: steps) =
          (run v (start v d) actions).state.disk.sight?
            ([] ++ Decimal.encode user.toNat :: steps)) ∧
      (actions.length ≤ 10 ^ 248 → alone = own.map (·.action)) := by
  intro v d user actions
  exact isolated_run (emptyBase_root _) actions user

end Crowd

end UserVault.Vault
