import UserVault.Proofs.Vault.Beside
import UserVault.Proofs.Vault.Crowd

/-!
# Crowds that see whole payloads

In a vault that writes files aside, no two stores of a crowd write to one file, and what stands
under a user's name is the whole payload of the order that was renamed there last.  Every step of
every party keeps it so.
-/

namespace UserVault.Vault

open Disk Link

variable {v : Vault} {root : Place} {d₀ d d' : Disk} {c : Crowd}

/-! ## 1. Payloads that may be cut off -/

/-- The payload of an order, with zeros for what does not come. -/
def Order.padded (o : Order) : Bytes :=
  o.payload ++ List.replicate (o.length.toNat - o.body.front.length) 0

/-- The zeros that stand for what does not come. -/
def Order.missing (o : Order) : Bytes := List.replicate (o.length.toNat - o.body.front.length) 0

theorem Order.length_padded (o : Order) : o.padded.length = o.length.toNat := by
  rw [Order.padded, Order.payload, List.length_append, List.length_take, List.length_replicate]
  omega

theorem Order.front_append_missing (o : Order) :
    o.body.front ++ o.missing = o.padded ++ o.body.front.drop o.length.toNat := by
  unfold Order.padded Order.missing Order.payload
  -- either the payload comes whole, and the rest is behind it, or all that comes is payload
  by_cases hle : o.length.toNat ≤ o.body.front.length
  · rw [Nat.sub_eq_zero_of_le hle, List.replicate_zero, List.append_nil, List.append_nil,
      List.take_append_drop]
  · rw [List.take_of_length_le (by omega), List.drop_of_length_le (by omega), List.append_nil]

-- If nothing of the padding is left to be read, there was none.
theorem Order.padded_eq {o : Order} {front : Bytes}
    (h : front ++ o.missing = o.body.front.drop o.length.toNat) :
    o.padded = o.payload ∧ o.payload.length = o.length.toNat := by
  have hlength := congrArg List.length h
  rw [Order.missing, List.length_append, List.length_replicate, List.length_drop] at hlength
  have hle : o.length.toNat ≤ o.body.front.length := by omega
  refine ⟨?_, ?_⟩
  · rw [Order.padded, Nat.sub_eq_zero_of_le hle, List.replicate_zero, List.append_nil]
  · rw [Order.payload, List.length_take]
    omega

/-! ## 2. One store -/

/-- A store that is under way, under a name that is accepted. -/
structure Storing.Working (v : Vault) (root : Place) (d : Disk) (p : Storing) : Prop where
  name : accepts p.order.name
  placed : Placed v p.order.user p.order.name p.upload
  accounts : p.upload.Accounts p.order.padded p.order.missing
    (p.order.body.front.drop p.order.length.toNat) p.order.body.barrier
  holding : Holding v root p.order.user p.order.name p.order.padded p.upload d

def Storing.Sound (v : Vault) (root : Place) (d : Disk) (p : Storing) : Prop :=
  (∃ result, p.upload.stage = .finished result) ∨ p.Working v root d

theorem opened?_start (v : Vault) (o : Order) :
    (Upload.start v o.user o.name o.length o.body).opened? = none := by
  unfold Upload.start
  split <;> rfl

theorem sound_start_store (v : Vault) (root : Place) (d : Disk) (o : Order) :
    Storing.Sound v root d ⟨o, Upload.start v o.user o.name o.length o.body⟩ := by
  by_cases hname : accepts o.name
  · exact .inr ⟨hname, placed_start v o.user hname o.length o.body,
      Upload.accounts_start v o.user o.name o.length_padded o.front_append_missing,
      holding_start v root o.user o.length_padded o.body d⟩
  · rcases tidy_start_store v o with hend | ⟨haccepts, -⟩
    · exact .inl hend
    · exact absurd haccepts hname

theorem Storing.Sound.working {p : Storing} (h : p.Sound v root d) {staged : Option Path}
    (hopened : p.upload.opened? = some staged) : p.Working v root d := by
  rcases h with ⟨result, hstage⟩ | h
  · rw [Upload.opened?, hstage] at hopened
    cases hopened
  · exact h

/-- The file that a store has opened is there, at a spot of its own. -/
theorem Storing.Working.staged (hatomic : v.options.atomic = true) {p : Storing}
    (h : p.Working v root d) {staged : Option Path} (hopened : p.upload.opened? = some staged) :
    ∃ number id, staged = some (v.pathOf (.staged number)) ∧
      d.node? (Spot.under (.staged number) root) = some (.file id) := by
  obtain ⟨spot, hown⟩ := h.placed.opened staged hopened
  obtain ⟨number, rfl, hpath⟩ := hown.exists_staged hatomic
  obtain ⟨id, hnode, -⟩ := h.holding.file staged _ hopened hown
  exact ⟨number, id, hpath, hnode⟩

/-- What others do leaves a store's file alone. -/
theorem Storing.Sound.beside (hatomic : v.options.atomic = true) {p : Storing}
    (h : p.Sound v root d) {P : Spot → Prop} (hbeside : FrozenKept root P d d')
    (hown : ∀ number, p.upload.opened? = some (some (v.pathOf (.staged number))) →
      ¬P (.staged number)) : p.Sound v root d' := by
  rcases h with hend | h
  · exact .inl hend
  · refine .inr ⟨h.name, h.placed, h.accounts, h.holding.congr hbeside.kept ?_⟩
    intro staged spot hopened hspot
    obtain ⟨number, rfl, rfl⟩ := hspot.exists_staged hatomic
    exact hown number hopened

theorem Upload.publishes_iff (u : Upload) (v : Vault) (fault : Option Errno) (s : State) :
    u.Publishes (u.step v fault s).1 ↔ u.renames fault s.disk = true := by
  constructor
  · rintro ⟨⟨staged, hstage⟩, houtcome⟩
    simp only [Upload.step, hstage] at houtcome
    simp only [Upload.renames, hstage]
    cases hcall : attempt fault (s.disk.rename staged u.target) with
    | ok disk => rfl
    | error e =>
      rw [hcall] at houtcome
      cases houtcome
  · intro hrenames
    unfold Upload.renames at hrenames
    split at hrenames
    next staged hstage =>
      refine ⟨⟨staged, hstage⟩, ?_⟩
      simp only [Upload.step, hstage]
      cases hcall : attempt fault (s.disk.rename staged u.target) with
      | ok disk => exact Upload.outcome?_settle _ _
      | error e =>
        rw [hcall] at hrenames
        cases hrenames
    next => cases hrenames

/-- What a step of a store does to the store itself and beside the others. -/
structure Storing.Steps (v : Vault) (root : Place) (d : Disk) (p : Storing) (u' : Upload)
    (d' : Disk) : Prop where
  sound : Storing.Sound v root d' { p with upload := u' }
  beside : FrozenKept root (Reach v root p.order.user p.order.name p.upload u' d) d d'
  opened : ∀ path, u'.opened? = some (some path) → p.upload.opened? = some (some path) ∨
    ∃ number, path = v.pathOf (.staged number) ∧
      d.node? (Spot.under (.staged number) root) = none
  publishes : p.upload.Publishes u' →
    fileAt d' (Spot.under (.file p.order.user p.order.name) root) = some p.order.payload ∧
      p.order.payload.length = p.order.length.toNat

theorem Storing.Sound.step (hbase : EmptyBase v d₀ root) (hatomic : v.options.atomic = true)
    {p : Storing} {s : State} (h : p.Sound v root s.disk) (htree : Orderly v root d₀ s.disk)
    (fault : Option Errno) :
    p.Steps v root s.disk (p.upload.step v fault s).1 (p.upload.step v fault s).2.disk := by
  rcases h with ⟨result, hstage⟩ | h
  · rw [Upload.step_of_finished hstage]
    refine ⟨.inl ⟨result, hstage⟩, FrozenKept.refl root _ _, fun _ hopened => .inl hopened, ?_⟩
    rintro ⟨⟨staged, hstage'⟩, -⟩
    rw [hstage] at hstage'
    cases hstage'
  · obtain ⟨hname, hplaced, haccounts, hholding⟩ := h
    have hmove := move_step hbase htree hname hplaced fault
    refine ⟨.inr ⟨hname, hmove.placed hplaced, Upload.accounts_step v fault s haccounts,
      hmove.holding hholding htree hplaced haccounts⟩, hmove.beside hatomic htree hplaced hholding,
      fun _ hopened => hmove.opened hopened, fun hpublishes => ?_⟩
    obtain ⟨hfile, hfront⟩ := hmove.publishes hatomic hplaced haccounts hholding hpublishes
    -- what was renamed is the padded payload, of which all had come
    obtain ⟨hpadded, hlength⟩ := Order.padded_eq hfront
    rw [hpadded] at hfile
    exact ⟨hfile, hlength⟩

/-! ## 3. Crowds -/

/-- No two stores write to one file, and under each name stands the whole payload that was put
there last. -/
structure Crowd.Sound (v : Vault) (root : Place) (d₀ : Disk) (c : Crowd) : Prop where
  tidy : c.Tidy v root d₀
  stores : ∀ i p, c.stores i = some p → p.Sound v root c.state.disk
  distinct : ∀ i j p q path, i ≠ j → c.stores i = some p → c.stores j = some q →
    p.upload.opened? = some (some path) → q.upload.opened? ≠ some (some path)
  whole : ∀ o, .put o ∈ c.events → o.payload.length = o.length.toNat
  files : ∀ user name, fileAt c.state.disk (Spot.under (.file user name) root) =
    (lastPut user name c.events).map Order.payload

/-- What a step of a removal does beside others: it takes the user's file away, or nothing. -/
theorem Removing.Tidy.beside (hbase : EmptyBase v d₀ root) {p : Removing} (h : p.Tidy v) {s : State}
    (htree : Orderly v root d₀ s.disk) (fault : Option Errno) :
    FrozenKept root (fun spot => spot = .file p.user p.name ∧ p.removal.unlinks fault s.disk = true)
        s.disk (p.removal.step fault s).2.disk ∧
      (p.removal.unlinks fault s.disk = true →
        fileAt (p.removal.step fault s).2.disk (Spot.under (.file p.user p.name) root) = none) := by
  rcases h with ⟨result, hstage⟩ | ⟨hname, htarget⟩
  · rw [Removal.step_of_finished hstage]
    refine ⟨FrozenKept.refl root _ _, fun hunlinks => ?_⟩
    simp only [Removal.unlinks, hstage] at hunlinks
    cases hunlinks
  -- the call that the crowd keeps in mind and the step's own move are the same one
  · have hunlink := htree.unlink_file hbase p.user hname
    have hmove := removal_step fault hbase htree hname htarget
    generalize (p.removal.step fault s).1 = r' at hmove
    generalize (p.removal.step fault s).2.disk = d' at hmove ⊢
    cases hmove with
    | idle turn stage hidle =>
      refine ⟨FrozenKept.refl root _ _, fun hunlinks => ?_⟩
      unfold Removal.unlinks at hunlinks
      split at hunlinks
      next hstage =>
        rw [htarget, hunlink] at hunlinks
        rcases hidle hstage with hfault | hnone
        · cases fault with
          | none => exact absurd rfl hfault
          | some e => cases hunlinks
        · rw [hnone] at hunlinks
          cases fault <;> cases hunlinks
      next => cases hunlinks
    | unlinked hstage hfault hnode =>
      have hunlinks : p.removal.unlinks fault s.disk = true := by
        simp only [Removal.unlinks, hstage, htarget, hunlink, hfault, attempt]
        rw [if_pos hnode]
        rfl
      refine ⟨(frozenKept_take _ root _).mono fun _ heq => ⟨heq, hunlinks⟩, fun _ => ?_⟩
      exact fileAt_of_none (by rw [node?_take, if_pos rfl])

namespace Crowd

theorem lastPut_put (o : Order) (user : UInt32) (name : Bytes) (events : List Event) :
    lastPut user name (.put o :: events) =
      if o.user = user ∧ o.name = name then some o else lastPut user name events := rfl

section
variable {i : Nat} {p : Storing} {u' : Upload}

/-- No store has its file where another one has it, or where there is nothing. -/
theorem Sound.apart (hatomic : v.options.atomic = true) (h : c.Sound v root d₀)
    (hp : c.stores i = some p) {j : Nat} {q : Storing} (hj : j ≠ i) (hq : c.stores j = some q)
    {number : Nat} (hfile : q.upload.opened? = some (some (v.pathOf (.staged number)))) :
    p.upload.opened? ≠ some (some (v.pathOf (.staged number))) ∧
      c.state.disk.node? (Spot.under (.staged number) root) ≠ none := by
  refine ⟨h.distinct j i q p _ hj hq hp hfile, fun hnone => ?_⟩
  obtain ⟨number', id, hpath, hnode⟩ := ((h.stores j q hq).working hfile).staged hatomic hfile
  cases pathOf_injective (Option.some.inj hpath)
  rw [hnone] at hnode
  cases hnode

-- What a step of the store at `i` leaves of a sound crowd, one part after the other.

theorem Sound.stores_of_steps (hatomic : v.options.atomic = true) (h : c.Sound v root d₀)
    (hp : c.stores i = some p) (hsteps : p.Steps v root c.state.disk u' d') :
    ∀ j q, Function.update c.stores i (some { p with upload := u' }) j = some q →
      q.Sound v root d' := by
  intro j q hq
  by_cases hj : j = i
  · rw [hj, Function.update_self] at hq
    exact Option.some.inj hq ▸ hsteps.sound
  · rw [Function.update_of_ne hj] at hq
    refine (h.stores j q hq).beside hatomic hsteps.beside fun number hfile hreach => ?_
    obtain ⟨hne, hsome⟩ := h.apart hatomic hp hj hq hfile
    rcases hreach with heq | ⟨heq, -⟩ | ⟨number', heq, hown | hnone⟩
    · cases heq
    · cases heq
    · exact hne hown
    · exact hsome hnone

theorem Sound.distinct_of_steps (hatomic : v.options.atomic = true) (h : c.Sound v root d₀)
    (hp : c.stores i = some p) (hsteps : p.Steps v root c.state.disk u' d') :
    ∀ j k q r path, j ≠ k →
      Function.update c.stores i (some { p with upload := u' }) j = some q →
      Function.update c.stores i (some { p with upload := u' }) k = some r →
      q.upload.opened? = some (some path) → r.upload.opened? ≠ some (some path) := by
  -- a file that the store has just opened is where there was none
  have hfresh (j : Nat) (q : Storing) (hj : j ≠ i) (hq : c.stores j = some q) (path : Path)
      (hfile : u'.opened? = some (some path)) : q.upload.opened? ≠ some (some path) := by
    intro hfile'
    rcases hsteps.opened path hfile with hold | ⟨number, rfl, hnone⟩
    · exact h.distinct i j p q path (Ne.symm hj) hp hq hold hfile'
    · exact (h.apart hatomic hp hj hq hfile').2 hnone
  intro j k q r path hjk hq hr hfile
  by_cases hj : j = i
  · have hk : k ≠ i := fun hk => hjk (hj.trans hk.symm)
    rw [hj, Function.update_self] at hq
    rw [Function.update_of_ne hk] at hr
    cases hq
    exact hfresh k r hk hr path hfile
  · rw [Function.update_of_ne hj] at hq
    by_cases hk : k = i
    · rw [hk, Function.update_self] at hr
      cases hr
      exact fun hfile' => hfresh j q hj hq path hfile' hfile
    · rw [Function.update_of_ne hk] at hr
      exact h.distinct j k q r path hjk hq hr hfile

theorem Sound.whole_of_steps (h : c.Sound v root d₀)
    (hsteps : p.Steps v root c.state.disk u' d') {renames : Bool}
    (hrenames : p.upload.Publishes u' ↔ renames = true) :
    ∀ o, .put o ∈ (if renames then .put p.order :: c.events else c.events) →
      o.payload.length = o.length.toNat := by
  intro o ho
  split at ho
  next hput =>
    rcases List.mem_cons.mp ho with heq | ho
    · cases heq
      exact (hsteps.publishes (hrenames.mpr hput)).2
    · exact h.whole o ho
  next => exact h.whole o ho

theorem Sound.files_of_steps (h : c.Sound v root d₀)
    (hsteps : p.Steps v root c.state.disk u' d') {renames : Bool}
    (hrenames : p.upload.Publishes u' ↔ renames = true) (user : UInt32) (name : Bytes) :
    fileAt d' (Spot.under (.file user name) root) =
      (lastPut user name (if renames then .put p.order :: c.events else c.events)).map
        Order.payload := by
  -- a file is left alone unless it is the one that the store renames its own to
  have hkept (hne : ¬(p.order.user = user ∧ p.order.name = name ∧ p.upload.Publishes u')) :
      fileAt d' (Spot.under (.file user name) root) =
        (lastPut user name c.events).map Order.payload := by
    rw [hsteps.beside.kept.fileAt, h.files]
    rintro (heq | ⟨heq, hpublishes⟩ | ⟨number, heq, -⟩)
    · cases heq
    · cases heq
      exact hne ⟨rfl, rfl, hpublishes⟩
    · cases heq
  split
  next hput =>
    rw [lastPut_put]
    split
    next heq =>
      obtain ⟨rfl, rfl⟩ := heq
      exact (hsteps.publishes (hrenames.mpr hput)).1
    next hne => exact hkept fun heq => hne ⟨heq.1, heq.2.1⟩
  next hput => exact hkept fun heq => hput (hrenames.mp heq.2.2)

/-- A step of one store keeps the crowd sound. -/
theorem Sound.advanceStore (hbase : EmptyBase v d₀ root) (hatomic : v.options.atomic = true)
    (h : c.Sound v root d₀) (hp : c.stores i = some p)
    (hready : p.upload.ready c.state = true) (fault : Option Errno) :
    (c.step v (.advanceStore i fault)).Sound v root d₀ := by
  have htidy := h.tidy.step hbase (.advanceStore i fault)
  have hsteps := (h.stores i p hp).step hbase hatomic h.tidy.tree fault
  have hrenames := Upload.publishes_iff p.upload v fault c.state
  simp only [Crowd.step, hp, hready, if_true] at htidy ⊢
  exact ⟨htidy, h.stores_of_steps hatomic hp hsteps, h.distinct_of_steps hatomic hp hsteps,
    h.whole_of_steps hsteps hrenames, h.files_of_steps hsteps hrenames⟩

end

theorem lastPut_gone (user' : UInt32) (name' : Bytes) (user : UInt32) (name : Bytes)
    (events : List Event) :
    lastPut user name (.gone user' name' :: events) =
      if user' = user ∧ name' = name then none else lastPut user name events := rfl

/-- A step of one removal keeps the crowd sound. -/
theorem Sound.advanceRemoval (hbase : EmptyBase v d₀ root) (hatomic : v.options.atomic = true)
    (h : c.Sound v root d₀) {i : Nat} {p : Removing} (hp : c.removals i = some p)
    (hready : p.removal.ready c.state = true) (fault : Option Errno) :
    (c.step v (.advanceRemoval i fault)).Sound v root d₀ := by
  have htidy := h.tidy.step hbase (.advanceRemoval i fault)
  obtain ⟨hbeside, hgone⟩ := (h.tidy.removals i p hp).beside hbase h.tidy.tree fault
  simp only [Crowd.step, hp, hready, if_true] at htidy ⊢
  refine ⟨htidy, ?_, h.distinct, ?_, ?_⟩
  · intro j q hq
    refine (h.stores j q hq).beside hatomic hbeside fun number _ hspot => ?_
    cases hspot.1
  · intro o ho
    dsimp only at ho
    split at ho
    · rcases List.mem_cons.mp ho with heq | ho
      · cases heq
      · exact h.whole o ho
    · exact h.whole o ho
  · intro user name
    have hkept (hne : ¬(p.user = user ∧ p.name = name ∧
        p.removal.unlinks fault c.state.disk = true)) :
        fileAt (p.removal.step fault c.state).2.disk (Spot.under (.file user name) root) =
          (lastPut user name c.events).map Order.payload := by
      rw [hbeside.kept.fileAt, h.files]
      rintro ⟨heq, hunlinks⟩
      cases heq
      exact hne ⟨rfl, rfl, hunlinks⟩
    dsimp only
    split
    next hunlinks =>
      rw [lastPut_gone]
      split
      next heq =>
        obtain ⟨rfl, rfl⟩ := heq
        exact hgone hunlinks
      next hne => exact hkept fun heq => hne ⟨heq.1, heq.2.1⟩
    next hunlinks => exact hkept fun heq => hunlinks heq.2.2

theorem sound_start (hbase : EmptyBase v d₀ root) : (start v d₀).Sound v root d₀ := by
  refine ⟨tidy_start hbase, (fun _ _ h => nomatch h), (fun _ _ _ _ _ _ h => nomatch h),
    (fun _ h => nomatch h), fun user name => ?_⟩
  exact (agrees_prepare hbase).files user name

/-- Every step keeps a crowd sound. -/
theorem Sound.step (hbase : EmptyBase v d₀ root) (hatomic : v.options.atomic = true)
    (h : c.Sound v root d₀) (action : Action) : (c.step v action).Sound v root d₀ := by
  have htidy := h.tidy.step hbase action
  cases action with
  | advanceStore i fault =>
    cases hp : c.stores i with
    | none =>
      simp only [Crowd.step, hp]
      exact h
    | some p =>
      cases hready : p.upload.ready c.state with
      | true => exact h.advanceStore hbase hatomic hp hready fault
      | false =>
        simp only [Crowd.step, hp, hready]
        exact h
  | advanceRemoval i fault =>
    cases hp : c.removals i with
    | none =>
      simp only [Crowd.step, hp]
      exact h
    | some p =>
      cases hready : p.removal.ready c.state with
      | true => exact h.advanceRemoval hbase hatomic hp hready fault
      | false =>
        simp only [Crowd.step, hp, hready]
        exact h
  | store i order =>
    simp only [Crowd.step] at htidy ⊢
    split at htidy
    · exact h
    next hfree =>
      have hclosed := opened?_start v order
      refine ⟨htidy, forall_update h.stores (sound_start_store v root _ order), ?_, h.whole,
        h.files⟩
      intro j k q r path hjk hq hr hfile
      dsimp only at hq hr
      by_cases hj : j = i
      · rw [hj, Function.update_self] at hq
        cases hq
        rw [hclosed] at hfile
        cases hfile
      · rw [Function.update_of_ne hj] at hq
        by_cases hk : k = i
        · rw [hk, Function.update_self] at hr
          cases hr
          rw [hclosed]
          intro heq
          cases heq
        · rw [Function.update_of_ne hk] at hr
          exact h.distinct j k q r path hjk hq hr hfile
  | remove i user name =>
    simp only [Crowd.step] at htidy ⊢
    split at htidy
    · exact h
    · exact ⟨htidy, h.stores, h.distinct, h.whole, h.files⟩
  | restore i user name =>
    simp only [Crowd.step] at htidy ⊢
    split at htidy
    · exact h
    · exact ⟨htidy, h.stores, h.distinct, h.whole, h.files⟩
  | list user => exact h
  | read i count =>
    simp only [Crowd.step] at htidy ⊢
    split at htidy
    · exact h
    · exact ⟨htidy, h.stores, h.distinct, h.whole, h.files⟩

theorem sound_run (hbase : EmptyBase v d₀ root) (hatomic : v.options.atomic = true)
    (actions : List Action) : (run v (start v d₀) actions).Sound v root d₀ :=
  run_induction actions (fun _ action h => h.step hbase hatomic action) (sound_start hbase)

end Crowd

end UserVault.Vault
