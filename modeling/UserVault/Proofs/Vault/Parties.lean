import UserVault.Proofs.Vault.Turns

/-!
# Parties at a table of turns

Any number of parties take a turn each, every one at its path, and their steps are interleaved in
whatever way; a step that has to wait is not taken.  At every moment of every run

1. at most one party is inside at a path, and whoever waits or is inside refers to the lock that
   the table has for the path, which nobody's next step takes away or replaces;
2. a party waits for nobody but the one inside at its own path, and those at one path come just as
   far as if there were no others;
3. a path has an entry only as long as a party is under way there.
-/

namespace UserVault.Vault

open Disk

/-! ## 1. Turns -/

namespace Turn

variable {turn : Turn} {t : Turns} {path path' : Path}

/-- Whether the first step of a turn has been taken, and the last one not yet. -/
def underWay : Turn → Bool
  | .coming | .gone => false
  | .waiting _ | .inside _ | .released _ | .leaving => true

theorem underWay_of_lock? (h : turn.lock? ≠ none) : turn.underWay = true := by
  cases turn with
  | waiting | inside | released => rfl
  | coming | leaving | gone => exact absurd rfl h

theorem stepsLeft_eq_zero : turn.stepsLeft = 0 ↔ turn = .gone := by
  cases turn <;> simp [stepsLeft]

theorem stepsLeft_eq_three : turn.stepsLeft = 3 ↔ ∃ id, turn = .inside id := by
  cases turn <;> simp [stepsLeft]

theorem stepsLeft_eq_four : turn.stepsLeft = 4 ↔ ∃ id, turn = .waiting id := by
  cases turn <;> simp [stepsLeft]

theorem stepsLeft_next (turn : Turn) (path : Path) (t : Turns) :
    (turn.next path t).1.stepsLeft = turn.stepsLeft - 1 := by
  cases turn <;> rfl

/-- Every step is ready but that of a party that waits. -/
theorem waiting_of_not_ready (h : turn.ready t = false) : ∃ id, turn = .waiting id := by
  cases turn with
  | waiting id => exact ⟨id, rfl⟩
  | coming | inside | released | leaving | gone => cases h

/-- Whoever refers to a lock takes no entry away. -/
theorem entries_next (h : turn.lock? ≠ none) : (turn.next path t).2.entries = t.entries := by
  cases turn with
  | waiting | inside | released => exact Turns.entries_update ..
  | coming | leaving | gone => exact absurd rfl h

/-- A step leaves the entries of other paths alone. -/
theorem get?_entries_next (h : path' ≠ path) :
    (turn.next path t).2.entries.get? path' = t.entries.get? path' := by
  cases turn with
  | coming =>
    simp only [next, Turns.enter]
    split
    · rw [Turns.entries_update]
    · show (t.entries.set path t.nextLock).get? path' = _
      rw [Table.get?_set, if_neg h]
  | waiting | inside | released => rw [entries_next (by simp [lock?])]
  | leaving =>
    show (t.sweep path).entries.get? path' = _
    unfold Turns.sweep
    split
    · rfl
    · split
      · show (t.entries.erase path).get? path' = _
        rw [Table.get?_erase, if_neg h]
      · rfl
  | gone => rfl

end Turn

/-- An entry that a sweep leaves is that of a lock to which somebody refers. -/
theorem Turns.Fair.exists_of_sweep {ι : Type} {t : Turns} {turnOf : ι → Option (Path × Turn)}
    {path : Path} (h : t.Fair turnOf) (hentry : (t.sweep path).entries.get? path ≠ none) :
    ∃ x turn, turnOf x = some (path, turn) ∧ turn.lock? ≠ none := by
  unfold Turns.sweep at hentry
  cases hid : t.entries.get? path with
  | none =>
    simp only [hid] at hentry
    exact absurd rfl hentry
  | some id =>
    obtain ⟨-, ⟨parties, held⟩, hlock, hserves⟩ := h.lock path id hid
    obtain ⟨who, hwho, hcard⟩ := hserves.count
    -- if nobody referred to the lock, the sweep would have taken the entry away
    have hcounted : 0 < who.card := by
      rw [hcard]
      apply Nat.pos_of_ne_zero
      rintro rfl
      simp only [hid, hlock, Table.get?_erase, if_true] at hentry
      exact hentry rfl
    obtain ⟨x, hx⟩ := Finset.card_pos.mp hcounted
    exact ⟨x, (hwho x).mp hx⟩

/-! ## 2. Runs -/

/-- Parties that take a turn each, and the table that they share. -/
structure Parties (ι : Type) where
  turns : Turns := {}
  turn : ι → Turn := fun _ => .coming

namespace Parties

variable {ι : Type} {path : ι → Path} {s s' : Parties ι} {x y : ι} {p : Path}

/-- Where each party is with its turn, and at which path. -/
def turnOf (path : ι → Path) (s : Parties ι) (x : ι) : Option (Path × Turn) :=
  some (path x, s.turn x)

theorem turnOf_eq_some {turn : Turn} :
    s.turnOf path x = some (p, turn) ↔ path x = p ∧ s.turn x = turn := by
  rw [turnOf, Option.some.injEq, Prod.mk.injEq]

variable [DecidableEq ι]

/-- A party takes the next step of its turn, unless it has to wait. -/
def step (path : ι → Path) (s : Parties ι) (x : ι) : Parties ι :=
  if (s.turn x).ready s.turns then
    let (turn, turns) := (s.turn x).next (path x) s.turns
    { turns, turn := Function.update s.turn x turn }
  else s

/-- The parties after some steps; `order` tells who takes them, one after the other. -/
def run (path : ι → Path) (s : Parties ι) (order : List ι) : Parties ι :=
  order.foldl (step path) s

theorem run_append (s : Parties ι) (order order' : List ι) :
    s.run path (order ++ order') = (s.run path order).run path order' :=
  List.foldl_append ..

theorem step_of_not_ready (h : (s.turn x).ready s.turns = false) : s.step path x = s :=
  if_neg (by rw [h]; exact Bool.false_ne_true)

section
variable (h : (s.turn x).ready s.turns = true)
include h

theorem step_of_ready :
    s.step path x =
      { turns := ((s.turn x).next (path x) s.turns).2
        turn := Function.update s.turn x ((s.turn x).next (path x) s.turns).1 } :=
  if_pos h

theorem turns_step : (s.step path x).turns = ((s.turn x).next (path x) s.turns).2 := by
  rw [step_of_ready h]

theorem turn_step_self : (s.step path x).turn x = ((s.turn x).next (path x) s.turns).1 := by
  rw [step_of_ready h]
  exact Function.update_self ..

theorem turnOf_step :
    (s.step path x).turnOf path =
      Function.update (s.turnOf path) x (some (path x, ((s.turn x).next (path x) s.turns).1)) := by
  funext y
  rw [step_of_ready h]
  by_cases hy : y = x
  · subst hy
    rw [Function.update_self]
    exact turnOf_eq_some.mpr ⟨rfl, Function.update_self ..⟩
  · rw [Function.update_of_ne hy]
    exact turnOf_eq_some.mpr ⟨rfl, Function.update_of_ne hy _ _⟩

end

theorem stepsLeft_step (h : (s.turn x).ready s.turns = true) :
    ((s.step path x).turn x).stepsLeft = (s.turn x).stepsLeft - 1 := by
  rw [turn_step_self h, Turn.stepsLeft_next]

theorem turn_step_of_ne (h : y ≠ x) : (s.step path x).turn y = s.turn y := by
  cases hready : (s.turn x).ready s.turns with
  | false => rw [step_of_not_ready hready]
  | true =>
    rw [step_of_ready hready]
    exact Function.update_of_ne h _ _

theorem turn_run_of_notMem (order : List ι) (h : y ∉ order) (s : Parties ι) :
    (s.run path order).turn y = s.turn y := by
  induction order generalizing s with
  | nil => rfl
  | cons x order ih =>
    rw [List.mem_cons, not_or] at h
    exact (ih h.2 (s.step path x)).trans (turn_step_of_ne h.1)

/-! ## 3. What every step keeps -/

/-- The table is right about all parties, and an entry is left only where somebody will still look
whether to take it away. -/
structure Upkept (path : ι → Path) (s : Parties ι) : Prop where
  fair : s.turns.Fair (s.turnOf path)
  needed : ∀ p, s.turns.entries.get? p ≠ none → ∃ x, path x = p ∧ (s.turn x).underWay = true

omit [DecidableEq ι] in
theorem upkept_start (path : ι → Path) : Upkept path {} where
  fair := Turns.fair_empty.congr fun x p turn hlock => by
    rw [turnOf_eq_some]
    refine ⟨?_, fun h => nomatch h⟩
    rintro ⟨-, rfl⟩
    exact absurd rfl hlock
  needed p h := absurd rfl h

-- Those who have been under way still are, unless it is the one that moves.
theorem underWay_of_ne (hway : (s.turn y).underWay = true) (hne : y ≠ x) :
    ((s.step path x).turn y).underWay = true := by
  rw [turn_step_of_ne hne]
  exact hway

/-- A step leaves no entry that nobody will look at: who goes leaves the entry only to somebody
else. -/
theorem Upkept.needed_step (h : s.Upkept path) (hready : (s.turn x).ready s.turns = true)
    (hentry : (s.step path x).turns.entries.get? p ≠ none) :
    ∃ y, path y = p ∧ ((s.step path x).turn y).underWay = true := by
  rw [turns_step hready] at hentry
  by_cases hp : p = path x
  · subst hp
    have hself : (s.step path x).turn x = ((s.turn x).next (path x) s.turns).1 :=
      turn_step_self hready
    cases hturn : s.turn x with
    | coming | waiting | inside | released => exact ⟨x, rfl, by rw [hself, hturn]; rfl⟩
    -- it goes without taking the entry away, so somebody else refers to the lock
    | leaving =>
      rw [hturn] at hentry
      obtain ⟨y, turn, hy, hlock⟩ := h.fair.exists_of_sweep hentry
      obtain ⟨hpath, rfl⟩ := turnOf_eq_some.mp hy
      refine ⟨y, hpath, underWay_of_ne (Turn.underWay_of_lock? hlock) ?_⟩
      rintro rfl
      rw [hturn] at hlock
      exact hlock rfl
    -- its step does nothing, and the party that looks after the entry is another one
    | gone =>
      rw [hturn] at hentry
      obtain ⟨y, hpath, hway⟩ := h.needed (path x) hentry
      refine ⟨y, hpath, underWay_of_ne hway ?_⟩
      rintro rfl
      rw [hturn] at hway
      cases hway
  · rw [Turn.get?_entries_next hp] at hentry
    obtain ⟨y, hpath, hway⟩ := h.needed p hentry
    refine ⟨y, hpath, underWay_of_ne hway ?_⟩
    rintro rfl
    exact hp hpath.symm

theorem Upkept.step (h : s.Upkept path) (x : ι) : (s.step path x).Upkept path := by
  cases hready : (s.turn x).ready s.turns with
  | false =>
    rw [step_of_not_ready hready]
    exact h
  | true =>
    refine ⟨?_, fun p => h.needed_step hready⟩
    rw [turnOf_step hready, turns_step hready]
    exact h.fair.next rfl hready

theorem Upkept.run (h : s.Upkept path) (order : List ι) : (s.run path order).Upkept path := by
  induction order generalizing s with
  | nil => exact h
  | cons x order ih => exact ih (h.step x)

/-! ## 4. Locks and entries -/

section
variable (h : s.Upkept path)
include h

omit [DecidableEq ι] in
/-- Whoever refers to a lock refers to that of its path. -/
theorem Upkept.get?_entries {id : LockId} (hlock : (s.turn x).lock? = some id) :
    s.turns.entries.get? (path x) = some id :=
  h.fair.entry_eq (turnOf_eq_some.mpr ⟨rfl, rfl⟩) hlock

/-- No step takes away or replaces the entry of a lock to which somebody refers. -/
theorem Upkept.get?_entries_step {id : LockId} (hlock : (s.turn x).lock? = some id) (y : ι) :
    (s.step path y).turns.entries.get? (path x) = some id := by
  -- another party that moves leaves `x` where it is, and the table right about it
  by_cases hx : x = y
  · subst hx
    cases hready : (s.turn x).ready s.turns with
    | false =>
      rw [step_of_not_ready hready]
      exact h.get?_entries hlock
    | true =>
      rw [turns_step hready, Turn.entries_next (by rw [hlock]; exact Option.some_ne_none id)]
      exact h.get?_entries hlock
  · exact (h.step y).get?_entries (by rw [turn_step_of_ne hx]; exact hlock)

omit [DecidableEq ι] in
/-- A party has to wait just when it has come to a lock that somebody at its path holds. -/
theorem Upkept.not_ready_iff :
    (s.turn x).ready s.turns = false ↔
      (∃ id, s.turn x = .waiting id) ∧ ∃ y id, path y = path x ∧ s.turn y = .inside id := by
  have hiff {id : LockId} (hturn : s.turn x = .waiting id) :
      (s.turn x).ready s.turns = true ↔
        ¬∃ y id', s.turnOf path y = some (path x, .inside id') := by
    rw [← h.fair.isFree_iff_of_waiting (turnOf_eq_some.mpr ⟨rfl, hturn⟩), hturn]
    rfl
  simp only [turnOf_eq_some] at hiff
  constructor
  · intro hready
    obtain ⟨id, hturn⟩ := Turn.waiting_of_not_ready hready
    refine ⟨⟨id, hturn⟩, Classical.byContradiction fun hnobody => ?_⟩
    cases hready.symm.trans ((hiff hturn).mpr hnobody)
  · rintro ⟨⟨id, hturn⟩, hsomebody⟩
    rw [Bool.eq_false_iff]
    exact fun hready => (hiff hturn).mp hready hsomebody

end

/-! ## 5. Parties at other paths -/

/-- Those at a path have come as far here as there, and the same ones have to wait. -/
structure AsFar (path : ι → Path) (p : Path) (s s' : Parties ι) : Prop where
  stepsLeft : ∀ x, path x = p → (s'.turn x).stepsLeft = (s.turn x).stepsLeft
  ready : ∀ x, path x = p → (s'.turn x).ready s'.turns = (s.turn x).ready s.turns

omit [DecidableEq ι] in
/-- Who has to wait at a path is decided by how far those at the path have come. -/
theorem asFar_of_stepsLeft (h : s.Upkept path) (h' : s'.Upkept path)
    (hsteps : ∀ x, path x = p → (s'.turn x).stepsLeft = (s.turn x).stepsLeft) :
    AsFar path p s s' := by
  refine ⟨hsteps, fun x hx => ?_⟩
  -- who waits has four steps left, and who is inside has three
  have hinside (y : ι) (hy : path y = path x) :
      (∃ id, s'.turn y = .inside id) ↔ ∃ id, s.turn y = .inside id := by
    rw [← Turn.stepsLeft_eq_three, ← Turn.stepsLeft_eq_three, hsteps y (hy.trans hx)]
  have hiff : (s'.turn x).ready s'.turns = false ↔ (s.turn x).ready s.turns = false := by
    rw [h.not_ready_iff, h'.not_ready_iff, ← Turn.stepsLeft_eq_four, ← Turn.stepsLeft_eq_four,
      hsteps x hx]
    simp only [exists_and_left]
    exact and_congr_right fun _ => exists_congr fun y => and_congr_right (hinside y)
  exact Bool.eq_iff_iff.mpr (by rw [← Bool.not_eq_false, ← Bool.not_eq_false, hiff])

/-- When one of them takes a step on both sides, they are as far again. -/
theorem AsFar.step (h : s.Upkept path) (h' : s'.Upkept path) (hfar : AsFar path p s s')
    (hy : path y = p) : AsFar path p (s.step path y) (s'.step path y) := by
  refine asFar_of_stepsLeft (h.step y) (h'.step y) fun x hx => ?_
  by_cases hxy : x = y
  · subst hxy
    have hboth := hfar.ready x hx
    cases hready : (s.turn x).ready s.turns with
    | false =>
      rw [hready] at hboth
      rw [step_of_not_ready hready, step_of_not_ready hboth]
      exact hfar.stepsLeft x hx
    | true =>
      rw [hready] at hboth
      rw [stepsLeft_step hready, stepsLeft_step hboth, hfar.stepsLeft x hx]
  · rw [turn_step_of_ne hxy, turn_step_of_ne hxy]
    exact hfar.stepsLeft x hx

/-- Steps at other paths do not count. -/
theorem AsFar.elsewhere (h : s.Upkept path) (h' : s'.Upkept path) (hfar : AsFar path p s s')
    (hy : path y ≠ p) : AsFar path p (s.step path y) s' := by
  refine asFar_of_stepsLeft (h.step y) h' fun x hx => ?_
  rw [turn_step_of_ne (by rintro rfl; exact hy hx)]
  exact hfar.stepsLeft x hx

theorem AsFar.run (h : s.Upkept path) (h' : s'.Upkept path) (hfar : AsFar path p s s')
    (order : List ι) :
    AsFar path p (s.run path order) (s'.run path (order.filter (path · = p))) := by
  induction order generalizing s s' with
  | nil => exact hfar
  | cons y order ih =>
    by_cases hy : path y = p
    · rw [List.filter_cons_of_pos (by simpa using hy)]
      exact ih (h.step y) (h'.step y) (hfar.step h h' hy)
    · rw [List.filter_cons_of_neg (by simpa using hy)]
      exact ih (h.step y) h' (hfar.elsewhere h h' hy)

/-! ## 6. The way to the end -/

/-- Where nobody else is inside, a party comes to its end by its own steps. -/
theorem Upkept.run_alone (h : s.Upkept path)
    (hothers : ∀ y id, y ≠ x → path y = path x → s.turn y ≠ .inside id) :
    (s.run path (List.replicate (s.turn x).stepsLeft x)).turn x = .gone := by
  -- by induction on the steps that are left: none of them has to wait, and each takes one off
  induction hleft : (s.turn x).stepsLeft generalizing s with
  | zero => exact Turn.stepsLeft_eq_zero.mp hleft
  | succ left ih =>
    have hready : (s.turn x).ready s.turns = true := by
      rw [← Bool.not_eq_false, h.not_ready_iff]
      rintro ⟨⟨id, hturn⟩, y, id', hy, hinside⟩
      refine hothers y id' ?_ hy hinside
      rintro rfl
      cases hturn.symm.trans hinside
    refine ih (h.step x) (fun y id hne => ?_) ?_
    · rw [turn_step_of_ne hne]
      exact hothers y id hne
    · rw [stepsLeft_step hready, hleft, Nat.add_sub_cancel]

/-- A party comes to its end by steps of parties at its path alone: the one that is inside goes
first, if there is one. -/
theorem Upkept.exists_run (h : s.Upkept path) (x : ι) :
    ∃ more, (∀ y ∈ more, path y = path x) ∧ (s.run path more).turn x = .gone := by
  by_cases hnobody : ∀ y id, y ≠ x → path y = path x → s.turn y ≠ .inside id
  · refine ⟨_, fun y hy => ?_, h.run_alone hnobody⟩
    rw [List.eq_of_mem_replicate hy]
  · push Not at hnobody
    obtain ⟨y, id, hyx, hy, hinside⟩ := hnobody
    -- `y` is the only one inside, so nobody is any more once it has come to its own end
    have hsingle (z : ι) (id' : LockId) (hz : path z = path x) (hturn : s.turn z = .inside id') :
        z = y :=
      h.fair.inside_unique (turnOf_eq_some.mpr ⟨hz, hturn⟩) (turnOf_eq_some.mpr ⟨hy, hinside⟩)
    have hgone := h.run_alone (x := y) fun z id' hne hz hturn =>
      hne (hsingle z id' (hz.trans hy) hturn)
    have halone := (h.run (List.replicate (s.turn y).stepsLeft y)).run_alone (x := x)
      fun z id' _ hz hturn => by
        by_cases hzy : z = y
        · rw [hzy, hgone] at hturn
          cases hturn
        · rw [turn_run_of_notMem _ fun hmem => hzy (List.eq_of_mem_replicate hmem)] at hturn
          exact hzy (hsingle z id' hz hturn)
    rw [← run_append] at halone
    refine ⟨_, fun z hz => ?_, halone⟩
    rcases List.mem_append.mp hz with hz | hz
    · rw [List.eq_of_mem_replicate hz, hy]
    · rw [List.eq_of_mem_replicate hz]

/-! ## 7. Every moment of every run -/

/-- What holds of parties and their table whenever it is looked at. -/
structure Tended (path : ι → Path) (s : Parties ι) : Prop where
  /-- At most one party is inside at a path. -/
  single : ∀ x y id id', path x = path y → s.turn x = .inside id → s.turn y = .inside id' → x = y
  /-- Whoever waits, is inside or has yet to give up its reference refers to the lock that the
  table has for the path. -/
  current : ∀ x id, (s.turn x).lock? = some id → s.turns.entries.get? (path x) = some id
  /-- Whoever takes the next step, the table still has that lock for the path afterwards. -/
  stays : ∀ x y id, (s.turn x).lock? = some id →
    (s.step path y).turns.entries.get? (path x) = some id
  /-- No lock is that of two paths. -/
  distinct : ∀ p p' id, s.turns.entries.get? p = some id → s.turns.entries.get? p' = some id →
    p = p'
  /-- A lock in the table counts those that refer to it, and is held when one is inside. -/
  counted : ∀ p id, s.turns.entries.get? p = some id → ∃ lock, s.turns.lock? id = some lock ∧
    (∃ who : Finset ι, (∀ x, x ∈ who ↔ path x = p ∧ (s.turn x).lock? ≠ none) ∧
      who.card = lock.parties) ∧
    (lock.held = true ↔ ∃ x, path x = p ∧ s.turn x = .inside id)
  /-- A party has to wait just when it has come to a lock that somebody at its path holds. -/
  waits : ∀ x, (s.turn x).ready s.turns = false ↔
    (∃ id, s.turn x = .waiting id) ∧ ∃ y id, path y = path x ∧ s.turn y = .inside id
  /-- A path that has an entry has a party under way. -/
  needed : ∀ p, s.turns.entries.get? p ≠ none → ∃ x, path x = p ∧ (s.turn x).underWay = true
  /-- When nobody is under way, the table is empty. -/
  empty : (∀ x, (s.turn x).underWay = false) → s.turns.entries = {}

theorem Upkept.tended (h : s.Upkept path) : s.Tended path where
  single x y id id' hxy hx hy :=
    h.fair.inside_unique (turnOf_eq_some.mpr ⟨hxy, hx⟩) (turnOf_eq_some.mpr ⟨rfl, hy⟩)
  current x id := h.get?_entries
  stays x y id hlock := h.get?_entries_step hlock y
  distinct := h.fair.apart
  counted p id hentry := by
    obtain ⟨-, lock, hlock, hserves⟩ := h.fair.lock p id hentry
    obtain ⟨who, hwho, hcard⟩ := hserves.count
    refine ⟨lock, hlock, ⟨who, fun x => ?_, hcard⟩, ?_⟩
    · rw [hwho]
      simp only [turnOf_eq_some, and_assoc, exists_and_left, exists_eq_left']
    · rw [hserves.held]
      simp only [turnOf_eq_some]
  waits x := h.not_ready_iff
  needed := h.needed
  empty hnobody := by
    apply Table.eq_empty
    intro p
    apply Classical.byContradiction
    intro hentry
    obtain ⟨x, -, hway⟩ := h.needed p hentry
    rw [hnobody x] at hway
    cases hway

/-- However many parties there are, and however their steps are interleaved, their table is well
tended at every moment; those at a path have come as far, and have to wait, as if the steps at
other paths had not been taken; and each of them can go to its end without the others. -/
theorem tended_run (path : ι → Path) (order : List ι) :
    (run path {} order).Tended path ∧
    (∀ p, AsFar path p (run path {} order) (run path {} (order.filter (path · = p)))) ∧
    ∀ x, ∃ more, (∀ y ∈ more, path y = path x) ∧ (run path {} (order ++ more)).turn x = .gone := by
  have hstart : Upkept path {} := upkept_start path
  refine ⟨(hstart.run order).tended, fun p => ?_, fun x => ?_⟩
  · have hfar : AsFar path p {} {} := ⟨fun _ _ => rfl, fun _ _ => rfl⟩
    exact hfar.run hstart hstart order
  · obtain ⟨more, hmore, hgone⟩ := (hstart.run order).exists_run x
    rw [← run_append] at hgone
    exact ⟨more, hmore, hgone⟩

/-- Two parties meet at one path while a third is inside at another.  The second waits for the
first, which goes and leaves the entry to it; in the end nothing is left. -/
theorem tended_run_three :
    ∃ path : Fin 3 → Path, path 0 = path 1 ∧ path 0 ≠ path 2 ∧
      (∃ y id, path y = path 1 ∧ (run path {} [0, 0, 1, 2, 2]).turn y = .inside id) ∧
      (run path {} [0, 0, 1, 2, 2, 0, 0, 0]).turn 0 = .gone ∧
      (run path {} [0, 0, 1, 2, 2, 0, 0, 0]).turns.entries.get? (path 1) = some 0 ∧
      (run path {} [0, 0, 1, 2, 2, 0, 0, 0, 1, 1, 1, 1, 2, 2, 2]).turns.entries = {} := by
  refine ⟨fun x => { steps := [[if x = 2 then 0x62 else 0x61]] }, by decide, by decide, ?_,
    by decide, ?_, ?_⟩
  · exact (((tended_run _ _).1.waits 1).mp (by decide)).2
  · exact (tended_run _ _).1.current 1 0 (by decide)
  · exact (tended_run _ _).1.empty (by decide)

end Parties

end UserVault.Vault
