import Mathlib.Data.Finset.Card
import Mathlib.Logic.Function.Basic
import UserVault.Vault.Turns

/-!
# Turns are fair

Any number of parties go through their turns at any paths, one step at a time, and none of them
gets inside where somebody else is.  Then the table of turns is right about all of them: a path has
an entry as long as some party refers to its lock, the lock counts these parties, and it is held
just when one of them is inside, which is then the only one.
-/

namespace UserVault.Vault

open Disk

/-- The lock that a party refers to. -/
def Turn.lock? : Turn → Option LockId
  | .waiting id | .inside id | .released id => some id
  | .coming | .leaving | .gone => none

namespace Turns

variable {ι : Type} {t : Turns} {id : LockId} {path : Path} {turn turn' : Turn} {lock : Lock}

theorem lock?_update (t : Turns) (id : LockId) (f : Lock → Lock) (id' : LockId) :
    (t.update id f).lock? id' = if id' = id then (t.lock? id).map f else t.lock? id' := by
  unfold update
  split
  next lock hlock =>
    show (t.locks.set id (f lock)).get? id' = _
    rw [Table.get?_set, hlock]
    rfl
  next hnone =>
    split
    next heq => rw [heq, hnone, Option.map_none]
    next => rfl

@[simp] theorem entries_update (t : Turns) (id : LockId) (f : Lock → Lock) :
    (t.update id f).entries = t.entries := by
  unfold update
  split <;> rfl

@[simp] theorem nextLock_update (t : Turns) (id : LockId) (f : Lock → Lock) :
    (t.update id f).nextLock = t.nextLock := by
  unfold update
  split <;> rfl

/-! ## 1. Locks and tables -/

/-- A lock is right about the parties at its path. -/
structure Serves (lock : Lock) (id : LockId) (path : Path) (turnOf : ι → Option (Path × Turn)) :
    Prop where
  same : ∀ x turn id', turnOf x = some (path, turn) → turn.lock? = some id' → id' = id
  count : ∃ who : Finset ι, (∀ x, x ∈ who ↔
      ∃ turn, turnOf x = some (path, turn) ∧ turn.lock? ≠ none) ∧ who.card = lock.parties
  held : lock.held = true ↔ ∃ x, turnOf x = some (path, .inside id)
  single : ∀ x y, turnOf x = some (path, .inside id) → turnOf y = some (path, .inside id) → x = y

/-- A table of turns is right about all parties; `turnOf` tells where each of them is with its
turn, and at which path. -/
structure Fair (t : Turns) (turnOf : ι → Option (Path × Turn)) : Prop where
  lock : ∀ path id, t.entries.get? path = some id →
    id < t.nextLock ∧ ∃ lock, t.lock? id = some lock ∧ Serves lock id path turnOf
  entry : ∀ x path turn, turnOf x = some (path, turn) → turn.lock? ≠ none →
    t.entries.get? path ≠ none
  apart : ∀ path path' id, t.entries.get? path = some id → t.entries.get? path' = some id →
    path = path'

theorem fair_empty : Fair {} (fun _ : ι => none) :=
  ⟨fun _ _ h => (nomatch h), fun _ _ _ h => (nomatch h), fun _ _ _ h => (nomatch h)⟩

variable {turnOf turnOf' : ι → Option (Path × Turn)}

/-- A lock does not care about parties that refer to no lock, nor about those at other paths. -/
theorem Serves.congr (h : Serves lock id path turnOf)
    (hturn : ∀ x turn, turn.lock? ≠ none →
      (turnOf' x = some (path, turn) ↔ turnOf x = some (path, turn))) :
    Serves lock id path turnOf' where
  same x turn id' hx hlock := h.same x turn id' ((hturn x turn (by simp [hlock])).mp hx) hlock
  count := by
    obtain ⟨who, hwho, hcard⟩ := h.count
    refine ⟨who, fun x => (hwho x).trans (exists_congr fun turn => ?_), hcard⟩
    exact ⟨fun ⟨hx, hne⟩ => ⟨(hturn x turn hne).mpr hx, hne⟩,
      fun ⟨hx, hne⟩ => ⟨(hturn x turn hne).mp hx, hne⟩⟩
  held := h.held.trans (exists_congr fun x => (hturn x _ (by simp [Turn.lock?])).symm)
  single x y hx hy :=
    h.single x y ((hturn x _ (by simp [Turn.lock?])).mp hx)
      ((hturn y _ (by simp [Turn.lock?])).mp hy)

/-- A table does not care about parties that refer to no lock. -/
theorem Fair.congr (h : Fair t turnOf)
    (hturn : ∀ x path turn, turn.lock? ≠ none →
      (turnOf' x = some (path, turn) ↔ turnOf x = some (path, turn))) : Fair t turnOf' where
  lock path id hentry := by
    obtain ⟨hlt, lock, hlock, hserves⟩ := h.lock path id hentry
    exact ⟨hlt, lock, hlock, hserves.congr fun x turn => hturn x path turn⟩
  entry x path turn hx hne := h.entry x path turn ((hturn x path turn hne).mp hx) hne
  apart := h.apart

/-- Whoever refers to a lock refers to that of its path. -/
theorem Fair.entry_eq (h : Fair t turnOf) {y : ι} (hy : turnOf y = some (path, turn))
    (hid : turn.lock? = some id) : t.entries.get? path = some id := by
  obtain ⟨id', hentry⟩ :=
    Option.ne_none_iff_exists'.mp (h.entry y path turn hy (by simp [hid]))
  obtain ⟨-, lock, -, hserves⟩ := h.lock path id' hentry
  rw [hentry, hserves.same y turn id hy hid]

/-- A lock is free just when nobody is inside at its path. -/
theorem Fair.isFree_iff (h : Fair t turnOf) (hentry : t.entries.get? path = some id) :
    t.isFree id = true ↔ ∀ x, turnOf x ≠ some (path, .inside id) := by
  obtain ⟨-, lock, hlock, hserves⟩ := h.lock path id hentry
  have hheld := hserves.held
  simp only [isFree, hlock]
  cases hvalue : lock.held with
  | false =>
    rw [hvalue] at hheld
    exact ⟨fun _ x hx => (nomatch hheld.mpr ⟨x, hx⟩), fun _ => rfl⟩
  | true =>
    obtain ⟨x, hx⟩ := hheld.mp hvalue
    exact ⟨fun hfalse => (nomatch hfalse), fun hnone => absurd hx (hnone x)⟩

/-- The lock that a party waits for is free just when nobody is inside at the path. -/
theorem Fair.isFree_iff_of_waiting (h : Fair t turnOf) {x : ι}
    (hx : turnOf x = some (path, .waiting id)) :
    t.isFree id = true ↔ ¬∃ y id', turnOf y = some (path, .inside id') := by
  rw [h.isFree_iff (h.entry_eq hx rfl)]
  constructor
  · rintro hnobody ⟨y, id', hy⟩
    have hsame := (h.entry_eq hy rfl).symm.trans (h.entry_eq hx rfl)
    cases hsame
    exact hnobody y hy
  · exact fun hnobody y hy => hnobody ⟨y, id, hy⟩

/-- No two parties are inside at one path. -/
theorem Fair.inside_unique (h : Fair t turnOf) {y z : ι} {id' : LockId}
    (hy : turnOf y = some (path, .inside id)) (hz : turnOf z = some (path, .inside id')) :
    y = z := by
  obtain ⟨-, lock, -, hserves⟩ := h.lock path id (h.entry_eq hy rfl)
  obtain rfl := hserves.same z _ id' hz rfl
  exact hserves.single y z hy hz

/-- The entry of a path goes when nobody refers to its lock any more. -/
theorem Fair.sweep (h : Fair t turnOf) (path : Path) : Fair (t.sweep path) turnOf := by
  unfold Turns.sweep
  cases hentry : t.entries.get? path with
  | none => exact h
  | some id =>
    obtain ⟨-, lock, hlock, hserves⟩ := h.lock path id hentry
    simp only [hlock]
    split
    next held heq =>
      cases heq
      have herase (path' : Path) : (t.entries.erase path).get? path' =
          if path' = path then none else t.entries.get? path' := Table.get?_erase ..
      obtain ⟨who, hwho, hcard⟩ := hserves.count
      have hempty := Finset.card_eq_zero.mp hcard
      refine ⟨fun path' id' h' => ?_, fun y path' turn hy hne => ?_, fun path₁ path₂ id h₁ h₂ => ?_⟩
      · rw [herase] at h'
        split at h'
        · cases h'
        · exact h.lock path' id' h'
      · rw [herase]
        split
        next hpath =>
          subst hpath
          have hmem := (hwho y).mpr ⟨turn, hy, hne⟩
          rw [hempty] at hmem
          exact absurd hmem (Finset.notMem_empty y)
        next => exact h.entry y path' turn hy hne
      · rw [herase] at h₁ h₂
        split at h₁
        · cases h₁
        · split at h₂
          · cases h₂
          · exact h.apart path₁ path₂ id h₁ h₂
    next => exact h

section
variable [DecidableEq ι] {x : ι}

theorem update_eq_some {y : ι} {value : Path × Turn} :
    Function.update turnOf x (some (path, turn')) y = some value ↔
      y = x ∧ value = (path, turn') ∨ y ≠ x ∧ turnOf y = some value := by
  by_cases hy : y = x
  · subst hy
    rw [Function.update_self, Option.some.injEq]
    simp [eq_comm]
  · rw [Function.update_of_ne hy]
    simp [hy]

-- A party that moves at one path is no concern of the locks of other paths.
theorem Serves.elsewhere (h : Serves lock id path turnOf) {path' : Path} (hne : path ≠ path')
    (hx : turnOf x = some (path', turn)) :
    Serves lock id path (Function.update turnOf x (some (path', turn'))) := by
  refine h.congr fun y turn'' _ => ?_
  rw [update_eq_some]
  constructor
  · rintro (⟨-, heq⟩ | ⟨-, hy⟩)
    · exact absurd (Prod.mk.inj heq).1 hne
    · exact hy
  · intro hy
    refine .inr ⟨?_, hy⟩
    rintro rfl
    rw [hx] at hy
    exact hne (Prod.mk.inj (Option.some.inj hy)).1.symm

/-- A party moves, and the lock of its path is changed accordingly. -/
theorem Fair.alter (h : Fair t turnOf) (hx : turnOf x = some (path, turn))
    (hentry : t.entries.get? path = some id) (f : Lock → Lock)
    (hserves : ∀ lock, t.lock? id = some lock → Serves lock id path turnOf →
      Serves (f lock) id path (Function.update turnOf x (some (path, turn')))) :
    Fair (t.update id f) (Function.update turnOf x (some (path, turn'))) where
  lock path' id' hentry' := by
    rw [entries_update] at hentry'
    rw [nextLock_update, lock?_update]
    obtain ⟨hlt, lock, hlock, hold⟩ := h.lock path' id' hentry'
    refine ⟨hlt, ?_⟩
    by_cases hpath : path' = path
    · subst hpath
      cases hentry.symm.trans hentry'
      rw [if_pos rfl, hlock]
      exact ⟨f lock, rfl, hserves lock hlock hold⟩
    · have hne : id' ≠ id := fun heq => hpath (h.apart path' path id' hentry' (heq ▸ hentry))
      rw [if_neg hne, hlock]
      exact ⟨lock, rfl, hold.elsewhere hpath hx⟩
  entry y path' turn'' hy hne := by
    rw [entries_update]
    rcases update_eq_some.mp hy with ⟨-, heq⟩ | ⟨-, hy⟩
    · rw [(Prod.mk.inj heq).1, hentry]
      exact Option.some_ne_none id
    · exact h.entry y path' turn'' hy hne
  apart := by
    rw [entries_update]
    exact h.apart

/-- A party that refers to no lock may come, go, and move on its own. -/
theorem Fair.idle (h : Fair t turnOf)
    (hx : ∀ path turn, turnOf x = some (path, turn) → turn.lock? = none)
    (hturn' : turn'.lock? = none) : Fair t (Function.update turnOf x (some (path, turn'))) := by
  refine h.congr fun y path' turn hne => ?_
  rw [update_eq_some]
  constructor
  · rintro (⟨-, heq⟩ | ⟨-, hy⟩)
    · cases heq
      exact absurd hturn' hne
    · exact hy
  · intro hy
    refine .inr ⟨?_, hy⟩
    rintro rfl
    exact hne (hx path' turn hy)

/-! ## 2. Steps -/

-- Who is where after a step: the others as before, and `x` as it says.
theorem exists_update {P : Turn → Prop} (y : ι) :
    (∃ turn, Function.update turnOf x (some (path, turn')) y = some (path, turn) ∧ P turn) ↔
      if y = x then P turn' else ∃ turn, turnOf y = some (path, turn) ∧ P turn := by
  by_cases hy : y = x
  · rw [if_pos hy, hy, Function.update_self]
    simp
  · rw [if_neg hy, Function.update_of_ne hy]

-- Where `x` neither was nor is inside, those inside are the same ones.
theorem inside_update (hx : turnOf x = some (path, turn)) (hout : turn ≠ .inside id)
    (hout' : turn' ≠ .inside id) (y : ι) :
    Function.update turnOf x (some (path, turn')) y = some (path, .inside id) ↔
      turnOf y = some (path, .inside id) := by
  rw [update_eq_some]
  constructor
  · rintro (⟨-, heq⟩ | ⟨-, hy⟩)
    · exact absurd (Prod.mk.inj heq).2.symm hout'
    · exact hy
  · intro hy
    refine .inr ⟨?_, hy⟩
    rintro rfl
    rw [hx] at hy
    exact hout (Prod.mk.inj (Option.some.inj hy)).2

/-- A party that comes is counted. -/
theorem Serves.enter (h : Serves lock id path turnOf) (hx : turnOf x = some (path, .coming)) :
    Serves { lock with parties := lock.parties + 1 } id path
      (Function.update turnOf x (some (path, .waiting id))) where
  same y turn id' hy hlock := by
    rcases update_eq_some.mp hy with ⟨-, heq⟩ | ⟨-, hy⟩
    · cases heq
      exact (Option.some.inj hlock).symm
    · exact h.same y turn id' hy hlock
  count := by
    obtain ⟨who, hwho, hcard⟩ := h.count
    have hnew : x ∉ who := by
      rw [hwho, hx]
      rintro ⟨turn, heq, hne⟩
      cases heq
      exact hne rfl
    refine ⟨insert x who, fun y => ?_, by rw [Finset.card_insert_of_notMem hnew, hcard]⟩
    rw [exists_update (P := fun turn => turn.lock? ≠ none), Finset.mem_insert, hwho]
    by_cases hy : y = x
    · simp [hy, Turn.lock?]
    · simp [hy]
  held := h.held.trans (exists_congr fun y => (inside_update hx (by simp) (by simp) y).symm)
  single y z hy hz :=
    h.single y z ((inside_update hx (by simp) (by simp) y).mp hy)
      ((inside_update hx (by simp) (by simp) z).mp hz)

/-- A party that goes on to refer to the lock is counted as before. -/
theorem Serves.count_update (h : Serves lock id path turnOf) (hx : turnOf x = some (path, turn))
    (hturn : turn.lock? ≠ none) (hturn' : turn'.lock? ≠ none) :
    ∃ who : Finset ι, (∀ y, y ∈ who ↔ ∃ turn,
      Function.update turnOf x (some (path, turn')) y = some (path, turn) ∧ turn.lock? ≠ none) ∧
        who.card = lock.parties := by
  obtain ⟨who, hwho, hcard⟩ := h.count
  refine ⟨who, fun y => ?_, hcard⟩
  rw [exists_update (P := fun turn => turn.lock? ≠ none), hwho]
  by_cases hy : y = x
  · rw [if_pos hy, hy]
    exact ⟨fun _ => hturn', fun _ => ⟨turn, hx, hturn⟩⟩
  · rw [if_neg hy]

theorem Serves.same_update (h : Serves lock id path turnOf) (hturn' : turn'.lock? = some id) :
    ∀ y turn id', Function.update turnOf x (some (path, turn')) y = some (path, turn) →
      turn.lock? = some id' → id' = id := by
  intro y turn id' hy hlock
  rcases update_eq_some.mp hy with ⟨-, heq⟩ | ⟨-, hy⟩
  · cases heq
    exact Option.some.inj (hlock.symm.trans hturn')
  · exact h.same y turn id' hy hlock

/-- A party gets inside where nobody is. -/
theorem Serves.acquire (h : Serves lock id path turnOf) (hx : turnOf x = some (path, .waiting id))
    (hfree : lock.held = false) :
    Serves { lock with held := true } id path
      (Function.update turnOf x (some (path, .inside id))) where
  same := h.same_update rfl
  count := h.count_update hx (by simp [Turn.lock?]) (by simp [Turn.lock?])
  held := ⟨fun _ => ⟨x, Function.update_self ..⟩, fun _ => rfl⟩
  single y z hy hz := by
    have hnobody (y : ι) : turnOf y ≠ some (path, .inside id) := by
      intro hy
      rw [h.held.mpr ⟨y, hy⟩] at hfree
      cases hfree
    rcases update_eq_some.mp hy with ⟨rfl, -⟩ | ⟨-, hy⟩
    · rcases update_eq_some.mp hz with ⟨rfl, -⟩ | ⟨-, hz⟩
      · rfl
      · exact absurd hz (hnobody z)
    · exact absurd hy (hnobody y)

/-- The only party inside comes out. -/
theorem Serves.release (h : Serves lock id path turnOf) (hx : turnOf x = some (path, .inside id)) :
    Serves { lock with held := false } id path
      (Function.update turnOf x (some (path, .released id))) where
  same := h.same_update rfl
  count := h.count_update hx (by simp [Turn.lock?]) (by simp [Turn.lock?])
  held := by
    refine ⟨fun hheld => (nomatch hheld), ?_⟩
    rintro ⟨y, hy⟩
    rcases update_eq_some.mp hy with ⟨-, heq⟩ | ⟨hne, hy⟩
    · cases heq
    · exact absurd (h.single y x hy hx) hne
  single y z hy hz := by
    rcases update_eq_some.mp hy with ⟨-, heq⟩ | ⟨hne, hy⟩
    · cases heq
    · exact absurd (h.single y x hy hx) hne

/-- A party that leaves is counted no more. -/
theorem Serves.leave (h : Serves lock id path turnOf)
    (hx : turnOf x = some (path, .released id)) :
    Serves { lock with parties := lock.parties - 1 } id path
      (Function.update turnOf x (some (path, .leaving))) where
  same y turn id' hy hlock := by
    rcases update_eq_some.mp hy with ⟨-, heq⟩ | ⟨-, hy⟩
    · cases heq
      cases hlock
    · exact h.same y turn id' hy hlock
  count := by
    obtain ⟨who, hwho, hcard⟩ := h.count
    have hmem : x ∈ who := (hwho x).mpr ⟨_, hx, by simp [Turn.lock?]⟩
    refine ⟨who.erase x, fun y => ?_, by rw [Finset.card_erase_of_mem hmem, hcard]⟩
    rw [exists_update (P := fun turn => turn.lock? ≠ none), Finset.mem_erase, hwho]
    by_cases hy : y = x
    · simp [hy, Turn.lock?]
    · simp [hy]
  held := h.held.trans (exists_congr fun y => (inside_update hx (by simp) (by simp) y).symm)
  single y z hy hz :=
    h.single y z ((inside_update hx (by simp) (by simp) y).mp hy)
      ((inside_update hx (by simp) (by simp) z).mp hz)

/-- The first party that comes to a path makes a lock. -/
theorem Fair.enter_new (h : Fair t turnOf) (hx : turnOf x = some (path, .coming))
    (hnone : t.entries.get? path = none) :
    Fair
      { entries := t.entries.set path t.nextLock
        locks := t.locks.set t.nextLock { parties := 1 }
        nextLock := t.nextLock + 1 }
      (Function.update turnOf x (some (path, .waiting t.nextLock))) := by
  have hentry (path' : Path) : (t.entries.set path t.nextLock).get? path' =
      if path' = path then some t.nextLock else t.entries.get? path' := Table.get?_set ..
  -- nobody refers to a lock of this path yet
  have hnobody (y : ι) (turn : Turn) (hy : turnOf y = some (path, turn)) : turn.lock? = none :=
    Classical.byContradiction fun hne => h.entry y path turn hy hne hnone
  refine ⟨fun path' id hid => ?_, fun y path' turn hy hne => ?_, fun path₁ path₂ id h₁ h₂ => ?_⟩
  · rw [hentry] at hid
    split at hid
    next heq =>
      subst heq
      cases hid
      refine ⟨Nat.lt_succ_self _, { parties := 1 }, ?_, ?_⟩
      · show (t.locks.set t.nextLock _).get? t.nextLock = _
        rw [Table.get?_set, if_pos rfl]
      -- the empty path had nobody to count, and now there is `x`
      · have hempty : Serves {} t.nextLock path' turnOf := by
          refine ⟨fun y turn id' hy hlock => ?_, ⟨∅, fun y => ?_, rfl⟩, ?_, fun y z hy => ?_⟩
          · rw [hnobody y turn hy] at hlock
            cases hlock
          · refine ⟨fun hmem => absurd hmem (Finset.notMem_empty y), ?_⟩
            rintro ⟨turn, hy, hne⟩
            exact absurd (hnobody y turn hy) hne
          · refine ⟨fun hheld => absurd hheld Bool.false_ne_true, ?_⟩
            rintro ⟨y, hy⟩
            cases hnobody y _ hy
          · cases hnobody y _ hy
        exact hempty.enter hx
    next hne =>
      obtain ⟨hlt, lock, hlock, hserves⟩ := h.lock path' id hid
      refine ⟨Nat.lt_succ_of_lt hlt, lock, ?_, hserves.elsewhere hne hx⟩
      show (t.locks.set t.nextLock _).get? id = _
      rw [Table.get?_set, if_neg (Nat.ne_of_lt hlt)]
      exact hlock
  · rw [hentry]
    split
    · exact Option.some_ne_none _
    next hpath =>
      rcases update_eq_some.mp hy with ⟨-, heq⟩ | ⟨-, hy⟩
      · exact absurd (Prod.mk.inj heq).1 hpath
      · exact h.entry y path' turn hy hne
  · rw [hentry] at h₁ h₂
    split at h₁
    next heq₁ =>
      split at h₂
      next heq₂ => rw [heq₁, heq₂]
      next =>
        cases h₁
        exact absurd (h.lock path₂ _ h₂).1 (Nat.lt_irrefl _)
    next =>
      split at h₂
      next =>
        cases h₂
        exact absurd (h.lock path₁ _ h₁).1 (Nat.lt_irrefl _)
      next => exact h.apart path₁ path₂ id h₁ h₂

/-- A step of a party's turn leaves the table right about all, if it did not have to wait. -/
theorem Fair.next (h : Fair t turnOf) (hx : turnOf x = some (path, turn))
    (hready : turn.ready t = true) :
    Fair (turn.next path t).2 (Function.update turnOf x (some (path, (turn.next path t).1))) := by
  cases turn with
  | coming =>
    simp only [Turn.next, Turns.enter]
    cases hentry : t.entries.get? path with
    | none => exact h.enter_new hx hentry
    | some id => exact h.alter hx hentry _ fun lock _ hserves => hserves.enter hx
  | waiting id =>
    have hentry := h.entry_eq hx rfl
    refine h.alter hx hentry _ fun lock hlock hserves => hserves.acquire hx ?_
    have hfree : t.isFree id = true := hready
    simp only [isFree, hlock, Bool.not_eq_true'] at hfree
    exact hfree
  | inside id =>
    exact h.alter hx (h.entry_eq hx rfl) _ fun lock _ hserves => hserves.release hx
  | released id =>
    exact h.alter hx (h.entry_eq hx rfl) _ fun lock _ hserves => hserves.leave hx
  | leaving => exact (h.sweep path).idle (fun _ _ heq => by cases hx.symm.trans heq; rfl) rfl
  | gone => exact h.idle (fun _ _ heq => by cases hx.symm.trans heq; rfl) rfl

end

end Turns

end UserVault.Vault
