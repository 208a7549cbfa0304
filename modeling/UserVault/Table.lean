/-!
# Finite tables

A table holds at most one value for each key.  `get?` is the view that the other operations are
explained by; `entries` lists the pairs, the latest new key first.
-/

namespace UserVault

structure Table (κ α : Type) where
  entries : List (κ × α) := []
  deriving Repr

namespace Table

variable {κ α : Type} [DecidableEq κ]

/-- The value of `key`. -/
def get? (t : Table κ α) (key : κ) : Option α := t.entries.lookup key

/-- Gives `key` a new value where it has one already. -/
def replace (key : κ) (value : α) : List (κ × α) → List (κ × α)
  | [] => []
  | entry :: rest =>
    if entry.1 = key then (key, value) :: rest else entry :: replace key value rest

/-- Gives `key` the value `value`. -/
def set (t : Table κ α) (key : κ) (value : α) : Table κ α :=
  if (t.get? key).isSome then ⟨replace key value t.entries⟩ else ⟨(key, value) :: t.entries⟩

/-- Gives `key`, which has no value yet, a value. -/
def add (t : Table κ α) (key : κ) (value : α) : Table κ α := ⟨(key, value) :: t.entries⟩

/-- Takes the value of `key` away. -/
def erase (t : Table κ α) (key : κ) : Table κ α :=
  ⟨t.entries.filter (·.1 ≠ key)⟩

/-- Keeps the entries whose key passes `keep`. -/
def restrict (t : Table κ α) (keep : κ → Bool) : Table κ α :=
  ⟨t.entries.filter (keep ·.1)⟩

theorem lookup_replace (key key' : κ) (value : α) (entries : List (κ × α)) :
    (replace key value entries).lookup key' =
      if key' = key then (entries.lookup key).map (fun _ => value) else entries.lookup key' := by
  induction entries with
  | nil => simp [replace]
  | cons entry rest ih =>
    obtain ⟨k, v⟩ := entry
    by_cases hk : k = key
    · subst hk
      by_cases h : key' = k
      · simp [replace, h]
      · have hb : (key' == k) = false := beq_false_of_ne h
        simp [replace, List.lookup_cons, h, hb]
    · by_cases h : key' = key
      · subst h
        have hb : (key' == k) = false := beq_false_of_ne (Ne.symm hk)
        simp [replace, hk, List.lookup_cons, hb, ih]
      · by_cases h' : key' = k
        · simp [replace, hk, h']
        · have hb : (key' == k) = false := beq_false_of_ne h'
          simp [replace, hk, List.lookup_cons, hb, ih, h]

theorem get?_set (t : Table κ α) (key key' : κ) (value : α) :
    (t.set key value).get? key' = if key' = key then some value else t.get? key' := by
  unfold set
  split
  next h =>
    obtain ⟨v, hv⟩ := Option.isSome_iff_exists.mp h
    have hv' : t.entries.lookup key = some v := hv
    simp [get?, lookup_replace, hv']
  next h =>
    by_cases hk : key' = key
    · simp [get?, hk]
    · have hb : (key' == key) = false := beq_false_of_ne hk
      simp [get?, List.lookup_cons, hb, hk]

theorem get?_add (t : Table κ α) (key key' : κ) (value : α) :
    (t.add key value).get? key' = if key' = key then some value else t.get? key' := by
  by_cases hk : key' = key
  · simp [get?, add, hk]
  · have hb : (key' == key) = false := beq_false_of_ne hk
    simp [get?, add, List.lookup_cons, hb, hk]

theorem get?_restrict (t : Table κ α) (keep : κ → Bool) (key : κ) :
    (t.restrict keep).get? key = if keep key then t.get? key else none := by
  unfold get? restrict
  induction t.entries with
  | nil => simp
  | cons entry rest ih =>
    obtain ⟨k, v⟩ := entry
    by_cases hk : key = k
    · subst hk
      by_cases h : keep key
      · simp [h]
      · simp [h] at ih ⊢
        exact ih
    · have hb : (key == k) = false := beq_false_of_ne hk
      by_cases h : keep k
      · simp [h, List.lookup_cons, hb, ih]
      · simp [h, List.lookup_cons, hb, ih]

theorem get?_erase (t : Table κ α) (key key' : κ) :
    (t.erase key).get? key' = if key' = key then none else t.get? key' := by
  have h := get?_restrict t (· ≠ key) key'
  by_cases hk : key' = key
  · simpa [erase, restrict, hk] using h
  · simpa [erase, restrict, hk] using h

/-- A table without values is empty. -/
theorem eq_empty {t : Table κ α} (h : ∀ key, t.get? key = none) : t = {} := by
  obtain ⟨entries⟩ := t
  cases entries with
  | nil => rfl
  | cons entry rest =>
    have hfirst : (entry :: rest).lookup entry.1 = some entry.2 := List.lookup_cons_self
    cases hfirst.symm.trans (h entry.1)

end Table

end UserVault
