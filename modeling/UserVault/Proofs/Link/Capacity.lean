import Mathlib.Data.List.Infix
import UserVault.Link.Sink

/-!
# What a sink takes

However little a sink takes at once, and whatever it does when it takes no more, one number decides
how a write to it ends (`Sink.limit`): as many bytes are written as there is room for, and the write
succeeds just where that is all of them (`Sink.Writes`).
-/

namespace UserVault.Link.Sink

/-! ## 1. The limit of a sink -/

/-- How many bytes a sink takes at all, if there is an end to it. -/
def limit (s : Sink) : Option Nat := if s.maxWrite = some 0 then some 0 else s.room

/-- The sink takes so many bytes. -/
def Takes (s : Sink) (count : Nat) : Prop := ∀ limit, s.limit = some limit → count ≤ limit

instance (s : Sink) (count : Nat) : Decidable (s.Takes count) :=
  inferInstanceAs (Decidable (∀ limit ∈ s.limit, count ≤ limit))

theorem takes_zero (s : Sink) : s.Takes 0 := fun _ _ => Nat.zero_le _

theorem Takes.mono {s : Sink} {count less : Nat} (h : s.Takes count) (hle : less ≤ count) :
    s.Takes less := fun limit hlimit => Nat.le_trans hle (h limit hlimit)

theorem not_takes_of_limit {s : Sink} {count limit : Nat} (hlimit : s.limit = some limit)
    (hlt : limit < count) : ¬s.Takes count := fun h => Nat.not_le.mpr hlt (h limit hlimit)

theorem limit_of_room {s : Sink} (hroom : s.room = some 0) : s.limit = some 0 := by
  rw [limit, hroom, ite_self]

/-! ## 2. What has been written -/

/-- Just `out` was written to `s`, which had room for it, and `s'` came of it. -/
structure Wrote (s s' : Sink) (out : Bytes) : Prop where
  bytes : s'.bytes = s.bytes ++ out
  takes : s.Takes out.length
  maxWrite : s'.maxWrite = s.maxWrite
  room : s'.room = s.room.map (· - out.length)
  flushFault : s'.flushFault = s.flushFault

variable {s s' s'' : Sink} {out more : Bytes}

theorem wrote_refl (s : Sink) : s.Wrote s [] where
  bytes := (List.append_nil _).symm
  takes := s.takes_zero
  maxWrite := rfl
  room := by simp
  flushFault := rfl

theorem Wrote.limit (h : s.Wrote s' out) : s'.limit = s.limit.map (· - out.length) := by
  rw [Sink.limit, Sink.limit, h.maxWrite, h.room]
  split
  · simp
  · rfl

/-- What is taken after bytes that were written is taken with them. -/
theorem Wrote.takes_iff (h : s.Wrote s' out) (count : Nat) :
    s'.Takes count ↔ s.Takes (out.length + count) := by
  have htakes := h.takes
  unfold Takes at htakes ⊢
  rw [h.limit]
  generalize s.limit = limit? at htakes ⊢
  cases limit? with
  | none => simp
  | some limit =>
    simp only [Option.map_some, Option.some.injEq, forall_eq'] at htakes ⊢
    omega

theorem Wrote.trans (h : s.Wrote s' out) (h' : s'.Wrote s'' more) : s.Wrote s'' (out ++ more) where
  bytes := by rw [h'.bytes, h.bytes, List.append_assoc]
  takes := by
    rw [List.length_append]
    exact (h.takes_iff more.length).mp h'.takes
  maxWrite := h'.maxWrite.trans h.maxWrite
  room := by
    rw [h'.room, h.room, Option.map_map, List.length_append]
    exact congrArg (s.room.map ·) (funext fun room => Nat.sub_sub ..)
  flushFault := h'.flushFault.trans h.flushFault

theorem bytes_take (s : Sink) (out : Bytes) : (s.take out).bytes = s.bytes ++ out := by
  simp [Sink.bytes, take]

theorem wrote_take (h : s.Takes out.length) : s.Wrote (s.take out) out :=
  ⟨bytes_take s out, h, rfl, rfl, rfl⟩

/-- A flush writes nothing, and fails just where the sink makes every flush fail. -/
theorem flush_eq (s : Sink) :
    ∃ s', s.Wrote s' [] ∧ s.flush =
      (match s.flushFault with
        | some kind => .error (.raised kind)
        | none => .ok (), s') := by
  refine ⟨{ s with flushes := s.flushes + 1 }, ?_, ?_⟩
  · exact ⟨(List.append_nil _).symm, s.takes_zero, rfl, by simp, rfl⟩
  · rw [flush]
    cases s.flushFault <;> rfl

/-! ## 3. One write -/

/-- What one write takes comes first. -/
theorem portion_isPrefix (s : Sink) (out : Bytes) : s.portion out <+: out := by
  unfold portion
  cases s.maxWrite with
  | none =>
    cases s.room with
    | none => exact List.prefix_rfl
    | some room => exact List.take_prefix ..
  | some most =>
    cases s.room with
    | none => exact List.take_prefix ..
    | some room => exact (List.take_prefix ..).trans (List.take_prefix ..)

theorem takes_portion (s : Sink) (out : Bytes) : s.Takes (s.portion out).length := by
  intro limit hlimit
  unfold Sink.limit at hlimit
  unfold portion
  split at hlimit
  next hmax =>
    rw [hmax]
    cases s.room <;> simp
  next =>
    rw [hlimit]
    exact List.length_take_le ..

/-- Only of a sink that takes nothing at all one write takes nothing. -/
theorem limit_of_portion_nil (hroom : s.room ≠ some 0) (hne : out ≠ [])
    (hnil : s.portion out = []) : s.limit = some 0 := by
  by_cases hmax : s.maxWrite = some 0
  · exact if_pos hmax
  · exfalso
    unfold portion at hnil
    cases hmost : s.maxWrite with
    | none => cases hcount : s.room <;> simp_all
    | some most => cases hcount : s.room <;> simp_all

/-! ## 4. Writing to the end -/

/-- What may come of writing `out`: as many bytes are written as there is room for. -/
inductive Writes (s : Sink) (out : Bytes) : Except Fault Unit × Sink → Prop
  /-- All of them are. -/
  | whole (s' : Sink) (h : s.Wrote s' out) : Writes s out (.ok (), s')
  /-- Only those that come first are, and there is room for no more. -/
  | part (s' : Sink) (fault : Fault) (begun : Bytes) (h : s.Wrote s' begun)
    (hbegun : begun <+: out) (hfull : s.limit = some begun.length)
    (hlt : begun.length < out.length) : Writes s out (.error fault, s')

theorem writes_nothing (hne : out ≠ []) (hlimit : s.limit = some 0) (fault : Fault) :
    Writes s out (.error fault, s) :=
  .part s fault [] (wrote_refl s) List.nil_prefix hlimit (List.length_pos_iff.mpr hne)

theorem Wrote.writes (h : s.Wrote s' out) {result : Except Fault Unit × Sink}
    (hmore : Writes s' more result) : Writes s (out ++ more) result := by
  cases hmore with
  | whole s'' h' => exact .whole s'' (h.trans h')
  | part s'' fault begun h' hbegun hfull hlt =>
    refine .part s'' fault (out ++ begun) (h.trans h')
      ((List.prefix_append_right_inj out).mpr hbegun) ?_ ?_
    · rw [h.limit] at hfull
      obtain ⟨limit, hlimit, hrest⟩ := Option.map_eq_some_iff.mp hfull
      have hle := h.takes limit hlimit
      rw [hlimit, List.length_append, ← hrest, Nat.add_sub_of_le hle]
    · rw [List.length_append, List.length_append]
      exact Nat.add_lt_add_left hlt _

theorem writeAll_spec (s : Sink) (out : Bytes) : Writes s out (s.writeAll out) := by
  fun_induction Sink.writeAll s out with
  | case1 s => exact .whole s (wrote_refl s)
  | case2 s out hne hroom kind hrefusal => exact writes_nothing hne (limit_of_room hroom) _
  | case3 s out hne hroom hrefusal => exact writes_nothing hne (limit_of_room hroom) _
  | case4 s out hne hroom hnil => exact writes_nothing hne (limit_of_portion_nil hroom hne hnil) _
  | case5 s out hne hroom hsome ih =>
    have hwhole := (wrote_take (s.takes_portion out)).writes ih
    rwa [← List.prefix_append_drop (s.portion_isPrefix out)] at hwhole

end UserVault.Link.Sink
