import Mathlib.Algebra.Group.Nat.Defs
import Mathlib.Data.List.Basic
import UserVault.Disk.Path
import UserVault.Text.Numeral

/-!
# Plain steps

A plain step is a name that a path takes as one step down to an entry of that name.  Decimal
numerals are plain, and different numbers have different numerals.  Writing a plain step behind the
text of a path, however that ends, names what is one step further.
-/

namespace UserVault

open Disk

/-! ## 1. Decimal numerals -/

namespace Decimal

theorem toNat_digit {n : Nat} (h : n < 10) : (digit n).toNat = 48 + n := by
  rw [digit, UInt8.toNat_ofNat', Nat.mod_eq_of_lt (by omega)]

/-- The number that a numeral stands for. -/
def value (numeral : Bytes) : Nat := numeral.foldl (fun n b => 10 * n + (b.toNat - 48)) 0

theorem value_encode (n : Nat) : value (encode n) = n := by
  fun_induction encode n with
  | case1 n h =>
    simp [value, toNat_digit h]
  | case2 n h ih =>
    have hdigit := toNat_digit (n := n % 10) (by omega)
    rw [value, List.foldl_append, ← value, ih]
    simp only [List.foldl_cons, List.foldl_nil, hdigit]
    omega

theorem encode_injective {m n : Nat} (h : encode m = encode n) : m = n := by
  rw [← value_encode m, ← value_encode n, h]

theorem encode_ne_nil (n : Nat) : encode n ≠ [] := by
  fun_induction encode n with
  | case1 => simp
  | case2 => simp

/-- A numeral has digits only. -/
theorem isDigit_of_mem_encode {n : Nat} {b : UInt8} (h : b ∈ encode n) :
    48 ≤ b.toNat ∧ b.toNat ≤ 57 := by
  fun_induction encode n with
  | case1 n hn =>
    rw [List.mem_singleton.mp h, toNat_digit hn]
    omega
  | case2 n hn ih =>
    rcases List.mem_append.mp h with h | h
    · exact ih h
    · rw [List.mem_singleton.mp h, toNat_digit (by omega)]
      omega

theorem length_encode_le {n : Nat} (width : Nat) (hwidth : 0 < width) (h : n < 10 ^ width) :
    (encode n).length ≤ width := by
  fun_induction encode n generalizing width with
  | case1 n hn => exact hwidth
  | case2 n hn ih =>
    obtain ⟨width, rfl⟩ : ∃ w, width = w + 1 := ⟨width - 1, by omega⟩
    have hpos : 0 < width := by
      rcases Nat.eq_zero_or_pos width with hzero | hpos
      · rw [hzero] at h
        omega
      · exact hpos
    have hle := ih width hpos (by rw [Nat.pow_succ] at h; omega)
    rw [List.length_append, List.length_singleton]
    omega

/-- A name is the decimal form of a number: digits alone, with no sign and no leading zero. -/
structure IsNumeral (name : Bytes) (n : Nat) : Prop where
  ne_nil : name ≠ []
  digit : ∀ b ∈ name, 48 ≤ b.toNat ∧ b.toNat ≤ 57
  leading : name.head? = some 48 → name = [48]
  value : value name = n

theorem leading_encode {n : Nat} (h : (encode n).head? = some 48) : n = 0 := by
  fun_induction encode n with
  | case1 n hn =>
    have hdigit := congrArg UInt8.toNat (Option.some.inj h)
    rw [toNat_digit hn] at hdigit
    change 48 + n = 48 at hdigit
    omega
  | case2 n hn ih =>
    rw [List.head?_append_of_ne_nil _ (encode_ne_nil _)] at h
    have hzero := ih h
    omega

theorem isNumeral_encode (n : Nat) : IsNumeral (encode n) n where
  ne_nil := encode_ne_nil n
  digit _ := isDigit_of_mem_encode
  leading h := by
    rw [leading_encode h, encode]
    rfl
  value := value_encode n

end Decimal

/-! ## 2. Plain steps -/

namespace Disk

/-- A step that a path takes down to an entry of this name. -/
structure Plain (step : Name) : Prop where
  ne_nil : step ≠ []
  ne_here : step ≠ here
  ne_up : step ≠ up
  slash_notMem : slash ∉ step

theorem Plain.head?_ne {step : Name} (h : Plain step) : step.head? ≠ some slash := fun hhead =>
  h.slash_notMem (List.mem_of_mem_head? hhead)

theorem Plain.getLast?_ne {step : Name} (h : Plain step) : step.getLast? ≠ some slash :=
  fun hlast => h.slash_notMem (List.mem_of_mem_getLast? hlast)

/-- Without a slash a text is one piece. -/
theorem Plain.splitSlashes {step : Name} (h : Plain step) : splitSlashes step = [step] :=
  List.splitOn_eq_singleton h.slash_notMem

/-- A plain step is read as a path of this step alone. -/
theorem Path.parse_plain {step : Name} (h : Plain step) : parse step = { steps := [step] } := by
  simp [parse, h.splitSlashes, h.head?_ne, h.getLast?_ne, h.ne_nil, h.ne_here, reachOfText, reach]

/-- A plain step, read from a path, is one more step of it. -/
theorem Path.join_plain (p : Path) {step : Name} (h : Plain step) :
    p.join step = { p with steps := p.steps ++ [step] } := by
  simp [join, parse_plain h]

theorem Path.reach_append (absolute : Bool) (steps more : List Name) :
    Path.reach absolute (steps ++ more) = Path.reach absolute steps + Path.reach false more := by
  -- the length in front of a step grows from wherever it starts
  have hshift (start : Nat) : more.foldl (fun n step => n + step.length + 1) start =
      start + more.foldl (fun n step => n + step.length + 1) 0 := by
    induction more generalizing start with
    | nil => rfl
    | cons step more ih =>
      rw [List.foldl_cons, List.foldl_cons, ih, ih (0 + step.length + 1)]
      omega
  rw [Path.reach, List.foldl_append, hshift]
  rfl

/-- Each step makes a path longer by its bytes and a slash at most. -/
theorem Path.size_append_le (p : Path) (more : List Name) :
    Path.size { p with steps := p.steps ++ more } ≤ p.size + Path.reach false more := by
  show Path.reach p.absolute (p.steps ++ more) + p.idle - 1 ≤ _
  rw [Path.size, Path.reach_append]
  omega

theorem plain_numeral (n : Nat) : Plain (Decimal.encode n) where
  ne_nil := Decimal.encode_ne_nil n
  ne_here h := by
    have hdigit := Decimal.isDigit_of_mem_encode (n := n) (b := 0x2E) (by rw [h]; decide)
    exact absurd hdigit (by decide)
  ne_up h := by
    have hdigit := Decimal.isDigit_of_mem_encode (n := n) (b := 0x2E) (by rw [h]; decide)
    exact absurd hdigit (by decide)
  slash_notMem h := absurd (Decimal.isDigit_of_mem_encode h) (by decide)

/-! ## 3. Paths as they are written -/

/-- The text of a path with one more step written behind it, after a slash if there is none. -/
def Path.extend (text : Bytes) (step : Name) : Bytes :=
  if text = [] ∨ text.getLast? = some slash then text ++ step else text ++ slash :: step

theorem Path.splitSlashes_append (text rest : Bytes) :
    splitSlashes (text ++ slash :: rest) = splitSlashes text ++ splitSlashes rest :=
  List.splitOn_append_cons_self ..

/-- The steps that are kept of the pieces of a text. -/
theorem Path.steps_parse (text : Bytes) :
    (parse text).steps = (splitSlashes text).filter fun step => step ≠ [] ∧ step ≠ here := rfl

theorem Path.steps_parse_append (text rest : Bytes) :
    (parse (text ++ slash :: rest)).steps = (parse text).steps ++ (parse rest).steps := by
  simp only [steps_parse, splitSlashes_append, List.filter_append]

theorem Path.reach_concat (absolute : Bool) (steps : List Name) (step : Name) :
    Path.reach absolute (steps ++ [step]) = Path.reach absolute steps + step.length + 1 := by
  rw [reach, List.foldl_append]
  rfl

section

variable {step : Name} (h : Plain step)
include h

theorem Path.steps_extend (text : Bytes) :
    (parse (extend text step)).steps = (parse text).steps ++ [step] := by
  have hstep : (parse step).steps = [step] := by rw [parse_plain h]
  unfold extend
  split
  next hopen =>
    rcases hopen with rfl | hlast
    · rw [List.nil_append, hstep]
      rfl
    · -- the slash that the text ends with is the one in front of the step
      obtain ⟨front, rfl⟩ := List.getLast?_eq_some_iff.mp hlast
      have hfront : (parse (front ++ [slash])).steps = (parse front).steps :=
        (steps_parse_append front []).trans (List.append_nil _)
      rw [List.append_assoc, List.singleton_append, steps_parse_append, hfront, hstep]
  next => rw [steps_parse_append, hstep]

theorem Path.head?_extend (text : Bytes) :
    (extend text step).head? = some slash ↔ text.head? = some slash := by
  cases text with
  | nil => simp [extend, h.head?_ne]
  | cons b rest =>
    unfold extend
    split
    · rfl
    · rfl

theorem Path.getLast?_extend (text : Bytes) : (extend text step).getLast? ≠ some slash := by
  have hlast : (extend text step).getLast? = step.getLast? := by
    unfold extend
    split
    · exact List.getLast?_append_of_ne_nil _ h.ne_nil
    · rw [List.getLast?_append_of_ne_nil _ (List.cons_ne_nil _ _),
        List.getLast?_cons_of_ne_nil h.ne_nil]
  rw [hlast]
  exact h.getLast?_ne

theorem Path.reachOfText_extend (text : Bytes) :
    reachOfText (extend text step) = reachOfText text + step.length + 1 := by
  have hne : extend text step ≠ [] := by
    unfold extend
    split
    · exact List.append_ne_nil_of_right_ne_nil _ h.ne_nil
    · exact List.append_ne_nil_of_right_ne_nil _ (List.cons_ne_nil _ _)
  rw [reachOfText, if_neg (not_or.mpr ⟨hne, getLast?_extend h text⟩), reachOfText, extend]
  split
  · rw [List.length_append]
  · rw [List.length_append, List.length_cons]
    omega

/-- To write a plain step behind the text of a path is to go one step further. -/
theorem Path.parse_extend (text : Bytes) :
    parse (extend text step) = (parse text).join step := by
  rw [join_plain _ h]
  have habsolute : (parse (extend text step)).absolute = (parse text).absolute :=
    decide_eq_decide.mpr (head?_extend h text)
  have hsteps := steps_extend h text
  have hidle : (parse (extend text step)).idle = (parse text).idle := by
    show reachOfText _ - reach (parse (extend text step)).absolute
      (parse (extend text step)).steps = reachOfText text - reach _ (parse text).steps
    rw [habsolute, hsteps, reach_concat, reachOfText_extend h]
    show _ = reachOfText text - reach (parse text).absolute (parse text).steps
    omega
  rw [← habsolute, ← hsteps, ← hidle]

end

end Disk

end UserVault
