import UserVault.Bytes

/-!
# Decimal numerals

A natural number is written with no sign and no leading zero.  A numeral is read from the left, and
what is wrong first decides: a character that is no digit, or a digit that brings the value above
the limit.
-/

/-! ## 1. Writing -/

namespace UserVault.Decimal

/-- The ASCII digit of a number below ten. -/
def digit (n : Nat) : UInt8 := UInt8.ofNat (48 + n)

/-- The decimal numeral of `n`. -/
def encode (n : Nat) : Bytes :=
  if n < 10 then [digit n] else encode (n / 10) ++ [digit (n % 10)]

end UserVault.Decimal

/-! ## 2. Reading -/

namespace UserVault.Numeral

inductive Fault
  | empty
  | notDigit
  | tooLarge
  | tooSmall
  deriving DecidableEq, Repr

def Fault.message : Fault → String
  | .empty => "cannot parse integer from empty string"
  | .notDigit => "invalid digit found in string"
  | .tooLarge => "number too large to fit in target type"
  | .tooSmall => "number too small to fit in target type"

/-- Reads digits onto the value so far; `excess` is the fault of a value above the limit. -/
def readDigits (limit : Nat) (excess : Fault) : (value : Nat) → List Char → Except Fault Nat
  | value, [] => .ok value
  | value, c :: rest =>
    if '0' ≤ c ∧ c ≤ '9' then
      let value := value * 10 + (c.toNat - '0'.toNat)
      if limit < value then .error excess else readDigits limit excess value rest
    else .error .notDigit

/-- A number up to `limit`, perhaps with a plus sign. -/
def readNat (limit : Nat) : List Char → Except Fault Nat
  | [] => .error .empty
  | ['+'] => .error .notDigit
  | '+' :: digits => readDigits limit .tooLarge 0 digits
  | digits => readDigits limit .tooLarge 0 digits

/-- A number that fits in 64 bits with a sign. -/
def readInt : List Char → Except Fault Int
  | ['-'] => .error .notDigit
  | '-' :: digits => (readDigits 0x8000000000000000 .tooSmall 0 digits).map fun n => -(n : Int)
  | digits => (readNat 0x7FFFFFFFFFFFFFFF digits).map fun n => (n : Int)

end UserVault.Numeral
