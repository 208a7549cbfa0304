import UserVault.Text.Unseen
import UserVault.Text.Utf8

/-!
# Quoted text

The form in which diagnostics show a text: between double quotes, with everything in it that would
not be seen, or be taken for something else, written with a backslash.
-/

namespace UserVault.Quoted

/-- The digit of a value below sixteen. -/
def hexDigit (upper : Bool) (n : Nat) : Char :=
  if n < 10 then Char.ofNat (48 + n)
  else Char.ofNat ((if upper then 55 else 87) + n)

/-- The hexadecimal numeral of a number, without leading zeros. -/
def hexNumeral (n : Nat) : List Char :=
  if n < 16 then [hexDigit false n] else hexNumeral (n / 16) ++ [hexDigit false (n % 16)]

/-- One character between the quotes. -/
def shown (c : Char) : List Char :=
  if c = '\x00' then ['\\', '0']
  else if c = '\t' then ['\\', 't']
  else if c = '\n' then ['\\', 'n']
  else if c = '\r' then ['\\', 'r']
  else if c = '"' ∨ c = '\\' then ['\\', c]
  else if isSeen c then [c]
  else ['\\', 'u', '\x7b'] ++ hexNumeral c.toNat ++ ['\x7d']

/-- A byte that is part of no character. -/
def shownByte (b : UInt8) : List Char :=
  ['\\', 'x', hexDigit true (b.toNat / 16), hexDigit true (b.toNat % 16)]

/-- What stands between the quotes for a byte string: its characters, and one after the other the
bytes that are part of none. -/
def between : Bytes → List Char
  | [] => []
  | b :: rest =>
    let after := (Utf8.next b rest).2
    match (Utf8.next b rest).1 with
    | some c => shown c ++ between after
    | none => (b :: rest.take (rest.length - after.length)).flatMap shownByte ++ between after
termination_by bs => bs.length
decreasing_by all_goals exact Nat.lt_succ_of_le (Utf8.length_next_le b rest)

def quoted (bs : Bytes) : String := String.ofList ('"' :: between bs ++ ['"'])

end UserVault.Quoted
