import UserVault.Toml.Text

/-!
# Numbers and moments

A number that starts like a date or a time is one; else it is a float if it has a fraction or an
exponent, and an integer if not.  Underscores may stand between digits.
-/

namespace UserVault.Toml

def isDecimal : Char → Bool := Digit.isIn 10

/-- More digits, each with an underscore in front of it or not. -/
def moreDigits (isDigit : Char → Bool) : Scan (List Char)
  | '_' :: c :: text => if isDigit c then prepend c (moreDigits isDigit text) else none
  | ['_'] => none
  | c :: text => if isDigit c then prepend c (moreDigits isDigit text) else some ([], c :: text)
  | [] => some ([], [])

/-- One digit or more. -/
def someDigits (isDigit : Char → Bool) : Scan (List Char)
  | c :: text => if isDigit c then prepend c (moreDigits isDigit text) else none
  | [] => none

/-- A sign, if there is one, and whether it is a minus. -/
def scanSign : List Char → Bool × List Char
  | '+' :: text => (false, text)
  | '-' :: text => (true, text)
  | text => (false, text)

/-- Decimal digits without a leading zero. -/
def scanWhole : Scan (List Char)
  | '0' :: text => some (['0'], text)
  | text => someDigits isDecimal text

/-! ## Integers -/

/-- The integer that digits give, if it fits in 64 bits; more than 64 digits of whatever base give
none that does. -/
def fitting (base : Nat) (negative : Bool) (digits : List Char) : Option Value :=
  if 64 < (Digit.significant digits).length then none
  else
    let n : Int := Digit.number base digits
    let n := if negative then -n else n
    if -0x8000000000000000 ≤ n ∧ n < 0x8000000000000000 then some (.integer n) else none

/-- The rest of an integer in a base of its own. -/
def scanBased (base : Nat) (text : List Char) : Option (Value × List Char) := do
  let (digits, rest) ← someDigits (Digit.isIn base) text
  let value ← fitting base false digits
  some (value, rest)

def scanInteger : Scan Value
  | '0' :: 'x' :: text => scanBased 16 text
  | '0' :: 'o' :: text => scanBased 8 text
  | '0' :: 'b' :: text => scanBased 2 text
  | text => do
    let (negative, text) := scanSign text
    let (digits, rest) ← scanWhole text
    let value ← fitting 10 negative digits
    some (value, rest)

/-! ## Floats -/

/-- The size of an exponent, which no longer matters from `10 ^ 20` on. -/
def exponentSize (digits : List Char) : Nat :=
  if 20 < (Digit.significant digits).length then Nat.pow 10 20 else Digit.number 10 digits

/-- An exponent, its sign included. -/
def scanExponent : Scan Int
  | c :: text =>
    if c = 'e' ∨ c = 'E' then do
      let (negative, text) := scanSign text
      let (digits, rest) ← someDigits isDecimal text
      let n : Int := exponentSize digits
      some (if negative then -n else n, rest)
    else none
  | [] => none

/-- The least number that is too large for a double: half a unit above the greatest one. -/
def doubleBound : Nat := 1 <<< 1024 - 1 <<< 970

/-- Whether the number that digits give, times `10 ^ exponent`, is too large for a double.  Far
from the bound the count of the digits decides. -/
def overflows (digits : List Char) (exponent : Int) : Bool :=
  let significant := Digit.significant digits
  let place := exponent + significant.length
  if significant = [] then false
  else if 400 < place then true
  else if place < 300 then false
  else
    let mantissa := Digit.number 10 significant
    if 0 ≤ exponent then doubleBound ≤ mantissa * Nat.pow 10 exponent.toNat
    else doubleBound * Nat.pow 10 (-exponent).toNat ≤ mantissa

/-- The characters of `text` before `rest`, which ends it. -/
def before (text rest : List Char) : List Char := text.take (text.length - rest.length)

/-- A float in digits; one above zero must not be too large for a double. -/
def scanDecimalFloat (text : List Char) : Option (Value × List Char) := do
  let (negative, unsigned) := scanSign text
  let (whole, afterWhole) ← scanWhole unsigned
  let (fraction, afterFraction) ← match afterWhole with
    | '.' :: text => someDigits isDecimal text
    | text => some ([], text)
  let (exponent, rest) ← match scanExponent afterFraction with
    | some read => some read
    | none => if fraction = [] then none else some (0, afterFraction)
  if ¬negative ∧ overflows (whole ++ fraction) (exponent - fraction.length) then none
  else some (.float (before text rest), rest)

/-- An infinity or what is not a number. -/
def scanSpecialFloat (text : List Char) : Option (Value × List Char) :=
  match (scanSign text).2 with
  | 'i' :: 'n' :: 'f' :: rest => some (.float (before text rest), rest)
  | 'n' :: 'a' :: 'n' :: rest => some (.float (before text rest), rest)
  | _ => none

def scanFloat (text : List Char) : Option (Value × List Char) :=
  scanDecimalFloat text <|> scanSpecialFloat text

/-! ## Moments -/

/-- A number of `width` digits, no less than `low` and no more than `high`. -/
def scanFixed (width low high : Nat) (text : List Char) : Option (Nat × List Char) :=
  let digits := text.take width
  let value := Digit.number 10 digits
  if digits.length = width ∧ digits.all isDecimal ∧ low ≤ value ∧ value ≤ high then
    some (value, text.drop width)
  else none

/-- A given character. -/
def scanChar (c : Char) : List Char → Option (List Char)
  | d :: text => if d = c then some text else none
  | [] => none

def daysOfMonth (year month : Nat) : Nat :=
  if month = 2 then
    if year % 4 = 0 ∧ (year % 100 ≠ 0 ∨ year % 400 = 0) then 29 else 28
  else if month = 4 ∨ month = 6 ∨ month = 9 ∨ month = 11 then 30
  else 31

/-- What follows a date. -/
def scanDate (text : List Char) : Option (List Char) := do
  let (year, text) ← scanFixed 4 0 9999 text
  let text ← scanChar '-' text
  let (month, text) ← scanFixed 2 1 12 text
  let text ← scanChar '-' text
  let (_, text) ← scanFixed 2 1 (daysOfMonth year month) text
  some text

/-- What follows a time of day. -/
def scanTime (text : List Char) : Option (List Char) := do
  let (_, text) ← scanFixed 2 0 23 text
  let text ← scanChar ':' text
  let (_, text) ← scanFixed 2 0 59 text
  let text ← scanChar ':' text
  let (_, text) ← scanFixed 2 0 60 text
  match text with
  | '.' :: c :: rest => if isDecimal c then some (rest.dropWhile isDecimal) else some text
  | _ => some text

/-- What follows the offset of a time, if there is one. -/
def scanOffset (text : List Char) : Option (List Char) :=
  match text with
  | c :: rest =>
    if c = 'Z' ∨ c = 'z' then some rest
    else if c = '+' ∨ c = '-' then do
      let (_, rest) ← scanFixed 2 0 23 rest
      let rest ← scanChar ':' rest
      let (_, rest) ← scanFixed 2 0 59 rest
      some rest
    else some text
  | [] => some []

/-- A date, a time, or a date with a time and perhaps an offset. -/
def scanMoment (text : List Char) : Option (Value × List Char) := do
  let rest ← match scanDate text with
    | some rest =>
      match rest with
      | c :: later =>
        if c = 'T' ∨ c = 't' ∨ c = ' ' then
          match scanTime later with
          | some rest => scanOffset rest
          | none => some rest
        else some rest
      | [] => some rest
    | none => scanTime text
  some (.dateTime (before text rest), rest)

/-- Anything that starts like a number. -/
def scanNumber (text : List Char) : Option (Value × List Char) :=
  scanMoment text <|> scanFloat text <|> scanInteger text

end UserVault.Toml
