import UserVault.Text.Character

/-!
# Addresses

A host is given in digits: as a dotted address of one to four numbers, or as an address of eight
groups, a run of which may be left out, between brackets or not.  A percent sign and a number
between the brackets say which zone of the network an address of groups is meant in.
-/

namespace UserVault.Net

/-- An address of a machine, of the old kind or the new. -/
inductive Host
  | v4 (bits : BitVec 32)
  | v6 (bits : BitVec 128)
  deriving DecidableEq, Repr

structure Address where
  host : Host
  port : UInt16
  /-- The zone, or zero for none. -/
  zone : UInt32 := 0
  deriving DecidableEq, Repr

/-- Puts numbers of `width` bits together, the first in front. -/
def joinBits (width : Nat) (parts : List Nat) : Nat :=
  parts.foldl (fun n part => n <<< width + part) 0

/-! ## Dotted addresses -/

/-- A number of a dotted address: in base sixteen after `0x`, in base eight after another zero,
else in base ten. -/
def number? : List Char → Option Nat
  | [] => none
  | '0' :: c :: digits =>
    if c = 'x' ∨ c = 'X' then
      if digits ≠ [] ∧ digits.all (Digit.isIn 16) then some (Digit.number 16 digits) else none
    else if (c :: digits).all (Digit.isIn 8) then some (Digit.number 8 (c :: digits))
    else none
  | digits => if digits.all (Digit.isIn 10) then some (Digit.number 10 digits) else none

/-- The bits of a dotted address: each number but the last stands for eight bits, and the last for
those that are left. -/
def dotted? (text : List Char) : Option (BitVec 32) := do
  let numbers ← (text.splitOn '.').mapM number?
  let last ← numbers.getLast?
  let first := numbers.dropLast
  if first.length ≤ 3 ∧ first.all (· < 256) ∧ last < 1 <<< (32 - 8 * first.length) then
    some (BitVec.ofNat 32 (joinBits 8 first <<< (32 - 8 * first.length) + last))
  else none

/-- A number below 256 in base ten, without a leading zero. -/
def octet? (digits : List Char) : Option Nat :=
  if digits ≠ [] ∧ digits.all (Digit.isIn 10) ∧ (digits.length = 1 ∨ digits.head? ≠ some '0') ∧
      Digit.number 10 digits < 256 then
    some (Digit.number 10 digits)
  else none

/-! ## Addresses of groups -/

/-- A group of up to four digits in base sixteen. -/
def group? (digits : List Char) : Option Nat :=
  if digits ≠ [] ∧ digits.length ≤ 4 ∧ digits.all (Digit.isIn 16) then
    some (Digit.number 16 digits)
  else none

/-- The two groups that a dotted address of four numbers stands for. -/
def dottedGroups? (text : List Char) : Option (List Nat) := do
  match ← (text.splitOn '.').mapM octet? with
  | [a, b, c, d] => some [a * 256 + b, c * 256 + d]
  | _ => none

/-- Groups between colons; a dotted address may stand for the last two. -/
def groups? (mayDot : Bool) (text : List Char) : Option (List Nat) :=
  if text = [] then some []
  else do
    let pieces := text.splitOn ':'
    let last ← pieces.getLast?
    let first ← pieces.dropLast.mapM group?
    let lastGroups ← (group? last).map ([·]) <|> if mayDot then dottedGroups? last else none
    some (first ++ lastGroups)

/-- What stands before the first two colons in a row and what stands after them. -/
def splitGap : List Char → Option (List Char × List Char)
  | ':' :: ':' :: rest => some ([], rest)
  | c :: rest => (splitGap rest).map fun (before, after) => (c :: before, after)
  | [] => none

/-- The bits of an address of eight groups; two colons stand for one group of zero or more. -/
def grouped? (text : List Char) : Option (BitVec 128) := do
  let groups ← match splitGap text with
    | none => groups? true text
    | some (before, after) => do
      let before ← groups? false before
      let after ← groups? true after
      let missing := 8 - (before.length + after.length)
      if missing = 0 then none else some (before ++ List.replicate missing 0 ++ after)
  if groups.length = 8 then some (BitVec.ofNat 128 (joinBits 16 groups)) else none

/-! ## Hosts -/

/-- The text between brackets. -/
def bracketed? : List Char → Option (List Char)
  | '[' :: text => if text.getLast? = some ']' then some text.dropLast else none
  | _ => none

/-- The number of a zone. -/
def zone? (digits : List Char) : Option UInt32 :=
  if digits ≠ [] ∧ digits.all (Digit.isIn 10) ∧ (Digit.significant digits).length ≤ 10 ∧
      Digit.number 10 digits < UInt32.size then
    some (UInt32.ofNat (Digit.number 10 digits))
  else none

/-- The host that a text in digits gives, and its zone. -/
def Host.ofText? (text : List Char) : Option (Host × UInt32) :=
  match bracketed? text with
  | some text => do
    let bits ← grouped? (text.takeWhile (· ≠ '%'))
    match text.dropWhile (· ≠ '%') with
    | _ :: digits => some (.v6 bits, ← zone? digits)
    | [] => some (.v6 bits, 0)
  | none => (dotted? text).map (.v4 ·, 0) <|> (grouped? text).map (.v6 ·, 0)

/-- Why a host is not known. -/
inductive HostFault
  /-- The text holds a NUL, which no name can. -/
  | nul
  /-- The text is no address, and there is nobody to ask about names. -/
  | unresolved
  deriving DecidableEq, Repr

def HostFault.message : HostFault → String
  | .nul => "file name contained an unexpected NUL byte"
  | .unresolved =>
    "failed to lookup address information: Temporary failure in name resolution"

/-- The address of a port at a host. -/
def Address.resolve (host : String) (port : UInt16) : Except HostFault Address :=
  match Host.ofText? host.toList with
  | some (host, zone) => .ok { host, port, zone }
  | none => .error (if host.toList.contains '\x00' then .nul else .unresolved)

end UserVault.Net
