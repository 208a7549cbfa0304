import UserVault.Text.Utf8

/-!
# File names

A name that a user may give to a file is well-formed text of 1 to 255 bytes that a path takes as
one plain step.
-/

namespace UserVault.Vault

/-- The longest name, in bytes. -/
def maxNameLength : Nat := 255

/-- What is wrong with a name. -/
inductive NameFault
  | notUtf8
  | empty
  | tooLong
  /-- The name is `.` or `..`. -/
  | reserved (name : List Char)
  | forbidden (c : Char)
  /-- The path of the name does not lie right inside the user's directory. -/
  | outside (name : List Char)
  deriving DecidableEq, Repr

/-- The characters that separate steps, name streams, or end texts, on one system or another. -/
def isForbidden (c : Char) : Bool := c = '/' ∨ c = '\\' ∨ c = ':' ∨ c = '\x00'

/-- A forbidden character in single quotes, escaped where it would not show. -/
def quoteForbidden (c : Char) : String :=
  if c = '\\' then "'\\\\'" else if c = '\x00' then "'\\0'" else String.ofList ['\'', c, '\'']

def NameFault.message : NameFault → String
  | .notUtf8 => "not valid UTF-8"
  | .empty => "empty"
  | .tooLong => s!"longer than {maxNameLength} bytes"
  | .reserved name => s!"'{String.ofList name}' is reserved"
  | .forbidden c => s!"contains forbidden character {quoteForbidden c}"
  | .outside name => s!"'{String.ofList name}' does not resolve inside the user directory"

/-- The text of a name that a user may give, or the first fault of it. -/
def checkName (name : Bytes) : Except NameFault (List Char) :=
  match Utf8.decode? name with
  | none => .error .notUtf8
  | some text =>
    if text = [] then .error .empty
    else if maxNameLength < name.length then .error .tooLong
    else if text = ['.'] ∨ text = ['.', '.'] then .error (.reserved text)
    else
      match text.find? isForbidden with
      | some c => .error (.forbidden c)
      | none => .ok text

end UserVault.Vault
