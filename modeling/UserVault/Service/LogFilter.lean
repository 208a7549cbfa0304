import UserVault.Text.Character
import UserVault.Text.Numeral
import UserVault.Text.Utf8

/-!
# Log filters

A log filter says what is to be logged.  It is a list of directives with commas between them:

```text
level
target=level
target[span{field=value}]=level
```

Target, span, fields and level may each be left out.  A directive that cannot be read is passed
over with a complaint.
-/

namespace UserVault.LogFilter

/-- Why a directive cannot be read. -/
inductive Fault
  | malformed
  | unknownLevel
  deriving DecidableEq, Repr

def Fault.message : Fault → String
  | .malformed => "invalid filter directive"
  | .unknownLevel =>
    "error parsing level filter: expected one of \"off\", \"error\", \"warn\", \"info\", " ++
      "\"debug\", \"trace\", or a number 0-5"

def levelNames : List String := ["off", "error", "warn", "info", "debug", "trace"]

/-- Whether a text names a level, by its name in any case or by its number. -/
def isLevel (text : List Char) : Bool :=
  (Numeral.readNat 5 text).isOk || levelNames.any fun name => text.map Char.toLower = name.toList

/-- How far a directive has been read. -/
inductive Part
  | beginning
  /-- In a target, or in a level that stands alone. -/
  | target
  | span
  /-- Among the fields; `empty` says that the last of them has no character yet. -/
  | field (empty : Bool)
  /-- After the fields. -/
  | fields
  /-- After a span. -/
  | spanned
  /-- In a level that starts so many bytes into the directive. -/
  | level (start : Nat)
  deriving DecidableEq, Repr

/-- Whether a directive can begin with a character, other than with a bracket. -/
def startsTarget (c : Char) : Bool := c = '-' ∨ c = ':' ∨ c = '_' ∨ isAlphanumeric c

/-- The part that `c`, so many bytes into the directive, leads to. -/
def Part.next (part : Part) (offset : Nat) (c : Char) : Option Part :=
  match part with
  | .beginning => if c = '[' then some .span else if startsTarget c then some .target else none
  | .target =>
    if c = '=' then some (.level (offset + 1)) else if c = '[' then some .span else some .target
  | .span =>
    if c = ']' then some .spanned else if c = '{' then some (.field true) else some .span
  | .field empty => if c ≠ '}' then some (.field false) else if empty then none else some .fields
  | .fields => if c = ']' then some .spanned else none
  | .spanned => if c = '=' then some (.level (offset + 1)) else none
  | .level start => some (.level start)

/-- The part that a text leads to. -/
def Part.after (part : Part) (offset : Nat) : List Char → Option Part
  | [] => some part
  | c :: rest => (part.next offset c).bind fun part => part.after (offset + c.utf8Size) rest

/-- A text without the blanks around it. -/
def trimmed (text : List Char) : List Char :=
  ((text.dropWhile isBlank).reverse.dropWhile isBlank).reverse

/-- What is wrong with a directive.  Bytes are counted from the first character that is no blank,
but the level is looked for by its count in the directive as it stands. -/
def faultOf? (directive : List Char) : Option Fault :=
  match Part.beginning.after 0 (trimmed directive) with
  | some .target | some .spanned => none
  | some (.level start) =>
    let text := Utf8.repaired ((Utf8.encode directive).drop start)
    if text = [] ∨ isLevel text then none else some .unknownLevel
  | _ => some .malformed

def directives (filter : String) : List (List Char) :=
  (filter.toList.splitOn ',').filter (· ≠ [])

/-- What is said of a filter: a line for each directive that is passed over. -/
def complaints (filter : String) : String :=
  String.join ((directives filter).filterMap fun directive =>
    (faultOf? directive).map fun fault =>
      s!"ignoring `{String.ofList directive}`: {fault.message}\n")

end UserVault.LogFilter
