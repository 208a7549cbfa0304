import UserVault.Bytes

/-!
# Paths

A path is a list of steps, taken from the root or from where the process stands.  `.` steps and
repeated slashes mean nothing and are dropped; `..` steps are kept, because what they lead to
depends on links.  What is dropped still counts for the length of the path.
-/

namespace UserVault.Disk

/-- One step of a path: the name of an entry, or `..`. -/
abbrev Name := Bytes

/-- The byte between two steps. -/
def slash : UInt8 := 0x2F

/-- The step that stays. -/
def here : Name := [0x2E]

/-- The step to the directory above. -/
def up : Name := [0x2E, 0x2E]

structure Path where
  /-- Whether the path starts at the root. -/
  absolute : Bool := false
  steps : List Name
  /-- How many bytes of the path, as it was written, mean nothing. -/
  idle : Nat := 0
  deriving DecidableEq, Repr

/-- The pieces of a text between slashes. -/
def splitSlashes (text : Bytes) : List Name :=
  text.splitOn slash

namespace Path

/-- The number of bytes that mean something in front of a step that comes next. -/
def reach (absolute : Bool) (steps : List Name) : Nat :=
  steps.foldl (fun n step => n + step.length + 1) absolute.toNat

/-- The number of bytes in front of a step that comes next, when the path is written as `text`. -/
def reachOfText (text : Bytes) : Nat :=
  if text = [] ∨ text.getLast? = some slash then text.length else text.length + 1

def parse (text : Bytes) : Path :=
  let absolute := text.head? = some slash
  let steps := (splitSlashes text).filter fun step => step ≠ [] ∧ step ≠ here
  { absolute, steps, idle := reachOfText text - reach absolute steps }

/-- The length of the path, without a slash at its end. -/
def size (p : Path) : Nat := reach p.absolute p.steps + p.idle - 1

/-- The path that `text` names when read from `p`. -/
def join (p : Path) (text : Bytes) : Path :=
  let q := parse text
  if q.absolute then q else { p with steps := p.steps ++ q.steps, idle := p.idle + q.idle }

/-- The path without its last step. -/
def parent? (p : Path) : Option Path :=
  if p.steps = [] then none else some { p with steps := p.steps.dropLast }

/-- The last step, unless it goes up. -/
def fileName? (p : Path) : Option Name :=
  p.steps.getLast?.filter (· ≠ up)

def text (p : Path) : Bytes :=
  (if p.absolute then [slash] else []) ++ (p.steps.intersperse [slash]).flatten

end Path

end UserVault.Disk
