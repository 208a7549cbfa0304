import UserVault.Disk.Tree

/-!
# Following paths

A walk takes a path's steps one after the other from a directory.  A link that stands in the way
is followed from the directory it stands in; whether a link at the very end is followed is up to
what the walk is for.  A walk that follows more than `maxLinks` links has failed.
-/

namespace UserVault.Disk

/-- What a path leads to. -/
inductive Found
  /-- Something stands there. -/
  | node (place : Place) (node : Node)
  /-- Nothing stands there, but its directory does. -/
  | vacant (place : Place)
  deriving DecidableEq, Repr

def Found.place : Found → Place
  | .node place _ | .vacant place => place

/-- What a walk is for. -/
inductive Purpose
  /-- To find what a path names; a link at its end is not followed. -/
  | name
  /-- To use what a path leads to. -/
  | use
  /-- To use what a path leads to, or make a file there; a name with a slash after it is refused,
  whatever stands there. -/
  | make
  deriving DecidableEq, Repr

/-- How many links one walk follows. -/
def maxLinks : Nat := 40

/-- The longest name of an entry. -/
def maxName : Nat := 255

/-- The longest path. -/
def maxPath : Nat := 4095

/-- The step that a slash at the end of a text stands for: it asks for a directory. -/
def closing : Name := []

/-- The steps that a text stands for on a walk. -/
def walkSteps (text : Bytes) : List Name :=
  (splitSlashes text).filter (· ≠ []) ++
    if text.getLast? = some slash then [closing] else []

/-- Where the walk of a text starts, when a text without a slash in front starts at `place`. -/
def startOf (place : Place) (text : Bytes) : Place :=
  if text.head? = some slash then [] else place

/-- Takes `steps` from `place`; `follow` goes on from a link. -/
def walkWith (d : Disk) (purpose : Purpose) (follow : Place → List Name → Except Errno Found)
    (place : Place) : List Name → Except Errno Found
  | [] =>
    match d.node? place with
    | some node => .ok (.node place node)
    | none => .error .noEntry
  | step :: steps =>
    match d.node? place with
    | none => .error .noEntry
    | some (.directory mode) =>
      if step = closing then walkWith d purpose follow place steps
      else if !d.allows mode .search then .error .accessDenied
      else if step = here then walkWith d purpose follow place steps
      else if step = up then walkWith d purpose follow place.dropLast steps
      else if purpose = .make ∧ steps = [closing] then .error .isDirectory
      else if maxName < step.length then .error .nameTooLong
      else
        match d.node? (place ++ [step]) with
        | none => if steps = [] then .ok (.vacant (place ++ [step])) else .error .noEntry
        | some (.link target) =>
          if steps = [] ∧ purpose = .name then .ok (.node (place ++ [step]) (.link target))
          else if target = [] then .error .noEntry
          else follow (startOf place target) (walkSteps target ++ steps)
        | some _ => walkWith d purpose follow (place ++ [step]) steps
    | some _ => .error .notDirectory

/-- Takes `steps` from `place`, following at most `links` links. -/
def walk (d : Disk) (purpose : Purpose) : (links : Nat) → Place → List Name → Except Errno Found
  | 0 => walkWith d purpose fun _ _ => .error .loop
  | links + 1 => walkWith d purpose (walk d purpose links)

/-- Where a path takes a walk. -/
def trace (d : Disk) (purpose : Purpose) (p : Path) : Except Errno Found :=
  if maxPath < p.size then .error .nameTooLong
  else d.walk purpose maxLinks (if p.absolute then [] else d.home) p.steps

/-- What a path leads to, a link at its end included. -/
def follow (d : Disk) (p : Path) : Except Errno Found := d.trace .use p

/-- What a path names; a link at its end is not followed. -/
def locate (d : Disk) (p : Path) : Except Errno Found := d.trace .name p

/-- Whether a path leads to a directory. -/
def leadsToDirectory (d : Disk) (p : Path) : Bool :=
  match d.follow p with
  | .ok (.node _ (.directory _)) => true
  | _ => false

end UserVault.Disk
