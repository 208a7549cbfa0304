import UserVault.Settings.Usage
import UserVault.Text.Utf8

/-!
# The command line

A setting is given as `--name value`, `--name=value`, `-n value`, `-nvalue` or `-n=value`.  A value
that is an argument of its own is looked at only when the next setting or question, or the end of
the command line, is reached; an argument that means nothing is reported before that.
-/

namespace UserVault.Settings

/-- What a command line says. -/
structure CommandLine where
  config : Option Bytes := none
  host : Option String := none
  port : Option UInt16 := none
  baseDirectory : Option Bytes := none
  workers : Option Nat := none
  logLevel : Option String := none
  deriving DecidableEq, Repr

/-- Why a command line does not lead to settings. -/
inductive Stop
  | asked (q : Question)
  | wrong (e : UsageError)
  deriving DecidableEq, Repr

namespace CommandLine

/-- Whether a setting has been given. -/
def gives (c : CommandLine) : Setting → Bool
  | .config => c.config.isSome
  | .host => c.host.isSome
  | .port => c.port.isSome
  | .baseDirectory => c.baseDirectory.isSome
  | .workers => c.workers.isSome
  | .logLevel => c.logLevel.isSome

/-! ## Values -/

def pathValue (s : Setting) (value : Bytes) : Except UsageError Bytes :=
  if value = [] then .error (.missingValue s) else .ok value

def textValue (value : Bytes) : Except UsageError (List Char) :=
  match Utf8.decode? value with
  | some text => .ok text
  | none => .error .notText

def portValue (s : Setting) (text : List Char) : Except UsageError UInt16 :=
  match Numeral.readInt text with
  | .error fault => .error (.badNumber s text (.numeral fault))
  | .ok n =>
    if 0 ≤ n ∧ n < 65536 then .ok (UInt16.ofNat n.toNat)
    else .error (.badNumber s text (.noPort n))

def countValue (s : Setting) (text : List Char) : Except UsageError Nat :=
  match Numeral.readNat 0xFFFFFFFFFFFFFFFF text with
  | .error fault => .error (.badNumber s text (.numeral fault))
  | .ok n => .ok n

/-- Gives a setting its value, which must not have been given before. -/
def give (c : CommandLine) (s : Setting) (value : Bytes) : Except UsageError CommandLine :=
  if c.gives s then .error (.givenTwice s)
  else
    match s with
    | .config => (pathValue s value).map fun path => { c with config := some path }
    | .baseDirectory => (pathValue s value).map fun path => { c with baseDirectory := some path }
    | .host => do
      let text ← textValue value
      .ok { c with host := some (String.ofList text) }
    | .logLevel => do
      let text ← textValue value
      .ok { c with logLevel := some (String.ofList text) }
    | .port => do
      let port ← portValue s (← textValue value)
      .ok { c with port := some port }
    | .workers => do
      let workers ← countValue s (← textValue value)
      .ok { c with workers := some workers }

/-! ## Arguments -/

/-- A setting that stands without a value attached, and the argument taken for its value. -/
structure Pending where
  setting : Setting
  value : Option Bytes := none
  deriving DecidableEq, Repr

/-- What has been read of a command line. -/
structure Progress where
  given : CommandLine := {}
  pending : Option Pending := none
  deriving DecidableEq, Repr

/-- What one argument brings, or the reason to stop. -/
abbrev Step := Progress → Except Stop Progress

/-- Gives the pending setting its value. -/
def settle (p : Progress) : Except Stop CommandLine :=
  match p.pending with
  | none => .ok p.given
  | some { value := none, setting } => .error (.wrong (.missingValue setting))
  | some { value := some value, setting } => (p.given.give setting value).mapError .wrong

/-- A setting with the value that is attached to it, if there is one. -/
def meetSetting (s : Setting) (value : Option Bytes) : Step := fun p => do
  let given ← settle p
  match value with
  | none => .ok { given, pending := some { setting := s } }
  | some value => (given.give s value).map (fun given => { given }) |>.mapError .wrong

def meetQuestion (q : Question) : Step := fun p => do
  let _ ← settle p
  .error (.asked q)

def equals : UInt8 := 0x3D

/-- An argument that two dashes begin, without them. -/
def meetLong (rest : Bytes) : Step := fun p =>
  let name := rest.takeWhile (· ≠ equals)
  let value := (rest.dropWhile (· ≠ equals)).tail?
  match Setting.all.find? (fun s => Utf8.ofString s.long = name),
    Question.all.find? (fun q => Utf8.ofString q.long = name), value with
  | some s, _, value => meetSetting s value p
  | none, some q, none => meetQuestion q p
  | none, some q, some value => .error (.wrong (.surplusValue q (Utf8.repaired value)))
  | none, none, _ => .error (.wrong (.unexpected ('-' :: '-' :: Utf8.repaired name)))

/-- The value attached to a letter: an equals sign in front is not part of it, and no bytes are
no value. -/
def attached (rest : Bytes) : Option Bytes :=
  match rest with
  | [] => none
  | b :: more => if b = equals then some more else some rest

/-- An argument that one dash begins, without it: a letter, and what follows the letter.  A
question ends the reading, so only the first letter matters. -/
def meetLetter (rest : Bytes) : Step := fun p =>
  match rest with
  | [] => .ok p
  | b :: more =>
    match Utf8.next b more with
    | (none, _) => .error (.wrong (.unexpected ('-' :: Utf8.repaired rest)))
    | (some c, more) =>
      match Setting.all.find? (fun s => s.letter? = some c),
        Question.all.find? (fun q => q.letter = c) with
      | some s, _ => meetSetting s (attached more) p
      | none, some q => meetQuestion q p
      | none, none => .error (.wrong (.unexpected ['-', c]))

/-- An argument that is no setting: the value of the pending setting, if that has none yet. -/
def meetValue (argument : Bytes) : Step := fun p =>
  match p.pending with
  | some { value := none, setting } => .ok { p with pending := some { setting, value := argument } }
  | _ => .error (.wrong (.unexpected (Utf8.repaired argument)))

def dash : UInt8 := 0x2D

def meet (argument : Bytes) : Step :=
  match argument with
  | [] => meetValue argument
  | b :: rest =>
    if b ≠ dash ∨ rest = [] then meetValue argument
    else if rest.head? = some dash then meetLong rest.tail
    else meetLetter rest

/-- Reads arguments; after two dashes that stand alone none may follow. -/
def read : List Bytes → Step
  | [], p => .ok p
  | argument :: rest, p =>
    if argument = [dash, dash] then
      match rest with
      | [] => .ok p
      | next :: _ => .error (.wrong (.unexpected (Utf8.repaired next)))
    else do
      let p ← meet argument p
      read rest p

/-- The settings that the arguments after the program's name give. -/
def parse (arguments : List Bytes) : Except Stop CommandLine := do
  settle (← read arguments {})

end CommandLine

end UserVault.Settings
