import UserVault.Text.Numeral
import UserVault.Text.Plain

/-!
# Usage

The settings that the command line can give, the text that explains them, and what is said of a
command line that cannot be followed.
-/

namespace UserVault.Settings

/-- A setting that the command line can give. -/
inductive Setting
  | config
  | host
  | port
  | baseDirectory
  | workers
  | logLevel
  deriving DecidableEq, Repr

/-- A question that the command line can put. -/
inductive Question
  | help
  | version
  deriving DecidableEq, Repr

namespace Setting

def all : List Setting := [.config, .host, .port, .baseDirectory, .workers, .logLevel]

/-- The name that follows two dashes. -/
def long : Setting → String
  | .config => "config"
  | .host => "host"
  | .port => "port"
  | .baseDirectory => "base-dir"
  | .workers => "workers"
  | .logLevel => "log-level"

/-- The letter that follows one dash. -/
def letter? : Setting → Option Char
  | .config => some 'c'
  | .host => some 'H'
  | .port => some 'p'
  | .baseDirectory => some 'd'
  | .workers => some 'w'
  | .logLevel => none

/-- What stands for the value. -/
def placeholder : Setting → String
  | .config => "CONFIG"
  | .host => "HOST"
  | .port => "PORT"
  | .baseDirectory => "BASE_DIR"
  | .workers => "WORKERS"
  | .logLevel => "LOG_LEVEL"

def summary : Setting → String
  | .config => "Path to TOML configuration file"
  | .host => "Address to bind to (e.g., 0.0.0.0)"
  | .port => "Port to listen on"
  | .baseDirectory => "Directory holding one subdirectory per user id"
  | .workers => "Number of worker threads (defaults to number of CPU cores)"
  | .logLevel => "Log level (trace, debug, info, warn, error)"

/-- The setting as messages name it. -/
def shown (s : Setting) : String := s!"--{s.long} <{s.placeholder}>"

end Setting

namespace Question

def all : List Question := [.help, .version]

def long : Question → String
  | .help => "help"
  | .version => "version"

def letter : Question → Char
  | .help => 'h'
  | .version => 'V'

def summary : Question → String
  | .help => "Print help"
  | .version => "Print version"

end Question

/-! ## The text that explains the settings -/

/-- What stands on the left of a line: the letter, if there is one, and the long name. -/
def spelling (letter : Option Char) (long : String) : String :=
  match letter with
  | some c => s!"  -{c}, {long}"
  | none => s!"      {long}"

/-- The lines on settings and questions, as what is on the left and what is on the right. -/
def usageLines : List (String × String) :=
  (Setting.all.map fun s => (spelling s.letter? s.shown, s.summary)) ++
    Question.all.map fun q => (spelling (some q.letter) s!"--{q.long}", q.summary)

/-- The lines with all that is on the right in one column. -/
def alignedUsage : List String :=
  let width := (usageLines.map (·.1.length)).foldl max 0 + 2
  usageLines.map fun (left, right) =>
    left ++ String.ofList (List.replicate (width - left.length) ' ') ++ right

def helpText : String :=
  "A per-user file backup server\n\nUsage: backup-server [OPTIONS]\n\nOptions:\n" ++
    String.join (alignedUsage.map (· ++ "\n"))

def versionText : String := "backup-server 0.1.0\n"

def Question.answer : Question → String
  | .help => helpText
  | .version => versionText

/-! ## Errors -/

/-- What is wrong with the value of a setting that is a number. -/
inductive NumberFault
  | numeral (fault : Numeral.Fault)
  /-- The number is none that a port can have. -/
  | noPort (n : Int)
  deriving DecidableEq, Repr

def NumberFault.message : NumberFault → String
  | .numeral fault => fault.message
  | .noPort n => s!"{n} is not in 0..=65535"

/-- Why a command line cannot be followed. -/
inductive UsageError
  /-- An argument that means nothing. -/
  | unexpected (argument : List Char)
  | missingValue (s : Setting)
  | givenTwice (s : Setting)
  /-- A value that must be text is not. -/
  | notText
  | badNumber (s : Setting) (value : List Char) (fault : NumberFault)
  /-- A question with a value. -/
  | surplusValue (q : Question) (value : List Char)
  deriving DecidableEq, Repr

/-- What is said of an error; `shown` gives a piece of the command line as it is to be seen. -/
def UsageError.messageWith (shown : List Char → List Char) (e : UsageError) : String :=
  let piece (text : List Char) := String.ofList (shown text)
  match e with
  | .unexpected argument => s!"error: unexpected argument '{piece argument}' found"
  | .missingValue s => s!"error: a value is required for '{s.shown}' but none was supplied"
  | .givenTwice s => s!"error: the argument '{s.shown}' cannot be used multiple times"
  | .notText => "error: invalid UTF-8 was detected in one or more arguments"
  | .badNumber s value fault =>
    s!"error: invalid value '{piece value}' for '{s.shown}': {fault.message}"
  | .surplusValue q value =>
    s!"error: unexpected value '{piece value}' for '--{q.long}' found; no more were expected"

def UsageError.message (e : UsageError) : String := e.messageWith Plain.plain

/-- The message as it is printed. -/
def UsageError.printed (e : UsageError) : String := e.messageWith Plain.printed

end UserVault.Settings
