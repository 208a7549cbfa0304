import UserVault.Bytes

/-!
# Plain text

What a terminal shows of a text: control characters other than blanks and line ends go, and so do
the commands to the terminal that an escape character begins.  `plain` takes a text for itself.
`printed` takes it as it goes out to a stream, where a blank inside a command is shown and does not
end the command.
-/

namespace UserVault.Plain

/-- What ends a text that is part of a command. -/
inductive Closer
  | bell
  /-- The byte `9C`, as part of whatever character. -/
  | terminator
  deriving DecidableEq, Repr

/-- A part of what comes before the text in a command to a device. -/
inductive Heading
  | empty
  | numbers
  | marks
  deriving DecidableEq, Repr

/-- Where in a command to the terminal a text is. -/
inductive Position
  | outside
  /-- After the escape character. -/
  | opened
  /-- After characters that can only precede the last one. -/
  | closing
  /-- Among the numbers of a command. -/
  | numbers
  /-- Before the text of a command to a device. -/
  | heading (part : Heading)
  /-- In a text that is part of a command. -/
  | string (closer : Closer)
  deriving DecidableEq, Repr

/-- A control character that stands for white space. -/
def isSpacing (c : Char) : Bool := c = '\t' ∨ c = '\n' ∨ c = '\x0c' ∨ c = '\r'

def isControl (c : Char) : Bool := c < ' ' ∨ c = '\x7f'

/-- Whether a character outside all commands is shown. -/
def isShown (c : Char) : Bool := !isControl c || isSpacing c

/-- Whether the terminator is among the bytes of a character. -/
def hasTerminator (c : Char) : Bool := (String.utf8EncodeChar c).contains 0x9C

/-- The position that follows a heading and `c`. -/
def Heading.next (part : Heading) (c : Char) : Position :=
  if c < '0' then .heading .marks
  else if '@' ≤ c then .string .terminator
  else
    match part with
    | .empty => .heading .numbers
    | .numbers => if c < '<' then .heading .numbers else .string .terminator
    | .marks => .string .terminator

/-- The position that follows an escape character and `c`. -/
def Position.begin (c : Char) : Position :=
  if c < '0' then .closing
  else if c = '[' then .numbers
  else if c = ']' then .string .bell
  else if c = 'P' then .heading .empty
  else if c = 'X' ∨ c = '^' ∨ c = '_' then .string .terminator
  else .outside

/-- The position after `c`, and whether `c` is shown. -/
def Position.next (position : Position) (c : Char) : Position × Bool :=
  if c = '\x1b' then (.opened, false)
  else if c = '\x18' ∨ c = '\x1a' then (.outside, false)
  else
    match position with
    | .outside => (.outside, isShown c)
    | .string .bell => (if c = '\x07' then .outside else position, false)
    | .string .terminator => (if hasTerminator c then .outside else position, false)
    | .heading part => (if isControl c ∨ '\x7f' < c then position else part.next c, false)
    | _ =>
      if isSpacing c then (position, true)
      else if isControl c ∨ '\x7f' < c then (position, false)
      else
        match position with
        | .opened => (.begin c, false)
        | .closing => (if c < '0' then .closing else .outside, false)
        | _ => (if c < '@' then position else .outside, false)

/-- What is shown of a text from a position on; whatever is shown ends a command. -/
def plainFrom : Position → List Char → List Char
  | _, [] => []
  | position, c :: rest =>
    let (position, shown) := position.next c
    if shown then c :: plainFrom .outside rest else plainFrom position rest

def plain (text : List Char) : List Char := plainFrom .outside text

/-- What goes out of a text from a position on; `running` says that the character before has gone
out.  While characters go out, only one of more than one byte ends a command. -/
def printedFrom : (running : Bool) → Position → List Char → List Char
  | _, _, [] => []
  | running, position, c :: rest =>
    if running ∧ isShown c then
      c :: printedFrom true (if '\x7f' < c then .outside else position) rest
    else
      let (position, shown) := position.next c
      if shown then c :: printedFrom true position rest else printedFrom false position rest

def printed (text : List Char) : List Char := printedFrom false .outside text

end UserVault.Plain
