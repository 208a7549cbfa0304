import UserVault.Text.Character
import UserVault.Toml.Value

/-!
# The text of a TOML document

Blanks, comments, line ends and the four kinds of strings.  What reads a piece of text gives back
what it read and the text that follows, or nothing where the text is not well-formed.
-/

namespace UserVault.Toml

/-- Takes something from the front of a text. -/
abbrev Scan (α : Type) := List Char → Option (α × List Char)

def isBlank (c : Char) : Bool := c = ' ' ∨ c = '\t'

/-- A character that a comment may hold. -/
def isCommentChar (c : Char) : Bool := c = '\t' ∨ (' ' ≤ c ∧ c ≠ '\x7f')

def skipBlanks (text : List Char) : List Char := text.dropWhile isBlank

/-- Skips blanks, line ends and comments. -/
def skipFiller : (inComment : Bool) → List Char → List Char
  | _, '\n' :: text => skipFiller false text
  | _, '\r' :: '\n' :: text => skipFiller false text
  | true, c :: text => if isCommentChar c then skipFiller true text else c :: text
  | false, c :: text =>
    if isBlank c then skipFiller false text
    else if c = '#' then skipFiller true text
    else c :: text
  | _, [] => []

/-- What follows the end of a line, which the end of the text is too. -/
def lineEnd : List Char → Option (List Char)
  | [] => some []
  | '\n' :: text => some text
  | '\r' :: '\n' :: text => some text
  | _ => none

/-- What follows the rest of a line that has nothing but blanks and a comment. -/
def restOfLine (text : List Char) : Option (List Char) :=
  match skipBlanks text with
  | '#' :: text => lineEnd (text.dropWhile isCommentChar)
  | text => lineEnd text

/-! ## Strings -/

/-- A character that stands for itself in a quoted string. -/
def isQuotedChar (c : Char) : Bool := isCommentChar c ∧ c ≠ '"' ∧ c ≠ '\\'

/-- A character of a literal string. -/
def isLiteralChar (c : Char) : Bool := isCommentChar c ∧ c ≠ '\''

/-- The character with the code that hexadecimal digits give. -/
def charOfHex? (digits : List Char) : Option Char := do
  guard (digits.all (Digit.isIn 16))
  let code := Digit.number 16 digits
  if h : code.isValidChar then some (Char.ofNatAux code h) else none

/-- The character that a backslash and one letter stand for. -/
def escaped? : Char → Option Char
  | 'b' => some '\x08'
  | 't' => some '\t'
  | 'n' => some '\n'
  | 'f' => some '\x0c'
  | 'r' => some '\r'
  | '"' => some '"'
  | '\\' => some '\\'
  | _ => none

/-- Puts a character in front of what was read. -/
def prepend (c : Char) (read : Option (List Char × List Char)) : Option (List Char × List Char) :=
  read.map fun (text, rest) => (c :: text, rest)

/-- The rest of a quoted string. -/
def quoted : Scan (List Char)
  | [] => none
  | '"' :: rest => some ([], rest)
  | '\\' :: 'u' :: a :: b :: c :: d :: rest =>
    (charOfHex? [a, b, c, d]).bind fun e => prepend e (quoted rest)
  | '\\' :: 'U' :: a :: b :: c :: d :: e :: f :: g :: h :: rest =>
    (charOfHex? [a, b, c, d, e, f, g, h]).bind fun e => prepend e (quoted rest)
  | '\\' :: c :: rest => (escaped? c).bind fun e => prepend e (quoted rest)
  | c :: rest => if isQuotedChar c then prepend c (quoted rest) else none

/-- The rest of a literal string. -/
def literal : Scan (List Char)
  | [] => none
  | '\'' :: rest => some ([], rest)
  | c :: rest => if isLiteralChar c then prepend c (literal rest) else none

/-- Whether a line ends after blanks. -/
def endsLine (text : List Char) : Bool :=
  match skipBlanks text with
  | '\n' :: _ => true
  | '\r' :: '\n' :: _ => true
  | _ => false

/-- The rest of a quoted string of several lines.  A backslash at the end of a line drops what is
blank up to the next character, so do the line ends there; up to two quotes may stand right before
the closing ones. -/
def quotedLines : (dropping : Bool) → Scan (List Char)
  | true, '\n' :: rest => quotedLines true rest
  | true, '\r' :: '\n' :: rest => quotedLines true rest
  | _, '"' :: '"' :: '"' :: '"' :: '"' :: rest => some (['"', '"'], rest)
  | _, '"' :: '"' :: '"' :: '"' :: rest => some (['"'], rest)
  | _, '"' :: '"' :: '"' :: rest => some ([], rest)
  | _, '\n' :: rest => prepend '\n' (quotedLines false rest)
  | _, '\r' :: '\n' :: rest => prepend '\n' (quotedLines false rest)
  | _, '\\' :: 'u' :: a :: b :: c :: d :: rest =>
    (charOfHex? [a, b, c, d]).bind fun e => prepend e (quotedLines false rest)
  | _, '\\' :: 'U' :: a :: b :: c :: d :: e :: f :: g :: h :: rest =>
    (charOfHex? [a, b, c, d, e, f, g, h]).bind fun e => prepend e (quotedLines false rest)
  | _, '\\' :: c :: rest =>
    match escaped? c with
    | some e => prepend e (quotedLines false rest)
    | none => if endsLine (c :: rest) then quotedLines true (c :: rest) else none
  | dropping, c :: rest =>
    if dropping ∧ isBlank c then quotedLines true rest
    else if c = '"' ∨ isQuotedChar c then prepend c (quotedLines false rest)
    else none
  | _, [] => none

/-- The rest of a literal string of several lines. -/
def literalLines : Scan (List Char)
  | '\'' :: '\'' :: '\'' :: '\'' :: '\'' :: rest => some (['\'', '\''], rest)
  | '\'' :: '\'' :: '\'' :: '\'' :: rest => some (['\''], rest)
  | '\'' :: '\'' :: '\'' :: rest => some ([], rest)
  | '\n' :: rest => prepend '\n' (literalLines rest)
  | '\r' :: '\n' :: rest => prepend '\n' (literalLines rest)
  | c :: rest =>
    if c = '\'' ∨ isLiteralChar c then prepend c (literalLines rest) else none
  | [] => none

/-- Drops the line end that may follow the opening quotes of a string of several lines. -/
def dropFirstLineEnd : List Char → List Char
  | '\n' :: rest => rest
  | '\r' :: '\n' :: rest => rest
  | text => text

/-- Any string. -/
def scanString : Scan (List Char)
  | '"' :: '"' :: '"' :: rest => quotedLines false (dropFirstLineEnd rest)
  | '"' :: rest => quoted rest
  | '\'' :: '\'' :: '\'' :: rest => literalLines (dropFirstLineEnd rest)
  | '\'' :: rest => literal rest
  | _ => none

/-! ## Keys -/

/-- A character of a bare key. -/
def isKeyChar (c : Char) : Bool := c.isAlphanum ∨ c = '-' ∨ c = '_'

/-- A key without dots. -/
def scanSimpleKey : Scan Key
  | '"' :: rest => quoted rest
  | '\'' :: rest => literal rest
  | text =>
    let key := text.takeWhile isKeyChar
    if key = [] then none else some (key, text.dropWhile isKeyChar)

/-- The most values, and the most parts of a key, that may be inside one another. -/
def maxDepth : Nat := 79

/-- A key with dots, at most `parts` parts. -/
def scanKeyParts : (parts : Nat) → Scan (List Key)
  | 0, _ => none
  | parts + 1, text => do
    let (key, text) ← scanSimpleKey (skipBlanks text)
    match skipBlanks text with
    | '.' :: text =>
      let (keys, text) ← scanKeyParts parts text
      some (key :: keys, text)
    | text => some ([key], text)

/-- A key, all of its parts. -/
def scanKey : Scan (List Key) := scanKeyParts maxDepth

end UserVault.Toml
