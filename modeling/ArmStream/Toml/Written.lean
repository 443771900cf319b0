import ArmStream.Toml.Literal

/-!
# Writing strings in TOML

The first of the forms is taken in which the text needs no escape: on one line between quotation
marks or apostrophes, over several lines between three of either. If it needs one in each of
them, it is written with escapes, over several lines if it holds a line end.

## Main definitions

- `Form`: how a text is written.
- `Form.of`: the form for a text.
- `writeString`: the written text.
-/

namespace ArmStream.Toml

inductive Form where
  | quoted
  | literal
  | quotedLines
  | literalLines
  deriving DecidableEq, Repr, Inhabited

/-- The length of the longest run of `mark`; `current` counts the marks just before. -/
def longestRunOf (mark : Char) (current : Nat) : List Char → Nat
  | [] => current
  | c :: rest =>
    if c = mark then longestRunOf mark (current + 1) rest
    else max current (longestRunOf mark 0 rest)

/-- The text holds a character that no form can show as itself. A line end is none. -/
def hasControl (s : List Char) : Bool :=
  s.any fun c => isControl c && c ≠ '\n'

def Form.of (s : List Char) : Form :=
  let control := hasControl s
  let lines := s.contains '\n'
  if !control && !lines && !s.contains '\\' && !s.contains '"' then .quoted
  else if !control && !lines && !s.contains '\'' then .literal
  else if !control && !s.contains '\\' && longestRunOf '"' 0 s < 3 then .quotedLines
  else if !control && longestRunOf '\'' 0 s < 3 then .literalLines
  else if lines then .quotedLines
  else .quoted

def upperHexDigit (n : Nat) : Char :=
  if n < 10 then Char.ofNat (48 + n) else Char.ofNat (55 + n)

def escaped (c : Char) : List Char :=
  if c.toNat = 8 then ['\\', 'b']
  else if c = '\t' then ['\\', 't']
  else if c = '\n' then ['\\', 'n']
  else if c.toNat = 12 then ['\\', 'f']
  else if c = '\r' then ['\\', 'r']
  else if c = '"' then ['\\', '"']
  else if c = '\\' then ['\\', '\\']
  else if isControl c then
    ['\\', 'u', '0', '0', upperHexDigit (c.toNat / 16), upperHexDigit (c.toNat % 16)]
  else [c]

/-- The text over several lines with escapes. A line end stands for itself, and of quotation
marks in a row each third is escaped; `marks` counts those just before. -/
def escapedLines (marks : Nat) : List Char → List Char
  | [] => []
  | c :: rest =>
    if c = '"' then
      if marks = 2 then '\\' :: '"' :: escapedLines 0 rest
      else '"' :: escapedLines (marks + 1) rest
    else if c = '\n' then '\n' :: escapedLines 0 rest
    else escaped c ++ escapedLines 0 rest

/-- A line end behind an opening over several lines, if the text has one itself: it is dropped
on reading, and then the text starts a line. -/
def leadingLineEnd (s : List Char) : List Char :=
  if s.contains '\n' then ['\n'] else []

def writeChars (s : List Char) : List Char :=
  match Form.of s with
  | .quoted => '"' :: s.flatMap escaped ++ ['"']
  | .literal => '\'' :: s ++ ['\'']
  | .quotedLines => ['"', '"', '"'] ++ leadingLineEnd s ++ escapedLines 0 s ++ ['"', '"', '"']
  | .literalLines => ['\'', '\'', '\''] ++ leadingLineEnd s ++ s ++ ['\'', '\'', '\'']

def writeString (s : String) : String := String.ofList (writeChars s.toList)

end ArmStream.Toml
