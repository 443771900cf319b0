import ArmStream.Address.Ip

/-!
# String literals of TOML

A string stands between quotation marks, where a backslash starts an escape, or between
apostrophes, where it does not. Three of either open a string over several lines. A line end
right after the opening is dropped, and so are a backslash at the end of a line, the line end and
the blanks that follow it.

## Main definitions

- `readString?`: reads any of the four forms.
-/

namespace ArmStream.Toml

def isSpace (c : Char) : Bool := c = ' ' || c = '\t'

/-- The character may not stand in a text as itself. -/
def isControl (c : Char) : Bool :=
  (c.toNat < 0x20 && c ≠ '\t') || c.toNat = 0x7f

/-- Where the reader of a string with escapes stands. -/
inductive Mode where
  /-- Between characters. -/
  | plain
  /-- Behind a backslash. -/
  | escape
  /-- Inside the digits of a code point: how many are missing, and the value of those read. -/
  | code (left value : Nat)
  /-- In the gap that a backslash at the end of a line opens; `ended` once the line end came. -/
  | gap (ended : Bool)
  deriving DecidableEq, Repr, Inhabited

/-- What a reader makes of one character. -/
inductive Move where
  | refuse
  | go (mode : Mode)
  | emit (c : Char)
  deriving DecidableEq, Repr, Inhabited

def charOf? (n : Nat) : Option Char :=
  if n.isValidChar then some (Char.ofNat n) else none

/-- The move behind a backslash. Only a string over several lines has gaps. -/
def escapeMove (multi : Bool) (c : Char) (next : Option Char) : Move :=
  if c = 'b' then .emit (Char.ofNat 8)
  else if c = 't' then .emit '\t'
  else if c = 'n' then .emit '\n'
  else if c = 'f' then .emit (Char.ofNat 12)
  else if c = 'r' then .emit '\r'
  else if c = 'e' then .emit (Char.ofNat 27)
  else if c = '"' then .emit '"'
  else if c = '\\' then .emit '\\'
  else if c = 'x' then .go (.code 2 0)
  else if c = 'u' then .go (.code 4 0)
  else if c = 'U' then .go (.code 8 0)
  else if multi && isSpace c then .go (.gap false)
  else if multi && c = '\n' then .go (.gap true)
  else if multi && c = '\r' && next = some '\n' then .go (.gap false)
  else .refuse

def codeMove (left value : Nat) (c : Char) : Move :=
  match Ip.hexDigit? c with
  | none => .refuse
  | some d =>
    let value := 16 * value + d
    if left ≤ 1 then
      match charOf? value with
      | some c => .emit c
      | none => .refuse
    else .go (.code (left - 1) value)

/-- A gap that saw its line end is over at the first character that is no blank. -/
def Mode.enter (mode : Mode) (c : Char) : Mode :=
  match mode with
  | .gap true => if isSpace c || c = '\n' || c = '\r' then .gap true else .plain
  | mode => mode

def gapMove (ended : Bool) (c : Char) (next : Option Char) : Move :=
  if isSpace c then .go (.gap ended)
  else if c = '\n' then .go (.gap true)
  else if c = '\r' && next = some '\n' then .go (.gap ended)
  else .refuse

def plainMove (multi : Bool) (c : Char) (next : Option Char) : Move :=
  if c = '\\' then .go .escape
  else if multi && c = '\n' then .emit c
  else if multi && c = '\r' && next = some '\n' then .emit c
  else if isControl c then .refuse
  else .emit c

/-- What follows the end of a string over several lines, if it ends here: three marks close it,
and up to two marks before them belong to it. -/
def closing? (mark : Char) (s : List Char) : Option (List Char × List Char) :=
  let run := (s.take 5).takeWhile (· = mark)
  if 3 ≤ run.length then some (run.drop 3, s.drop run.length) else none

def end? (multi : Bool) (mark : Char) (s : List Char) : Option (List Char × List Char) :=
  if multi then closing? mark s
  else
    match s with
    | c :: rest => if c = mark then some ([], rest) else none
    | [] => none

/-- Reads a string with escapes up to its end: its characters and what follows. -/
def readEscaped? (multi : Bool) (mode : Mode) :
    List Char → Option (List Char × List Char)
  | [] => none
  | c :: rest =>
    let mode := mode.enter c
    match if mode = .plain then end? multi '"' (c :: rest) else none with
    | some found => some found
    | none =>
      let move := match mode with
        | .plain => plainMove multi c rest.head?
        | .escape => escapeMove multi c rest.head?
        | .code left value => codeMove left value c
        | .gap ended => gapMove ended c rest.head?
      match move with
      | .refuse => none
      | .go mode => readEscaped? multi mode rest
      | .emit c => (readEscaped? multi .plain rest).map fun (text, rest) => (c :: text, rest)

def readRaw? (multi : Bool) : List Char → Option (List Char × List Char)
  | [] => none
  | c :: rest =>
    match end? multi '\'' (c :: rest) with
    | some found => some found
    | none =>
      if (multi && (c = '\n' || (c = '\r' && rest.head? = some '\n'))) || !isControl c then
        (readRaw? multi rest).map fun (text, rest) => (c :: text, rest)
      else none

def dropLineEnd : List Char → List Char
  | '\n' :: rest => rest
  | '\r' :: '\n' :: rest => rest
  | s => s

def readString? (s : List Char) : Option (List Char × List Char) :=
  match s with
  | '"' :: '"' :: '"' :: rest => readEscaped? true .plain (dropLineEnd rest)
  | '"' :: rest => readEscaped? false .plain rest
  | '\'' :: '\'' :: '\'' :: rest => readRaw? true (dropLineEnd rest)
  | '\'' :: rest => readRaw? false rest
  | _ => none

end ArmStream.Toml
