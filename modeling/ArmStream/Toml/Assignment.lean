import ArmStream.Toml.Literal

/-!
# Assignments of TOML

The documents read here are lists of assignments of strings to simple keys, one to a line, with
blank lines and comments between them. Anything else that the format knows, such as a table or a
number, is refused: no setting can hold it.

## Main definitions

- `readAssignments?`: the keys and values of a document, in order.
-/

namespace ArmStream.Toml

/-- The character may stand in a key without quotation marks. -/
def isBare (c : Char) : Bool :=
  c.isAlphanum || c = '_' || c = '-'

/-- Reads a key: bare, or a string on one line. -/
def readKey? (s : List Char) : Option (List Char × List Char) :=
  match s with
  | '"' :: rest => readEscaped? false .plain rest
  | '\'' :: rest => readRaw? false rest
  | _ =>
    match s.takeWhile isBare with
    | [] => none
    | key => some (key, s.dropWhile isBare)

/-- What follows the end of a line; at the end of the document, nothing. -/
def lineEnd? : List Char → Option (List Char)
  | [] => some []
  | '\n' :: rest => some rest
  | '\r' :: '\n' :: rest => some rest
  | _ => none

def isCommented (c : Char) : Bool := !isControl c

/-- What follows a line of which only blanks and a comment are left. -/
def restOfLine? (s : List Char) : Option (List Char) :=
  match s.dropWhile isSpace with
  | '#' :: rest => lineEnd? (rest.dropWhile isCommented)
  | s => lineEnd? s

/-- Reads one assignment, without the end of its line. -/
def readAssignment? (s : List Char) : Option ((String × String) × List Char) :=
  match readKey? s with
  | none => none
  | some (key, rest) =>
    match rest.dropWhile isSpace with
    | '=' :: rest =>
      match readString? (rest.dropWhile isSpace) with
      | none => none
      | some (value, rest) => some ((String.ofList key, String.ofList value), rest)
    | _ => none

/-- Reads lines. Each takes at least one character, so `fuel` need not exceed the length of the
text by more than one. -/
def readLines? : (fuel : Nat) → List Char → Option (List (String × String))
  | 0, _ => none
  | fuel + 1, s =>
    match s with
    | [] => some []
    | _ =>
      match restOfLine? s with
      | some rest => readLines? fuel rest
      | none =>
        match readAssignment? (s.dropWhile isSpace) with
        | none => none
        | some (entry, rest) =>
          match restOfLine? rest with
          | none => none
          | some rest => (readLines? fuel rest).map (entry :: ·)

/-- The text without the mark that may open a document. -/
def withoutMark : List Char → List Char
  | c :: rest => if c.toNat = 0xfeff then rest else c :: rest
  | [] => []

def readAssignments? (text : String) : Option (List (String × String)) :=
  let s := withoutMark text.toList
  readLines? (s.length + 1) s

end ArmStream.Toml
