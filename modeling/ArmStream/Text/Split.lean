/-!
# Cutting text at separators

## Main definitions

- `cutFirst?`: the text before and after the first occurrence of a separator.
- `cutLast?`: the same for the last occurrence of a character.
- `pieces`: all pieces between occurrences of a character.
-/

namespace ArmStream.Text

def afterStart? : (sep s : List Char) → Option (List Char)
  | [], s => some s
  | _ :: _, [] => none
  | a :: sep, c :: s => if a = c then afterStart? sep s else none

/-- What stands before and after the first occurrence of `sep`. -/
def cutFirst? (sep : List Char) : List Char → Option (List Char × List Char)
  | [] => if sep = [] then some ([], []) else none
  | c :: s =>
    match afterStart? sep (c :: s) with
    | some rest => some ([], rest)
    | none => (cutFirst? sep s).map fun (before, rest) => (c :: before, rest)

def cutLast? (sep : Char) : List Char → Option (List Char × List Char)
  | [] => none
  | c :: s =>
    match cutLast? sep s with
    | some (before, rest) => some (c :: before, rest)
    | none => if c = sep then some ([], s) else none

/-- The pieces between the occurrences of `sep`; one more than there are occurrences. -/
def pieces (sep : Char) : List Char → List (List Char)
  | [] => [[]]
  | c :: s =>
    if c = sep then [] :: pieces sep s
    else
      match pieces sep s with
      | piece :: rest => (c :: piece) :: rest
      | [] => [[c]]

end ArmStream.Text
