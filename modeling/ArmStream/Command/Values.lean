import ArmStream.Number.Decimal
import ArmStream.Text.Blank
import ArmStream.Text.Quoted
import ArmStream.Text.Split

/-!
# Lists of values on the command line

A list is blank, or numerals between commas with blanks around them. The leftmost piece that is
no numeral is reported.
-/

namespace ArmStream.Command

open Text Number

structure BadValue where
  piece : String
  cause : NumeralError
  deriving DecidableEq, Repr, Inhabited

def BadValue.message (b : BadValue) : String :=
  "invalid value " ++ quote b.piece ++ ": " ++ b.cause.message

def readPieces : List (List Char) → Except BadValue (List Pattern)
  | [] => .ok []
  | piece :: rest =>
    match readPattern (trim piece) with
    | .error cause => .error ⟨String.ofList (trim piece), cause⟩
    | .ok value =>
      match readPieces rest with
      | .error e => .error e
      | .ok values => .ok (value :: values)

def parseValues (text : String) : Except BadValue (List Pattern) :=
  let s := text.toList
  if isAllBlank s then .ok [] else readPieces (pieces ',' s)

end ArmStream.Command
