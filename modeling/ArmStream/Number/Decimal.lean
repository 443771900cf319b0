import ArmStream.Bytes
import ArmStream.Number.Natural

/-!
# Decimal numerals of floating-point numbers

A numeral is an optional sign and then a name of infinity or of no number at all, or digits with
an optional point and an optional exponent. At least one digit stands before the exponent. The
result is the number nearest to what the numeral spells; of two nearest ones, the even.

## Main definitions

- `Numeral.read?`: the parts of a numeral.
- `readPattern`: the pattern of the nearest floating-point number.
-/

namespace ArmStream.Number

/-- What a numeral spells: a name, or `mantissa` times a power of ten. -/
inductive Numeral where
  | infinity
  | notANumber
  | scaled (mantissa : Nat) (digits : Nat) (exponent : Int)
  deriving DecidableEq, Repr, Inhabited

inductive NumeralError where
  | empty
  | malformed
  deriving DecidableEq, Repr, Inhabited

def NumeralError.message : NumeralError → String
  | .empty => "cannot parse float from empty string"
  | .malformed => "invalid float literal"

/-- Reads digits as long as there are any: the number that they continue, how many were read and
what follows. -/
def takeDigits : List Char → (n count : Nat) → Nat × Nat × List Char
  | c :: rest, n, count =>
    match digit? c with
    | some d => takeDigits rest (10 * n + d) (count + 1)
    | none => (n, count, c :: rest)
  | [], n, count => (n, count, [])

/-- Reads a whole exponent: an optional sign and digits. -/
def readExponent? (s : List Char) : Option Int :=
  let (negative, digits) := match s with
    | '-' :: rest => (true, rest)
    | '+' :: rest => (false, rest)
    | s => (false, s)
  match takeDigits digits 0 0 with
  | (_, 0, _) => none
  | (n, _, []) => some (if negative then -(n : Int) else n)
  | _ => none

def Numeral.read? (s : List Char) : Option Numeral :=
  let folded := s.map Char.toLower
  if folded = ['i', 'n', 'f'] ∨ folded = ['i', 'n', 'f', 'i', 'n', 'i', 't', 'y'] then
    some .infinity
  else if folded = ['n', 'a', 'n'] then some .notANumber
  else
    let (whole, wholeDigits, rest) := takeDigits s 0 0
    let (n, digits, rest) := match rest with
      | '.' :: rest => takeDigits rest whole wholeDigits
      | rest => (whole, wholeDigits, rest)
    let fraction : Int := (digits : Int) - wholeDigits
    if digits = 0 then none
    else
      match rest with
      | [] => some (.scaled n digits (-fraction))
      | c :: rest =>
        if c = 'e' ∨ c = 'E' then
          (readExponent? rest).map fun e => .scaled n digits (e - fraction)
        else none

def infinityPattern : Pattern := 0x7ff0000000000000

/-- The pattern of the quiet NaN without payload. -/
def nanPattern : Pattern := 0x7ff8000000000000

def signBit : Pattern := 0x8000000000000000

/-- The pattern of the floating-point number nearest to `mantissa` times ten to the `exponent`.
A value of at least ten to the 310th is infinite and one below ten to the -330th is zero,
whatever its digits are. -/
def nearestPattern (mantissa digits : Nat) (exponent : Int) : Pattern :=
  if mantissa = 0 then 0
  else if (310 : Int) ≤ exponent then infinityPattern
  else if exponent + digits < (-330 : Int) then 0
  else (Float.ofScientific mantissa (decide (exponent < 0)) exponent.natAbs).toBits

def Numeral.pattern : Numeral → Pattern
  | .infinity => infinityPattern
  | .notANumber => nanPattern
  | .scaled mantissa digits exponent => nearestPattern mantissa digits exponent

/-- Reads a numeral with an optional sign. -/
def readPattern (s : List Char) : Except NumeralError Pattern :=
  let unsigned (negative : Bool) (s : List Char) : Except NumeralError Pattern :=
    match Numeral.read? s with
    | none => .error .malformed
    | some n => .ok (if negative then n.pattern ||| signBit else n.pattern)
  match s with
  | [] => .error .empty
  | '-' :: rest => unsigned true rest
  | '+' :: rest => unsigned false rest
  | s => unsigned false s

end ArmStream.Number
