/-!
# Decimal numerals of natural numbers

The accepted numerals are an optional plus sign and at least one ASCII digit. Leading zeros are
allowed.
-/

namespace ArmStream.Number

def digit? (c : Char) : Option Nat :=
  if '0' ≤ c ∧ c ≤ '9' then some (c.toNat - 48) else none

/-- The number that `digits` spell behind a number `n` spelled before; `none` if one of them is
no digit. -/
def digitsValue? : (digits : List Char) → (n : Nat) → Option Nat
  | [], n => some n
  | c :: rest, n =>
    match digit? c with
    | some d => digitsValue? rest (10 * n + d)
    | none => none

def withoutPlus : List Char → List Char
  | '+' :: rest => rest
  | s => s

def readBelow? (bound : Nat) (s : List Char) : Option Nat :=
  match withoutPlus s with
  | [] => none
  | digits =>
    match digitsValue? digits 0 with
    | some n => if n < bound then some n else none
    | none => none

end ArmStream.Number
