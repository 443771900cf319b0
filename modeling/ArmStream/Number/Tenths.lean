import ArmStream.Bytes

/-!
# Numbers with one decimal place

The exact value of a floating-point number is rounded to tenths; a value halfway between two
tenths goes to the even one.
-/

namespace ArmStream.Number

/-- The quotient of two natural numbers, rounded to the nearest; a half goes to the even
neighbour. -/
def roundDiv (num den : Nat) : Nat :=
  let q := num / den
  let r := num % den
  if 2 * r < den then q
  else if den < 2 * r then q + 1
  else if q % 2 = 0 then q else q + 1

/-- The value of a finite pattern without sign as a quotient of natural numbers. -/
def magnitude (p : Pattern) : Nat × Nat :=
  let fraction := p.toNat % 0x10000000000000
  let exponent := p.toNat / 0x10000000000000 % 0x800
  if exponent = 0 then (fraction, 1 <<< 1074)
  else if exponent < 1075 then (fraction + 0x10000000000000, 1 <<< (1075 - exponent))
  else ((fraction + 0x10000000000000) <<< (exponent - 1075), 1)

/-- A finite value that is not negative, with one place behind the point. -/
def tenths (p : Pattern) : String :=
  let (num, den) := magnitude p
  let t := roundDiv (10 * num) den
  toString (t / 10) ++ "." ++ toString (t % 10)

end ArmStream.Number
