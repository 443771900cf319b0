import ArmStream.Text.Unprintable

/-!
# Quoted text

Text that a message to the user repeats stands between quotation marks. A quotation mark, a
backslash and the common line controls are written with a backslash, any other character without
a visible form by its code point.
-/

namespace ArmStream.Text

def lowerHexDigit (n : Nat) : Char :=
  if n < 10 then Char.ofNat (48 + n) else Char.ofNat (87 + n)

/-- The hexadecimal digits of a number without leading zeros, in front of `rest`; `width` bounds
their number. -/
def hexDigits : (width n : Nat) → (rest : List Char) → List Char
  | 0, _, rest => rest
  | width + 1, n, rest =>
    let rest := lowerHexDigit (n % 16) :: rest
    if n < 16 then rest else hexDigits width (n / 16) rest

def escapeChar (c : Char) : List Char :=
  if c = '"' then ['\\', '"']
  else if c = '\\' then ['\\', '\\']
  else if c = '\t' then ['\\', 't']
  else if c = '\r' then ['\\', 'r']
  else if c = '\n' then ['\\', 'n']
  else if c.toNat = 0 then ['\\', '0']
  else if 0x20 ≤ c.toNat && c.toNat < 0x7f then [c]
  else if isUnprintable c then
    ['\\', 'u', Char.ofNat 0x7b] ++ hexDigits 6 c.toNat [Char.ofNat 0x7d]
  else [c]

def quote (s : String) : String :=
  String.ofList ('"' :: s.toList.flatMap escapeChar ++ ['"'])

end ArmStream.Text
