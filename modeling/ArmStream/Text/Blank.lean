/-!
# Blank characters

The characters that count as white space, and trimming them from both ends of a text.
-/

namespace ArmStream.Text

/-- The character is white space: a tabulator, a line end, a space of any width or a separator
of lines or paragraphs. -/
def isBlank (c : Char) : Bool :=
  let n := c.toNat
  (0x9 ≤ n && n ≤ 0xd) || n == 0x20 || n == 0x85 || n == 0xa0 || n == 0x1680
    || (0x2000 ≤ n && n ≤ 0x200a) || n == 0x2028 || n == 0x2029 || n == 0x202f
    || n == 0x205f || n == 0x3000

def trim (s : List Char) : List Char :=
  ((s.dropWhile isBlank).reverse.dropWhile isBlank).reverse

def isAllBlank (s : List Char) : Bool := s.all isBlank

end ArmStream.Text
