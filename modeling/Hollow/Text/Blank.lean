/-!
# Blank characters

The characters with the White_Space property of the Unicode character database.
-/

namespace Hollow

/-- Whether a character has the White_Space property. -/
def isBlank (c : Char) : Bool :=
  let n := c.toNat
  (decide (0x09 ≤ n) && decide (n ≤ 0x0D)) || n == 0x20 || n == 0x85 || n == 0xA0 ||
    n == 0x1680 || (decide (0x2000 ≤ n) && decide (n ≤ 0x200A)) || n == 0x2028 || n == 0x2029 ||
    n == 0x202F || n == 0x205F || n == 0x3000

/-- A text of blanks only. -/
def isBlankText (s : String) : Bool := s.toList.all isBlank

end Hollow
