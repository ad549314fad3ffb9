/-!
# Blank characters

Two classes of blanks are in use. The wide class decides whether a line or an
item of a list holds anything at all; the narrow class, which leaves out the four
ASCII information separators, is what may surround a number.
-/

namespace FlatIL.Text

/-- Unicode white space: what may stand on either side of a number. -/
def isSpace (c : Char) : Bool :=
  let code := c.toNat
  (9 ≤ code && code ≤ 13) || code == 0x20 || code == 0x85 || code == 0xA0 || code == 0x1680
    || (0x2000 ≤ code && code ≤ 0x200A) || code == 0x2028 || code == 0x2029 || code == 0x202F
    || code == 0x205F || code == 0x3000

/-- White space or one of the four ASCII information separators. -/
def isBlank (c : Char) : Bool :=
  isSpace c || (0x1C ≤ c.toNat && c.toNat ≤ 0x1F)

/-- The characters without the white space at either end. -/
def trimSpace (cs : List Char) : List Char :=
  ((cs.dropWhile isSpace).reverse.dropWhile isSpace).reverse

end FlatIL.Text
