/-!
# `WideColumn.Text.Blank`: blank characters

The blanks are the characters of Unicode's `White_Space` property: five
controls, the space, and nineteen characters outside ASCII. `trim` removes them
at both ends of a text and nowhere else.
-/

set_option autoImplicit false

namespace WideColumn.Text

/-- A character of Unicode's `White_Space` property. -/
def isBlank (c : Char) : Bool :=
  let n := c.toNat
  (9 ≤ n && n ≤ 13) || n == 0x20 || n == 0x85 || n == 0xA0 || n == 0x1680 ||
    (0x2000 ≤ n && n ≤ 0x200A) || n == 0x2028 || n == 0x2029 || n == 0x202F ||
    n == 0x205F || n == 0x3000

/-- The text without the blanks it starts and ends with. -/
def trim (text : List Char) : List Char :=
  ((text.dropWhile isBlank).reverse.dropWhile isBlank).reverse

end WideColumn.Text
