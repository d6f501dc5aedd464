/-!
# `WideColumn.Text.Ascii`: the ASCII range

Letter case here means the twenty-six letters of the Latin alphabet; every
other character is left as it is.
-/

set_option autoImplicit false

namespace WideColumn.Text.Ascii

/-- A character of the ASCII range. -/
def isAscii (c : Char) : Bool :=
  c.toNat < 128

/-- The lower-case form of an ASCII letter, any other character unchanged. -/
def lower (c : Char) : Char :=
  if 'A' ≤ c ∧ c ≤ 'Z' then Char.ofNat (c.toNat + 32) else c

end WideColumn.Text.Ascii
