import WideColumn.Bytes

/-!
# `WideColumn.Text.Hex`: hexadecimal text

Each byte is two digits, high half first. `spell` writes them in lower case;
`read` takes either case and refuses a digit left over at the end, and `decode`
reads a text that is given by its bytes.
-/

set_option autoImplicit false

namespace WideColumn.Text.Hex

/-- The lower-case digit that stands for a number below sixteen. -/
def digit (n : Nat) : Char :=
  if n < 10 then Char.ofNat (48 + n) else Char.ofNat (87 + n)

/-- The number a hexadecimal digit of either case stands for. -/
def digit? (c : Char) : Option Nat :=
  if '0' ≤ c ∧ c ≤ '9' then some (c.toNat - 48)
  else if 'a' ≤ c ∧ c ≤ 'f' then some (c.toNat - 87)
  else if 'A' ≤ c ∧ c ≤ 'F' then some (c.toNat - 55)
  else none

/-- The two digits of each byte. -/
def spell (bytes : Bytes) : List Char :=
  bytes.flatMap fun b => [digit (b.toNat / 16), digit (b.toNat % 16)]

/-- Reads a text of digit pairs. -/
def read : List Char → Option Bytes
  | [] => some []
  | [_] => none
  | high :: low :: rest => do
    let h ← digit? high
    let l ← digit? low
    let bytes ← read rest
    return UInt8.ofNat (h * 16 + l) :: bytes

/-- Reads a text of digit pairs from its bytes. The number of bytes has to be even,
whatever characters they belong to, and each byte is taken for the character of its
own number. -/
def decode (text : Bytes) : Option Bytes :=
  if text.length % 2 ≠ 0 then none
  else read (text.map fun b => Char.ofNat b.toNat)

/-- The lower-case hexadecimal text of a byte string. -/
def ofBytes (bytes : Bytes) : String :=
  String.ofList (spell bytes)

end WideColumn.Text.Hex
