/-!
# `WideColumn.Text.Decimal`: decimal numbers

`digits` writes a natural number in decimal without leading zeros, and `value`
reads a run of digits, leading zeros included. `ofNat` and `ofInt` are the texts
that messages and documents carry.
-/

set_option autoImplicit false

namespace WideColumn.Text.Decimal

/-- An ASCII digit. -/
def isDigit (c : Char) : Bool :=
  '0' ≤ c && c ≤ '9'

/-- The number an ASCII digit stands for. -/
def digitValue (c : Char) : Nat :=
  c.toNat - 48

/-- The digit that stands for a number below ten. -/
def digit (n : Nat) : Char :=
  Char.ofNat (48 + n % 10)

/-- A number in decimal, most significant digit first. -/
def digits (n : Nat) : List Char :=
  if n < 10 then [digit n] else digits (n / 10) ++ [digit n]
termination_by n

/-- The number a run of digits spells. -/
def value (ds : List Char) : Nat :=
  ds.foldl (fun n c => n * 10 + digitValue c) 0

/-- The decimal text of a natural number. -/
def ofNat (n : Nat) : String :=
  String.ofList (digits n)

/-- The decimal text of an integer: a minus sign in front of a negative one. -/
def ofInt : Int → String
  | .ofNat n => ofNat n
  | .negSucc n => String.ofList ('-' :: digits (n + 1))

end WideColumn.Text.Decimal
