/-!
# `WideColumn.Bytes`: byte strings and big-endian numbers

Keys, cell names and cell values are byte strings. Two of them are compared as
the lists they are: byte by byte, unsigned, a proper start of a string before
the string. Numbers are stored most significant byte first, signed ones in
two's complement; `ofInt` and `toInt` are the two directions.
-/

set_option autoImplicit false

namespace WideColumn

/-- A byte string. -/
abbrev Bytes := List UInt8

namespace Bytes

/-- The `width` low base-256 digits of a number, most significant first. -/
def ofNat : Nat → Nat → Bytes
  | 0, _ => []
  | width + 1, n => ofNat width (n / 256) ++ [UInt8.ofNat n]

/-- The number a byte string spells in base 256, most significant digit first. -/
def toNat (bytes : Bytes) : Nat :=
  bytes.foldl (fun n b => n * 256 + b.toNat) 0

/-- How many byte strings of a width there are. -/
def card (width : Nat) : Nat :=
  Nat.pow 256 width

/-- The two's complement of an integer in `width` bytes. -/
def ofInt (width : Nat) (v : Int) : Bytes :=
  ofNat width (v % (card width : Int)).toNat

/-- The integer whose two's complement the byte string is: the upper half of
the unsigned range stands for the negative numbers. -/
def toInt (bytes : Bytes) : Int :=
  if 2 * toNat bytes < card bytes.length then (toNat bytes : Int)
  else (toNat bytes : Int) - (card bytes.length : Int)

/-- The eight bytes of a 64-bit word. -/
def ofInt64 (v : Int64) : Bytes :=
  ofInt 8 v.toInt

/-- The 64-bit word a byte string spells; only its last eight bytes count. -/
def toInt64 (bytes : Bytes) : Int64 :=
  Int64.ofInt (toInt bytes)

/-- The bytes of a number are as many as asked for, whether the number fits in them or not. -/
theorem length_ofNat (width n : Nat) : (ofNat width n).length = width := by
  induction width generalizing n with
  | zero => rfl
  | succ width ih => simp [ofNat, ih]

/-- A signed number has the width asked for too. -/
theorem length_ofInt (width : Nat) (v : Int) : (ofInt width v).length = width :=
  length_ofNat width _

end Bytes

end WideColumn
