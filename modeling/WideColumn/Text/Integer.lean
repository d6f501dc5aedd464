import WideColumn.Text.Decimal

/-!
# `WideColumn.Text.Integer`: integer literals of a fixed width

A literal is an optional sign and one or more ASCII digits. It is read from left
to right, and the first fault met is the one reported: at each character, first
that it is no digit, then that the number so far has left the range of the
width. So `99999999999x` is too large before it is malformed, and `2147483647x`
is malformed.
-/

set_option autoImplicit false

namespace WideColumn.Text.Integer

/-- Why a text is no integer literal of the width asked for. -/
inductive Fault where
  /-- There is no character at all. -/
  | empty
  /-- A character is no digit, or a sign stands alone. -/
  | invalidDigit
  /-- The number is above the largest of the width. -/
  | tooLarge
  /-- The number is below the smallest of the width. -/
  | tooSmall
  deriving DecidableEq

/-- What the fault is told as. -/
def Fault.message : Fault → String
  | .empty => "cannot parse integer from empty string"
  | .invalidDigit => "invalid digit found in string"
  | .tooLarge => "number too large to fit in target type"
  | .tooSmall => "number too small to fit in target type"

/-- Reads the digits of a magnitude after `n` has been read, `overflow` being
the fault of a magnitude above `limit`. -/
def magnitude (limit : Nat) (overflow : Fault) : Nat → List Char → Except Fault Nat
  | n, [] => .ok n
  | n, c :: cs =>
    if !Decimal.isDigit c then .error .invalidDigit
    else if n * 10 + Decimal.digitValue c > limit then .error overflow
    else magnitude limit overflow (n * 10 + Decimal.digitValue c) cs

/-- A magnitude of at least one digit. -/
def digits (limit : Nat) (overflow : Fault) : List Char → Except Fault Nat
  | [] => .error .invalidDigit
  | cs => magnitude limit overflow 0 cs

/-- The magnitude of the least signed number of `bits` bits, of which there is at
least one. -/
def maxMagnitude (bits : Nat) : Nat :=
  Nat.pow 2 (bits - 1)

/-- Reads a literal of a signed number of `bits` bits: the magnitude of a negative
number may be one more than that of a positive one. -/
def read (bits : Nat) : List Char → Except Fault Int
  | [] => .error .empty
  | '-' :: cs => (digits (maxMagnitude bits) .tooSmall cs).map fun n : Nat => -(n : Int)
  | '+' :: cs => (digits (maxMagnitude bits - 1) .tooLarge cs).map Int.ofNat
  | cs => (digits (maxMagnitude bits - 1) .tooLarge cs).map Int.ofNat

end WideColumn.Text.Integer
