import WideColumn.Composite
import WideColumn.Text.Decimal
import WideColumn.Text.Hex

/-!
# `WideColumn.Composite.Reader`: taking composite names apart

`read` is the inverse of `write`: it gives the components with their markers, and
refuses every byte string that `write` does not produce. A zero byte is followed
by `FF` inside a component and by a marker at its end, so the first byte pair
that is neither decides the fault. `split` leaves the markers out.
-/

set_option autoImplicit false

namespace WideColumn.Composite

/-- Why a byte string is no composite name. -/
inductive Fault where
  /-- The zero byte at `offset` is the last byte. -/
  | truncatedEscape (offset : Nat)
  /-- The byte at `offset` follows a zero byte and is no marker. -/
  | unknownMarker (byte : UInt8) (offset : Nat)
  /-- The component with this number is not closed. -/
  | unterminated (component : Nat)
  deriving DecidableEq

/-- What the fault is told as. -/
def Fault.message : Fault → String
  | .truncatedEscape offset => "truncated escape at offset " ++ Text.Decimal.ofNat offset
  | .unknownMarker byte offset =>
    "unknown end-of-component marker 0x" ++ Text.Hex.ofBytes [byte] ++ " at offset " ++
      Text.Decimal.ofNat offset
  | .unterminated component =>
    "component " ++ Text.Decimal.ofNat component ++ " is missing its terminator"

/-- Reads the bytes from `offset` on, where `closed` components have been closed
and `current` has been read of the next one. -/
def readFrom (offset closed : Nat) (current : Bytes) :
    Bytes → Except Fault (List (Bytes × Marker))
  | [] => if current = [] then .ok [] else .error (.unterminated closed)
  | b :: rest =>
    if b ≠ 0x00 then readFrom (offset + 1) closed (current ++ [b]) rest
    else
      match rest with
      | [] => .error (.truncatedEscape offset)
      | m :: rest =>
        if m = 0xFF then readFrom (offset + 2) closed (current ++ [0x00]) rest
        else
          match Marker.ofByte? m with
          | some marker =>
            ((current, marker) :: ·) <$> readFrom (offset + 2) (closed + 1) [] rest
          | none => .error (.unknownMarker m (offset + 1))

/-- The components of a name with their markers. -/
def read (name : Bytes) : Except Fault (List (Bytes × Marker)) :=
  readFrom 0 0 [] name

/-- The components of a name. -/
def split (name : Bytes) : Except Fault (List Bytes) :=
  (read name).map fun parts => parts.map Prod.fst

end WideColumn.Composite
