import WideColumn.FieldType
import WideColumn.Text.Ascii
import WideColumn.Text.Hex
import WideColumn.Text.Integer
import WideColumn.Text.Utf8

/-!
# `WideColumn.FieldType.Value`: literals and bound values

A field's value reaches a statement in one of two ways. A literal is text, and
`parse` gives its bytes; a bound value is bytes already, and `check` tells
whether they are a value of the type. Both end in the same bytes: what `parse`
gives is always accepted by `check`.
-/

set_option autoImplicit false

namespace WideColumn.FieldType

/-- Why a literal or bound value is no value of a type. -/
inductive Fault where
  /-- A literal has a character outside ASCII. -/
  | textNotAscii (text : String)
  /-- A literal is not made of pairs of hexadecimal digits. -/
  | notHex (text : String)
  /-- A literal is no integer of the type's width. -/
  | notInteger (text : String) (cause : Text.Integer.Fault)
  /-- A literal is neither `true` nor `false`. -/
  | notBoolean (text : String)
  /-- A bound value has a byte outside ASCII. -/
  | bytesNotAscii
  /-- A bound value is no UTF-8. -/
  | bytesNotUtf8 (cause : Text.Utf8.Fault)
  /-- A bound value of `length` bytes is no 32-bit integer. -/
  | int32Width (length : Nat)
  /-- A bound value of `length` bytes is no 64-bit integer. -/
  | int64Width (length : Nat)
  /-- A bound value of `length` bytes is no boolean. -/
  | booleanWidth (length : Nat)
  deriving DecidableEq

/-- What the fault is told as. -/
def Fault.message : Fault → String
  | .textNotAscii text => "'" ++ text ++ "' is not valid ascii"
  | .notHex text => "'" ++ text ++ "' is not a hex string"
  | .notInteger text cause => "'" ++ text ++ "': " ++ cause.message
  | .notBoolean text => "'" ++ text ++ "' is not a boolean"
  | .bytesNotAscii => "value is not ascii"
  | .bytesNotUtf8 cause => cause.message
  | .int32Width length => "expected 4 bytes for an int, got " ++ Text.Decimal.ofNat length
  | .int64Width length => "expected 8 bytes for a long, got " ++ Text.Decimal.ofNat length
  | .booleanWidth length =>
    "expected at most 1 byte for a boolean, got " ++ Text.Decimal.ofNat length

/-- The digits of a hexadecimal literal, which may be marked by `0x` or `0X`. -/
def hexDigits : List Char → List Char
  | '0' :: 'x' :: digits => digits
  | '0' :: 'X' :: digits => digits
  | digits => digits

/-- The bytes of an integer literal of `width` bytes. -/
def parseInteger (width : Nat) (text : String) : Except Fault Bytes :=
  match Text.Integer.read (8 * width) text.toList with
  | .ok v => .ok (Bytes.ofInt width v)
  | .error cause => .error (.notInteger text cause)

/-- The bytes of a boolean literal, in any letter case. -/
def parseBoolean (text : String) : Except Fault Bytes :=
  let letters := text.toList.map Text.Ascii.lower
  if letters = "true".toList then .ok [1]
  else if letters = "false".toList then .ok [0]
  else .error (.notBoolean text)

/-- The bytes of a literal. -/
def parse (type : FieldType) (text : String) : Except Fault Bytes :=
  match type with
  | .ascii =>
    if text.toList.all Text.Ascii.isAscii then .ok (Text.Utf8.ofString text)
    else .error (.textNotAscii text)
  | .utf8 => .ok (Text.Utf8.ofString text)
  | .bytes =>
    match Text.Hex.decode (Text.Utf8.encode (hexDigits text.toList)) with
    | some value => .ok value
    | none => .error (.notHex text)
  | .int32 => parseInteger 4 text
  | .bigInt | .counter => parseInteger 8 text
  | .boolean => parseBoolean text

/-- Whether bytes are a value of the type. No bytes at all stand for a missing
number or truth value and are accepted. -/
def check (type : FieldType) (value : Bytes) : Except Fault Unit :=
  match type with
  | .bytes => .ok ()
  | .ascii => if value.all (· < 0x80) then .ok () else .error .bytesNotAscii
  | .utf8 =>
    match Text.Utf8.decode value with
    | .ok _ => .ok ()
    | .error cause => .error (.bytesNotUtf8 cause)
  | .int32 =>
    if value.length = 4 ∨ value = [] then .ok () else .error (.int32Width value.length)
  | .bigInt | .counter =>
    if value.length = 8 ∨ value = [] then .ok () else .error (.int64Width value.length)
  | .boolean =>
    if value.length ≤ 1 then .ok () else .error (.booleanWidth value.length)

end WideColumn.FieldType
