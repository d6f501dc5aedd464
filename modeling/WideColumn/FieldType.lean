import WideColumn.Bytes

/-!
# `WideColumn.FieldType`: the types of field values

A field's type decides how its values are written as literals, which bytes are
values at all, and how a value is stored inside a cell name. There, signed
integers have their sign bit flipped: the byte order of the flipped form is the
numeric order. Flipping twice gives the value back.
-/

set_option autoImplicit false

namespace WideColumn

/-- The type of a field's values. -/
inductive FieldType where
  | ascii
  | utf8
  /-- Any bytes, written as hexadecimal literals. -/
  | bytes
  | int32
  | bigInt
  | boolean
  /-- A 64-bit counter, read as the total of its context. -/
  | counter
  deriving DecidableEq

namespace FieldType

/-- The name of the type in result descriptions. -/
def shortName : FieldType → String
  | .ascii => "AsciiType"
  | .utf8 => "UTF8Type"
  | .bytes => "BytesType"
  | .int32 => "Int32Type"
  | .bigInt => "LongType"
  | .boolean => "BooleanType"
  | .counter => "CounterColumnType"

/-- The counter type, whose stored values are contexts. -/
def isCounter : FieldType → Bool
  | .counter => true
  | _ => false

/-- The types of signed integers. -/
def isSigned : FieldType → Bool
  | .int32 | .bigInt | .counter => true
  | _ => false

/-- The bytes with the highest bit of the first one flipped. -/
def flipSign : Bytes → Bytes
  | [] => []
  | b :: rest => (b ^^^ 0x80) :: rest

/-- The form of a value inside a cell name, whose byte order is the order of the
values. -/
def toComparable (type : FieldType) (value : Bytes) : Bytes :=
  if type.isSigned then flipSign value else value

/-- The value of a form found inside a cell name. -/
def ofComparable (type : FieldType) (stored : Bytes) : Bytes :=
  if type.isSigned then flipSign stored else stored

/-- Flipping the sign bit twice changes nothing. -/
theorem flipSign_flipSign (value : Bytes) : flipSign (flipSign value) = value := by
  cases value with
  | nil => rfl
  | cons b rest =>
    show (b ^^^ 0x80 ^^^ 0x80) :: rest = b :: rest
    rw [UInt8.xor_assoc, UInt8.xor_self, UInt8.xor_zero]

/-- A value is read back from its form inside cell names. -/
theorem ofComparable_toComparable (type : FieldType) (value : Bytes) :
    type.ofComparable (type.toComparable value) = value := by
  unfold ofComparable toComparable
  split
  · exact flipSign_flipSign value
  · rfl

/-- What has been read from a name is stored as it was there: both directions flip the same bit.
-/
theorem toComparable_ofComparable (type : FieldType) (stored : Bytes) :
    type.toComparable (type.ofComparable stored) = stored :=
  ofComparable_toComparable type stored

end FieldType

end WideColumn
