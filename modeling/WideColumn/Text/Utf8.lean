import WideColumn.Bytes
import WideColumn.Text.Decimal

/-!
# `WideColumn.Text.Utf8`: UTF-8

`encode` gives the bytes of a text and `decode` reads them back. Overlong forms,
surrogates and numbers past the last character are refused at the second byte of
the sequence, because the range of that byte depends on the first one. A fault
tells where the sequence starts that cannot be read; `invalid` also tells how
many of its bytes could have started a character, which is at least one.
-/

set_option autoImplicit false

namespace WideColumn.Text.Utf8

/-- The bytes of a text. -/
def encode (text : List Char) : Bytes :=
  text.flatMap String.utf8EncodeChar

/-- The bytes of a string. -/
def ofString (text : String) : Bytes :=
  encode text.toList

/-- Why bytes are no text. -/
inductive Fault where
  /-- The bytes end inside a sequence that is valid so far. -/
  | incomplete (index : Nat)
  /-- The `length` bytes at `index` start no character. -/
  | invalid (length index : Nat)
  deriving DecidableEq

/-- What the fault is told as. -/
def Fault.message : Fault → String
  | .incomplete index =>
    "incomplete utf-8 byte sequence from index " ++ Decimal.ofNat index
  | .invalid length index =>
    "invalid utf-8 sequence of " ++ Decimal.ofNat length ++ " bytes from index " ++
      Decimal.ofNat index

/-- A character whose first bytes have been read. -/
structure Pending where
  /-- The index of its first byte. -/
  start : Nat
  /-- How many of its bytes have been read. -/
  seen : Nat
  /-- How many more follow the next one. -/
  owed : Nat
  /-- The least value of the next byte. -/
  low : UInt8
  /-- The greatest value of the next byte. -/
  high : UInt8
  /-- The bits read so far. -/
  code : Nat

/-- What a byte that is no ASCII character can begin: the range of the second
byte keeps out the overlong forms, the surrogates and what lies past U+10FFFF. -/
def begin? (index : Nat) (b : UInt8) : Option Pending :=
  if b < 0xC2 then none
  else if b < 0xE0 then some ⟨index, 1, 0, 0x80, 0xBF, b.toNat - 0xC0⟩
  else if b = 0xE0 then some ⟨index, 1, 1, 0xA0, 0xBF, 0⟩
  else if b = 0xED then some ⟨index, 1, 1, 0x80, 0x9F, 13⟩
  else if b < 0xF0 then some ⟨index, 1, 1, 0x80, 0xBF, b.toNat - 0xE0⟩
  else if b = 0xF0 then some ⟨index, 1, 2, 0x90, 0xBF, 0⟩
  else if b < 0xF4 then some ⟨index, 1, 2, 0x80, 0xBF, b.toNat - 0xF0⟩
  else if b = 0xF4 then some ⟨index, 1, 2, 0x80, 0x8F, 4⟩
  else none

/-- Reads the bytes from `index` on, in the middle of a character or between
two. -/
def scan (index : Nat) : Option Pending → Bytes → Except Fault (List Char)
  | none, [] => .ok []
  | some p, [] => .error (.incomplete p.start)
  | none, b :: rest =>
    if b < 0x80 then (Char.ofNat b.toNat :: ·) <$> scan (index + 1) none rest
    else
      match begin? index b with
      | none => .error (.invalid 1 index)
      | some p => scan (index + 1) (some p) rest
  | some p, b :: rest =>
    if p.low ≤ b ∧ b ≤ p.high then
      let code := p.code * 64 + (b.toNat - 0x80)
      match p.owed with
      | 0 => (Char.ofNat code :: ·) <$> scan (index + 1) none rest
      | owed + 1 =>
        scan (index + 1) (some ⟨p.start, p.seen + 1, owed, 0x80, 0xBF, code⟩) rest
    else .error (.invalid p.seen p.start)

/-- The text the bytes encode, or the first fault. -/
def decode (bytes : Bytes) : Except Fault (List Char) :=
  scan 0 none bytes

end WideColumn.Text.Utf8
