import WideColumn.Bytes
import WideColumn.Text.Decimal

/-!
# `WideColumn.Counter`: counter contexts

A counter cell stores a context: a two-byte count of header entries, that many
two-byte entries, and then shards of thirty-two bytes, each a counter id of
sixteen bytes, a clock of eight and a count of eight. Readers only see `total`,
the sum of the counts in 64-bit arithmetic.
-/

set_option autoImplicit false

namespace WideColumn.Counter

/-- Why a byte string is no counter context. -/
inductive Fault where
  /-- There are fewer than two bytes. -/
  | missingHeader
  /-- The header's entries would reach past the `length` bytes there are. -/
  | truncatedHeader (entries length : Nat)
  /-- The last `count` bytes fill no shard. -/
  | trailingBytes (count : Nat)
  deriving DecidableEq

/-- What the fault is told as. -/
def Fault.message : Fault → String
  | .missingHeader => "missing header"
  | .truncatedHeader entries length =>
    "header declares " ++ Text.Decimal.ofNat entries ++ " entries but context has " ++
      Text.Decimal.ofNat length ++ " bytes"
  | .trailingBytes count => Text.Decimal.ofNat count ++ " trailing bytes after shards"

/-- One replica's part of a counter. -/
structure Shard where
  id : Vector UInt8 16
  clock : Int64
  count : Int64

/-- The bytes of a shard. -/
def Shard.toBytes (shard : Shard) : Bytes :=
  shard.id.toList ++ Bytes.ofInt64 shard.clock ++ Bytes.ofInt64 shard.count

/-- The context of shards, with no header entries. -/
def context (shards : List Shard) : Bytes :=
  [0x00, 0x00] ++ shards.flatMap Shard.toBytes

/-- The first `n` pieces of thirty-two bytes. -/
def pieces : Nat → Bytes → List Bytes
  | 0, _ => []
  | n + 1, bytes => bytes.take 32 :: pieces n (bytes.drop 32)

/-- The count in the bytes of a shard. -/
def countOf (shard : Bytes) : Int64 :=
  Bytes.toInt64 (shard.drop 24)

/-- The sum of the counts of a context. -/
def total (context : Bytes) : Except Fault Int64 :=
  match context with
  | high :: low :: rest =>
    let entries := high.toNat * 256 + low.toNat
    let body := rest.drop (2 * entries)
    if rest.length < 2 * entries then .error (.truncatedHeader entries context.length)
    else if body.length % 32 ≠ 0 then .error (.trailingBytes (body.length % 32))
    else .ok (((pieces (body.length / 32) body).map countOf).foldl (· + ·) 0)
  | _ => .error .missingHeader

end WideColumn.Counter
