import Mathlib.Algebra.Order.Ring.Int
import Mathlib.Data.List.Induction
import WideColumn.Proofs.ByteOrder

/-!
# `WideColumn.Proofs.TwosComplement`: signed numbers and their bytes

A number of a width is written as its two's complement, most significant byte first. The
theorems:

* `toNat_ofNat` / `ofNat_toNat`: digits and the number they spell.
* `le_two_mul_toInt` / `two_mul_toInt_lt`: the signed numbers of a width, from minus one half
  to one half of what there are of them; `two_mul_two_pow` says the half as a power of two.
* `toInt_ofInt` / `ofInt_toInt`: each of them is read back from its bytes, and all bytes of the
  width are those of one.
* `toInt64_ofInt64` / `ofInt64_toInt64`: the same of 64-bit words.
-/

set_option autoImplicit false

namespace WideColumn.Bytes

/-- The last byte is the lowest digit. -/
theorem toNat_concat (front : Bytes) (last : UInt8) :
    toNat (front ++ [last]) = toNat front * 256 + last.toNat := by
  rw [toNat, List.foldl_append]
  rfl

/-- The digits that a width has no room for are lost. -/
theorem toNat_ofNat (width n : Nat) : toNat (ofNat width n) = n % card width := by
  induction width generalizing n with
  | zero => rw [card, Nat.pow_eq, Nat.pow_zero, Nat.mod_one]; rfl
  | succ width ih =>
      rw [ofNat, toNat_concat, ih, card_succ, Nat.mod_mul, UInt8.toNat_ofNat']
      omega

/-- Bytes are the bytes of the number they tell. -/
theorem ofNat_toNat (bytes : Bytes) : ofNat bytes.length (toNat bytes) = bytes := by
  induction bytes using List.reverseRecOn with
  | nil => rfl
  | append_singleton front last ih =>
      have hlast : last.toNat < 256 := last.toNat_lt
      have hfront : (toNat front * 256 + last.toNat) / 256 = toNat front := by omega
      have hbyte : UInt8.ofNat (toNat front * 256 + last.toNat) = last := by
        rw [← UInt8.toNat_inj, UInt8.toNat_ofNat']
        omega
      rw [List.length_append, List.length_singleton, toNat_concat, ofNat, hfront, ih, hbyte]

/-! ### Signed numbers -/

/-- A signed number is not below the range of its width. -/
theorem le_two_mul_toInt (bytes : Bytes) : -(card bytes.length : Int) ≤ 2 * toInt bytes := by
  unfold toInt
  split <;> omega

/-- And it is below the upper end of that range. -/
theorem two_mul_toInt_lt (bytes : Bytes) : 2 * toInt bytes < card bytes.length := by
  have hlt := toNat_lt_card bytes
  unfold toInt
  split <;> omega

/-- Half of the byte strings of a width, in bits. -/
theorem two_mul_two_pow {width : Nat} (h : 0 < width) :
    (2 : Int) * 2 ^ (8 * width - 1) = card width := by
  have hbits : 8 * width = 8 * width - 1 + 1 := by omega
  have hcard : card width = 2 ^ (8 * width) := by
    rw [Nat.pow_mul]
    rfl
  rw [hcard, hbits, Nat.pow_succ', Nat.add_sub_cancel, Int.natCast_mul, Int.natCast_pow]
  rfl

/-- What a number is, modulo how many there are of its width. -/
theorem toInt_emod (bytes : Bytes) : toInt bytes % card bytes.length = toNat bytes := by
  have hlt : (toNat bytes : Int) < card bytes.length := Int.ofNat_lt.mpr (toNat_lt_card bytes)
  unfold toInt
  split
  · exact Int.emod_eq_of_lt (Int.natCast_nonneg _) hlt
  · rw [Int.sub_emod_right, Int.emod_eq_of_lt (Int.natCast_nonneg _) hlt]

/-- All bytes are those of the number they spell. -/
theorem ofInt_toInt (bytes : Bytes) : ofInt bytes.length (toInt bytes) = bytes := by
  rw [ofInt, toInt_emod, Int.toNat_natCast, ofNat_toNat]

/-- A number that there is room for is read back from its bytes. -/
theorem toInt_ofInt {width : Nat} {v : Int} (hlow : -(card width : Int) ≤ 2 * v)
    (hhigh : 2 * v < card width) : toInt (ofInt width v) = v := by
  have hcard : (0 : Int) < card width := by omega
  have hrest := Int.emod_nonneg v (Int.ne_of_gt hcard)
  have hbound := Int.emod_lt_of_pos v hcard
  have hdigits : (toNat (ofInt width v) : Int) = v % card width := by
    rw [ofInt, toNat_ofNat, Nat.mod_eq_of_lt (by omega)]
    omega
  -- A negative number is moved up by all that there are.
  have hcases : v % card width = v ∨ v % card width = v + card width := by
    rcases Int.lt_or_le v 0 with hneg | hpos
    · right
      rw [← Int.add_emod_right]
      exact Int.emod_eq_of_lt (by omega) (by omega)
    · left
      exact Int.emod_eq_of_lt hpos (by omega)
  rw [toInt, length_ofInt]
  split <;> omega

/-! ### Words -/

/-- Eight bytes tell as many numbers as 64 bits. -/
theorem card_eight : card 8 = 2 ^ 64 := by
  decide

/-- The bytes of a 64-bit number tell the number. -/
theorem toInt_ofInt64 (v : Int64) : toInt (ofInt64 v) = v.toInt := by
  have hlow := v.le_toInt
  have hhigh := v.toInt_lt
  have hcard := card_eight
  rw [ofInt64, toInt_ofInt (by omega) (by omega)]

/-- And they are read back as it. -/
theorem toInt64_ofInt64 (v : Int64) : toInt64 (ofInt64 v) = v := by
  rw [toInt64, toInt_ofInt64, Int64.ofInt_toInt]

/-- Eight bytes are read and written back unchanged. -/
theorem ofInt64_toInt64 {bytes : Bytes} (h : bytes.length = 8) :
    ofInt64 (toInt64 bytes) = bytes := by
  have hlow := le_two_mul_toInt bytes
  have hhigh := two_mul_toInt_lt bytes
  rw [h, card_eight] at hlow hhigh
  rw [ofInt64, toInt64, Int64.toInt_ofInt_of_le (by omega) (by omega), ← h, ofInt_toInt]

end WideColumn.Bytes
