import Mathlib.Tactic.IntervalCases
import WideColumn.Text.Utf8

/-!
# `WideColumn.Proofs.Text.Utf8`: reading back the bytes of a text

`scan` takes the bytes of a text one by one, and what it owes to a character it keeps
between them. The theorems:

* `begin?_two` / `begin?_three` / `begin?_four`: what the first byte of a longer character
  leaves to be read.
* `encodeChar_one` / `encodeChar_two` / `encodeChar_three` / `encodeChar_four`: the bytes of a
  character, by its number.
* `scan_one` / `scan_two` / `scan_three` / `scan_four`: a character is read from its bytes,
  for each number of them.
* `decode_encode`: a text is read back from its bytes.
* `encode_ascii`: an ASCII text is a byte a character.
-/

set_option autoImplicit false

namespace WideColumn.Text.Utf8

/-- A number that fits in a byte is told by the byte. -/
theorem toNat_ofNat {n : Nat} (h : n < 256) : (UInt8.ofNat n).toNat = n := by
  rw [UInt8.toNat_ofNat', Nat.mod_eq_of_lt h]

/-! ### First bytes -/

/-- A first byte of two has five bits of the character. -/
theorem begin?_two (index : Nat) {n : Nat} (hlow : 2 ≤ n) (hhigh : n < 32) :
    begin? index (UInt8.ofNat (n + 0xC0)) = some ⟨index, 1, 0, 0x80, 0xBF, n⟩ := by
  interval_cases n <;> rfl

/-- A first byte of three has four, and the least and the greatest of these narrow the next
byte. -/
theorem begin?_three (index : Nat) {n : Nat} (hhigh : n < 16) :
    begin? index (UInt8.ofNat (n + 0xE0)) =
      some ⟨index, 1, 1, if n = 0 then 0xA0 else 0x80, if n = 13 then 0x9F else 0xBF, n⟩ := by
  interval_cases n <;> rfl

/-- A first byte of four has three, and narrows the next byte at both ends as well. -/
theorem begin?_four (index : Nat) {n : Nat} (hhigh : n < 5) :
    begin? index (UInt8.ofNat (n + 0xF0)) =
      some ⟨index, 1, 2, if n = 0 then 0x90 else 0x80, if n = 4 then 0x8F else 0xBF, n⟩ := by
  interval_cases n <;> rfl

/-! ### Bytes that continue a character -/

/-- A byte that continues a character carries six bits. -/
theorem toNat_continuation (n : Nat) :
    (UInt8.ofNat (n % 0x40 + 0x80)).toNat - 0x80 = n % 0x40 := by
  rw [toNat_ofNat (by omega)]
  omega

/-- A continuation byte is in a range if its six bits are: the lower end. -/
theorem le_continuation {low : UInt8} {n : Nat} (h : low.toNat ≤ n % 0x40 + 0x80) :
    low ≤ UInt8.ofNat (n % 0x40 + 0x80) := by
  rw [UInt8.le_iff_toNat_le, toNat_ofNat (by omega)]
  exact h

/-- The upper end of the range. -/
theorem continuation_le {high : UInt8} {n : Nat} (h : n % 0x40 + 0x80 ≤ high.toNat) :
    UInt8.ofNat (n % 0x40 + 0x80) ≤ high := by
  rw [UInt8.le_iff_toNat_le, toNat_ofNat (by omega)]
  exact h

/-- The range of the bytes that continue a character, where the first one leaves it
open. -/
theorem mem_continuation {n : Nat} :
    (0x80 : UInt8) ≤ UInt8.ofNat (n % 0x40 + 0x80) ∧ UInt8.ofNat (n % 0x40 + 0x80) ≤ 0xBF := by
  refine ⟨le_continuation (Nat.le_add_left _ _), continuation_le ?_⟩
  show n % 64 + 128 ≤ 191
  omega

section

variable (index : Nat) (rest : Bytes)

/-- A byte above ASCII begins a character where it can. -/
theorem scan_begin {b : UInt8} {p : Pending} (h : begin? index b = some p) :
    scan index none (b :: rest) = scan (index + 1) (some p) rest := by
  have habove : ¬ b < 0x80 := by
    intro hlt
    have hnone : begin? index b = none := by
      rw [begin?, if_pos (Std.lt_trans hlt (by decide))]
    rw [hnone] at h
    cases h
  rw [scan, if_neg habove, h]

variable {index rest} {p : Pending} {b : UInt8}

/-- A continuation byte in its range, with others to come, adds its bits. -/
theorem scan_next {owed : Nat} (howed : p.owed = owed + 1) (hlow : p.low ≤ b)
    (hhigh : b ≤ p.high) :
    scan index (some p) (b :: rest) =
      scan (index + 1)
        (some ⟨p.start, p.seen + 1, owed, 0x80, 0xBF, p.code * 64 + (b.toNat - 0x80)⟩) rest := by
  rw [scan, if_pos ⟨hlow, hhigh⟩]
  simp only [howed]

/-- The last one ends the character. -/
theorem scan_last (howed : p.owed = 0) (hlow : p.low ≤ b) (hhigh : b ≤ p.high) :
    scan index (some p) (b :: rest) =
      (Char.ofNat (p.code * 64 + (b.toNat - 0x80)) :: ·) <$> scan (index + 1) none rest := by
  rw [scan, if_pos ⟨hlow, hhigh⟩]
  simp only [howed]

end

/-! ### Characters -/

section

variable {v : Nat}

/-- A number outside the surrogates is that of a character. -/
theorem toNat_val_ofNat (h : v < 0xD800 ∨ 0xDFFF < v ∧ v < 0x110000) :
    (Char.ofNat v).val.toNat = v := by
  rw [Char.ofNat, dif_pos h]
  rfl

/-- A character up to seven bits is one byte. -/
theorem encodeChar_one (h : v ≤ 0x7f) :
    String.utf8EncodeChar (Char.ofNat v) = [UInt8.ofNat v] := by
  have hv : (Char.ofNat v).val.toNat = v := toNat_val_ofNat (by omega)
  unfold String.utf8EncodeChar
  simp only [hv]
  rw [if_pos h]

/-- A character up to eleven bits is two bytes. -/
theorem encodeChar_two (hlow : 0x7f < v) (hhigh : v ≤ 0x7ff) :
    String.utf8EncodeChar (Char.ofNat v) =
      [UInt8.ofNat (v / 64 % 0x20 + 0xc0), UInt8.ofNat (v % 0x40 + 0x80)] := by
  have hv : (Char.ofNat v).val.toNat = v := toNat_val_ofNat (by omega)
  unfold String.utf8EncodeChar
  simp only [hv]
  rw [if_neg (by omega), if_pos hhigh]

/-- A character up to sixteen bits is three bytes. -/
theorem encodeChar_three (hlow : 0x7ff < v) (hhigh : v ≤ 0xffff)
    (hvalid : v < 0xD800 ∨ 0xDFFF < v) :
    String.utf8EncodeChar (Char.ofNat v) =
      [UInt8.ofNat (v / 4096 % 0x10 + 0xe0), UInt8.ofNat (v / 64 % 0x40 + 0x80),
        UInt8.ofNat (v % 0x40 + 0x80)] := by
  have hv : (Char.ofNat v).val.toNat = v := toNat_val_ofNat (by omega)
  unfold String.utf8EncodeChar
  simp only [hv]
  rw [if_neg (by omega), if_neg (by omega), if_pos hhigh]

/-- Any other character is four bytes. -/
theorem encodeChar_four (hlow : 0xffff < v) (hhigh : v < 0x110000) :
    String.utf8EncodeChar (Char.ofNat v) =
      [UInt8.ofNat (v / 262144 % 0x08 + 0xf0), UInt8.ofNat (v / 4096 % 0x40 + 0x80),
        UInt8.ofNat (v / 64 % 0x40 + 0x80), UInt8.ofNat (v % 0x40 + 0x80)] := by
  have hv : (Char.ofNat v).val.toNat = v := toNat_val_ofNat (by omega)
  unfold String.utf8EncodeChar
  simp only [hv]
  rw [if_neg (by omega), if_neg (by omega), if_neg (by omega)]

variable (index : Nat) (rest : Bytes)

/-- One byte is read back as its character. -/
theorem scan_one (h : v ≤ 0x7f) :
    scan index none (UInt8.ofNat v :: rest) =
      (Char.ofNat v :: ·) <$> scan (index + 1) none rest := by
  have hbyte : (UInt8.ofNat v).toNat = v := toNat_ofNat (by omega)
  have hascii : UInt8.ofNat v < 0x80 := by
    rw [UInt8.lt_iff_toNat_lt, hbyte]
    show v < 128
    omega
  rw [scan, if_pos hascii, hbyte]

/-- Two bytes are read back as theirs. -/
theorem scan_two (hlow : 0x7f < v) (hhigh : v ≤ 0x7ff) :
    scan index none
        (UInt8.ofNat (v / 64 % 0x20 + 0xc0) :: UInt8.ofNat (v % 0x40 + 0x80) :: rest) =
      (Char.ofNat v :: ·) <$> scan (index + 2) none rest := by
  have hcode : v / 64 % 0x20 * 64 + v % 0x40 = v := by omega
  rw [scan_begin index _ (begin?_two index (by omega) (by omega)),
    scan_last rfl mem_continuation.1 mem_continuation.2, toNat_continuation, hcode]

/-- So are three, which never make up a surrogate. -/
theorem scan_three (hlow : 0x7ff < v) (hhigh : v ≤ 0xffff)
    (hvalid : v < 0xD800 ∨ 0xDFFF < v) :
    scan index none
        (UInt8.ofNat (v / 4096 % 0x10 + 0xe0) :: UInt8.ofNat (v / 64 % 0x40 + 0x80) ::
          UInt8.ofNat (v % 0x40 + 0x80) :: rest) =
      (Char.ofNat v :: ·) <$> scan (index + 3) none rest := by
  have hcode : (v / 4096 % 0x10 * 64 + v / 64 % 0x40) * 64 + v % 0x40 = v := by omega
  -- The narrower ranges keep out what is shorter, and the surrogates.
  have hleast : (if v / 4096 % 0x10 = 0 then 0xA0 else 0x80 : UInt8).toNat ≤
      v / 64 % 0x40 + 0x80 := by
    split
    · show 160 ≤ _
      omega
    · show 128 ≤ _
      omega
  have hmost : v / 64 % 0x40 + 0x80 ≤
      (if v / 4096 % 0x10 = 13 then 0x9F else 0xBF : UInt8).toNat := by
    split
    · show _ ≤ 159
      omega
    · show _ ≤ 191
      omega
  rw [scan_begin index _ (begin?_three index (by omega)),
    scan_next rfl (le_continuation hleast) (continuation_le hmost), toNat_continuation,
    scan_last rfl mem_continuation.1 mem_continuation.2, toNat_continuation, hcode]

/-- And so are four. -/
theorem scan_four (hlow : 0xffff < v) (hvalid : v < 0x110000) :
    scan index none
        (UInt8.ofNat (v / 262144 % 0x08 + 0xf0) :: UInt8.ofNat (v / 4096 % 0x40 + 0x80) ::
          UInt8.ofNat (v / 64 % 0x40 + 0x80) :: UInt8.ofNat (v % 0x40 + 0x80) :: rest) =
      (Char.ofNat v :: ·) <$> scan (index + 4) none rest := by
  have hcode : ((v / 262144 % 0x08 * 64 + v / 4096 % 0x40) * 64 + v / 64 % 0x40) * 64 +
      v % 0x40 = v := by omega
  -- The narrower ranges keep out what is shorter, and what is past the last character.
  have hleast : (if v / 262144 % 0x08 = 0 then 0x90 else 0x80 : UInt8).toNat ≤
      v / 4096 % 0x40 + 0x80 := by
    split
    · show 144 ≤ _
      omega
    · show 128 ≤ _
      omega
  have hmost : v / 4096 % 0x40 + 0x80 ≤
      (if v / 262144 % 0x08 = 4 then 0x8F else 0xBF : UInt8).toNat := by
    split
    · show _ ≤ 143
      omega
    · show _ ≤ 191
      omega
  rw [scan_begin index _ (begin?_four index (by omega)),
    scan_next rfl (le_continuation hleast) (continuation_le hmost), toNat_continuation,
    scan_next rfl mem_continuation.1 mem_continuation.2, toNat_continuation,
    scan_last rfl mem_continuation.1 mem_continuation.2, toNat_continuation, hcode]

/-- Whatever its length, a character is read back in front of any bytes. -/
theorem scan_encodeChar (c : Char) :
    ∃ next, scan index none (String.utf8EncodeChar c ++ rest) =
      (c :: ·) <$> scan next none rest := by
  have hvalid : c.val.toNat < 0xD800 ∨ 0xDFFF < c.val.toNat ∧ c.val.toNat < 0x110000 := c.valid
  have hchar : Char.ofNat c.val.toNat = c := Char.ofNat_toNat c
  generalize c.val.toNat = v at hvalid hchar
  subst hchar
  by_cases hone : v ≤ 0x7f
  · rw [encodeChar_one hone]
    exact ⟨_, scan_one index rest hone⟩
  by_cases htwo : v ≤ 0x7ff
  · rw [encodeChar_two (by omega) htwo]
    exact ⟨_, scan_two index rest (by omega) htwo⟩
  by_cases hthree : v ≤ 0xffff
  · rw [encodeChar_three (by omega) hthree (by omega)]
    exact ⟨_, scan_three index rest (by omega) hthree (by omega)⟩
  · rw [encodeChar_four (by omega) (by omega)]
    exact ⟨_, scan_four index rest (by omega) (by omega)⟩

end

/-! ### Texts -/

/-- So text is read back from its bytes, character by character. -/
theorem scan_encode (index : Nat) (text : List Char) :
    scan index none (encode text) = .ok text := by
  induction text generalizing index with
  | nil => rfl
  | cons c text ih =>
      obtain ⟨next, hscan⟩ := scan_encodeChar index (encode text) c
      show scan index none (String.utf8EncodeChar c ++ encode text) = _
      rw [hscan, ih next]
      rfl

/-- A text is read back from its bytes. -/
theorem decode_encode (text : List Char) : decode (encode text) = .ok text :=
  scan_encode 0 text

/-- An ASCII text is a byte a character. -/
theorem encode_ascii {text : List Char} (h : ∀ c ∈ text, c.toNat < 128) :
    encode text = text.map fun c => UInt8.ofNat c.toNat := by
  induction text with
  | nil => rfl
  | cons c text ih =>
      have hchar : String.utf8EncodeChar c = [UInt8.ofNat c.toNat] := by
        have hle : c.toNat ≤ 0x7f := Nat.le_of_lt_succ (h c List.mem_cons_self)
        rw [← encodeChar_one hle, Char.ofNat_toNat]
      show String.utf8EncodeChar c ++ encode text = _
      rw [hchar, ih fun other hother => h other (List.mem_cons_of_mem _ hother)]
      rfl

end WideColumn.Text.Utf8
