import WideColumn.Proofs.Outcome
import WideColumn.Proofs.Text.Utf8

/-!
# `WideColumn.Proofs.Text.Utf8.Reading`: the bytes that can be read

`decode_encode` says that the bytes of a text are read. Here are the bytes that are read at
all: each character takes up the bytes it is written as, since the ranges of the second byte
leave no room for a longer form, for a surrogate, or for a number past the last character. The
theorems:

* `begin?_cases`: what a first byte announces.
* `last_of_scan` / `next_of_scan`: the bytes behind it, one at a time.
* `encodeChar_of_two` / `encodeChar_of_three` / `encodeChar_of_four`: the bytes of a character
  are those it is read from, for each number of them.
* `decode_eq_ok_iff`: bytes are read as a text exactly when they are the bytes of the text.
* `decode_ascii`: ASCII bytes are read one by one.
-/

set_option autoImplicit false

namespace WideColumn.Text.Utf8

variable {index : Nat} {bytes : Bytes} {text : List Char} {p : Pending} {b : UInt8}

/-! ### One byte -/

/-- A byte that begins a character of several bytes says how many there are, and with it the
range of the second one. -/
theorem begin?_cases (h : begin? index b = some p) :
    (∃ n, 2 ≤ n ∧ n < 32 ∧ b = UInt8.ofNat (n + 0xC0) ∧ p = ⟨index, 1, 0, 0x80, 0xBF, n⟩) ∨
    (∃ n, n < 16 ∧ b = UInt8.ofNat (n + 0xE0) ∧ p = ⟨index, 1, 1,
      if n = 0 then 0xA0 else 0x80, if n = 13 then 0x9F else 0xBF, n⟩) ∨
    ∃ n, n < 5 ∧ b = UInt8.ofNat (n + 0xF0) ∧ p = ⟨index, 1, 2,
      if n = 0 then 0x90 else 0x80, if n = 4 then 0x8F else 0xBF, n⟩ := by
  have hbyte : ∀ base, base ≤ b.toNat → b = UInt8.ofNat (b.toNat - base + base) := by
    intro base hbase
    rw [Nat.sub_add_cancel hbase, UInt8.ofNat_toNat]
  rcases Nat.lt_or_ge b.toNat 0xC2 with hb | hlow
  · have hnone : begin? index b = none := if_pos (UInt8.lt_iff_toNat_lt.mpr hb)
    rw [hnone] at h
    cases h
  rcases Nat.lt_or_ge b.toNat 0xE0 with hb | hthree
  · have hn := hbyte 0xC0 (by omega)
    rw [hn, begin?_two index (by omega) (by omega)] at h
    exact .inl ⟨_, by omega, by omega, hn, (Option.some.inj h).symm⟩
  rcases Nat.lt_or_ge b.toNat 0xF0 with hb | hfour
  · have hn := hbyte 0xE0 hthree
    rw [hn, begin?_three index (by omega)] at h
    exact .inr (.inl ⟨_, by omega, hn, (Option.some.inj h).symm⟩)
  rcases Nat.lt_or_ge b.toNat 0xF5 with hb | habove
  · have hn := hbyte 0xF0 hfour
    rw [hn, begin?_four index (by omega)] at h
    exact .inr (.inr ⟨_, by omega, hn, (Option.some.inj h).symm⟩)
  · -- All that can begin a character is below.
    have hnone : begin? index b = none := by
      simp only [begin?, UInt8.lt_iff_toNat_lt, ← UInt8.toNat_inj, UInt8.toNat_ofNat]
      repeat rw [if_neg (by omega)]
    rw [hnone] at h
    cases h

/-- The byte that a character still lacks, and then the other characters. -/
theorem last_of_scan (howed : p.owed = 0) (h : scan index (some p) bytes = .ok text) :
    ∃ b rest cs, bytes = b :: rest ∧ p.low ≤ b ∧ b ≤ p.high ∧
      text = Char.ofNat (p.code * 64 + (b.toNat - 0x80)) :: cs ∧
      scan (index + 1) none rest = .ok cs := by
  cases bytes with
  | nil => cases h
  | cons b rest =>
      by_cases hb : p.low ≤ b ∧ b ≤ p.high
      · rw [scan_last howed hb.1 hb.2] at h
        obtain ⟨cs, hcs, htext⟩ := Outcome.map_eq_ok_iff.mp h
        exact ⟨b, rest, cs, rfl, hb.1, hb.2, htext.symm, hcs⟩
      · rw [scan, if_neg hb] at h
        cases h

/-- The next byte of a character that lacks more than one. -/
theorem next_of_scan {owed : Nat} (howed : p.owed = owed + 1)
    (h : scan index (some p) bytes = .ok text) :
    ∃ b rest, bytes = b :: rest ∧ p.low ≤ b ∧ b ≤ p.high ∧
      scan (index + 1)
        (some ⟨p.start, p.seen + 1, owed, 0x80, 0xBF, p.code * 64 + (b.toNat - 0x80)⟩) rest =
        .ok text := by
  cases bytes with
  | nil => cases h
  | cons b rest =>
      by_cases hb : p.low ≤ b ∧ b ≤ p.high
      · rw [scan_next howed hb.1 hb.2] at h
        exact ⟨b, rest, rfl, hb.1, hb.2, h⟩
      · rw [scan, if_neg hb] at h
        cases h

/-! ### Characters and their bytes -/

/-- The least number of a byte whose range depends on the one before it. -/
theorem le_of_ite_le {P : Prop} [Decidable P] {low low' : UInt8}
    (h : (if P then low else low') ≤ b) :
    (P → low.toNat ≤ b.toNat) ∧ (¬ P → low'.toNat ≤ b.toNat) := by
  rw [UInt8.le_iff_toNat_le] at h
  split at h
  · next hP => exact ⟨fun _ => h, fun hnot => absurd hP hnot⟩
  · next hP => exact ⟨fun hnot => absurd hnot hP, fun _ => h⟩

/-- The greatest number of a byte whose range depends on the one before it. -/
theorem le_of_le_ite {P : Prop} [Decidable P] {high high' : UInt8}
    (h : b ≤ if P then high else high') :
    (P → b.toNat ≤ high.toNat) ∧ (¬ P → b.toNat ≤ high'.toNat) := by
  rw [UInt8.le_iff_toNat_le] at h
  split at h
  · next hP => exact ⟨fun _ => h, fun hnot => absurd hP hnot⟩
  · next hP => exact ⟨fun hnot => absurd hnot hP, fun _ => h⟩

/-- A character of two bytes is written as it has been read. -/
theorem encodeChar_of_two {n : Nat} (hn : 2 ≤ n) (hn' : n < 32) (hlow : 0x80 ≤ b)
    (hhigh : b ≤ 0xBF) :
    String.utf8EncodeChar (Char.ofNat (n * 64 + (b.toNat - 0x80))) =
      [UInt8.ofNat (n + 0xC0), b] := by
  have hleast : 128 ≤ b.toNat := UInt8.le_iff_toNat_le.mp hlow
  have hmost : b.toNat ≤ 191 := UInt8.le_iff_toNat_le.mp hhigh
  generalize hv : n * 64 + (b.toNat - 0x80) = v
  have hfirst : v / 64 % 0x20 = n := by omega
  have hlast : v % 0x40 + 0x80 = b.toNat := by omega
  rw [encodeChar_two (by omega) (by omega), hfirst, hlast, UInt8.ofNat_toNat]

/-- A character of three bytes is written as it has been read: what the second byte may be
keeps the number above U+07FF and out of the surrogates. -/
theorem encodeChar_of_three {n : Nat} {b' : UInt8} (hn : n < 16)
    (hlow : (if n = 0 then 0xA0 else 0x80) ≤ b) (hhigh : b ≤ if n = 13 then 0x9F else 0xBF)
    (hlow' : 0x80 ≤ b') (hhigh' : b' ≤ 0xBF) :
    String.utf8EncodeChar
        (Char.ofNat ((n * 64 + (b.toNat - 0x80)) * 64 + (b'.toNat - 0x80))) =
      [UInt8.ofNat (n + 0xE0), b, b'] := by
  have hleast : (n = 0 → 160 ≤ b.toNat) ∧ (n ≠ 0 → 128 ≤ b.toNat) := le_of_ite_le hlow
  have hmost : (n = 13 → b.toNat ≤ 159) ∧ (n ≠ 13 → b.toNat ≤ 191) := le_of_le_ite hhigh
  have hleast' : 128 ≤ b'.toNat := UInt8.le_iff_toNat_le.mp hlow'
  have hmost' : b'.toNat ≤ 191 := UInt8.le_iff_toNat_le.mp hhigh'
  generalize hv : (n * 64 + (b.toNat - 0x80)) * 64 + (b'.toNat - 0x80) = v
  have hfirst : v / 4096 % 0x10 = n := by omega
  have hnext : v / 64 % 0x40 + 0x80 = b.toNat := by omega
  have hlast : v % 0x40 + 0x80 = b'.toNat := by omega
  rw [encodeChar_three (by omega) (by omega) (by omega), hfirst, hnext, hlast,
    UInt8.ofNat_toNat, UInt8.ofNat_toNat]

/-- A character of four bytes is written as it has been read: what the second byte may be
keeps the number above U+FFFF and at or below U+10FFFF. -/
theorem encodeChar_of_four {n : Nat} {b' b'' : UInt8} (hn : n < 5)
    (hlow : (if n = 0 then 0x90 else 0x80) ≤ b) (hhigh : b ≤ if n = 4 then 0x8F else 0xBF)
    (hlow' : 0x80 ≤ b') (hhigh' : b' ≤ 0xBF) (hlow'' : 0x80 ≤ b'') (hhigh'' : b'' ≤ 0xBF) :
    String.utf8EncodeChar
        (Char.ofNat (((n * 64 + (b.toNat - 0x80)) * 64 + (b'.toNat - 0x80)) * 64 +
          (b''.toNat - 0x80))) =
      [UInt8.ofNat (n + 0xF0), b, b', b''] := by
  have hleast : (n = 0 → 144 ≤ b.toNat) ∧ (n ≠ 0 → 128 ≤ b.toNat) := le_of_ite_le hlow
  have hmost : (n = 4 → b.toNat ≤ 143) ∧ (n ≠ 4 → b.toNat ≤ 191) := le_of_le_ite hhigh
  have hleast' : 128 ≤ b'.toNat := UInt8.le_iff_toNat_le.mp hlow'
  have hmost' : b'.toNat ≤ 191 := UInt8.le_iff_toNat_le.mp hhigh'
  have hleast'' : 128 ≤ b''.toNat := UInt8.le_iff_toNat_le.mp hlow''
  have hmost'' : b''.toNat ≤ 191 := UInt8.le_iff_toNat_le.mp hhigh''
  generalize hv : ((n * 64 + (b.toNat - 0x80)) * 64 + (b'.toNat - 0x80)) * 64 +
    (b''.toNat - 0x80) = v
  have hfirst : v / 262144 % 0x08 = n := by omega
  have hsecond : v / 4096 % 0x40 + 0x80 = b.toNat := by omega
  have hthird : v / 64 % 0x40 + 0x80 = b'.toNat := by omega
  have hlast : v % 0x40 + 0x80 = b''.toNat := by omega
  rw [encodeChar_four (by omega) (by omega), hfirst, hsecond, hthird, hlast,
    UInt8.ofNat_toNat, UInt8.ofNat_toNat, UInt8.ofNat_toNat]

/-! ### Texts and their bytes -/

/-- Where bytes are read between two characters, either there are none, or they start with the
bytes of the first character. -/
theorem character_of_scan (h : scan index none bytes = .ok text) :
    (bytes = [] ∧ text = []) ∨
      ∃ c cs rest next, bytes = String.utf8EncodeChar c ++ rest ∧ text = c :: cs ∧
        scan next none rest = .ok cs := by
  cases bytes with
  | nil =>
      cases h
      exact .inl ⟨rfl, rfl⟩
  | cons first rest =>
      right
      by_cases hascii : first < 0x80
      · rw [scan, if_pos hascii] at h
        obtain ⟨cs, hcs, htext⟩ := Outcome.map_eq_ok_iff.mp h
        have hone : first.toNat < 128 := UInt8.lt_iff_toNat_lt.mp hascii
        refine ⟨_, cs, rest, _, ?_, htext.symm, hcs⟩
        rw [encodeChar_one (by omega), UInt8.ofNat_toNat]
        rfl
      rw [scan, if_neg hascii] at h
      split at h
      · cases h
      next p hp =>
      -- The first byte tells how many others there are, and each of them has to be in its range.
      rcases begin?_cases hp with ⟨n, hn, hn', rfl, rfl⟩ | ⟨n, hn, rfl, rfl⟩ | ⟨n, hn, rfl, rfl⟩
      · obtain ⟨b, rest, cs, rfl, hlow, hhigh, rfl, hcs⟩ := last_of_scan rfl h
        refine ⟨_, cs, rest, _, ?_, rfl, hcs⟩
        rw [encodeChar_of_two hn hn' hlow hhigh]
        rfl
      · obtain ⟨b, rest, rfl, hlow, hhigh, h⟩ := next_of_scan rfl h
        obtain ⟨b', rest, cs, rfl, hlow', hhigh', rfl, hcs⟩ := last_of_scan rfl h
        refine ⟨_, cs, rest, _, ?_, rfl, hcs⟩
        rw [encodeChar_of_three hn hlow hhigh hlow' hhigh']
        rfl
      · obtain ⟨b, rest, rfl, hlow, hhigh, h⟩ := next_of_scan rfl h
        obtain ⟨b', rest, rfl, hlow', hhigh', h⟩ := next_of_scan rfl h
        obtain ⟨b'', rest, cs, rfl, hlow'', hhigh'', rfl, hcs⟩ := last_of_scan rfl h
        refine ⟨_, cs, rest, _, ?_, rfl, hcs⟩
        rw [encodeChar_of_four hn hlow hhigh hlow' hhigh' hlow'' hhigh'']
        rfl

/-- Bytes that are read as text are the bytes of that text: no character has two spellings. -/
theorem encode_of_scan (h : scan index none bytes = .ok text) : encode text = bytes := by
  induction text generalizing index bytes with
  | nil =>
      obtain ⟨rfl, -⟩ | ⟨c, cs, rest, next, -, htext, -⟩ := character_of_scan h
      · rfl
      · cases htext
  | cons c text ih =>
      obtain ⟨-, htext⟩ | ⟨c, cs, rest, next, rfl, htext, hrest⟩ := character_of_scan h
      · cases htext
      · obtain ⟨rfl, rfl⟩ := List.cons_eq_cons.mp htext
        show String.utf8EncodeChar _ ++ encode text = _
        rw [ih hrest]

/-- Bytes are read as a text exactly when they are the bytes of the text. -/
theorem decode_eq_ok_iff : decode bytes = .ok text ↔ bytes = encode text := by
  constructor
  · intro h
    exact (encode_of_scan h).symm
  · rintro rfl
    exact decode_encode text

/-- ASCII bytes taken for characters are ASCII characters. -/
theorem lt_of_mem_map_ofNat (h : ∀ b ∈ bytes, b < 0x80) :
    ∀ c ∈ bytes.map fun b => Char.ofNat b.toNat, c.toNat < 128 := by
  intro c hc
  obtain ⟨b, hb, rfl⟩ := List.mem_map.mp hc
  have hlt : b.toNat < 128 := UInt8.lt_iff_toNat_lt.mp (h b hb)
  exact (toNat_val_ofNat (by omega)).trans_lt hlt

/-- ASCII bytes are read one by one. -/
theorem decode_ascii (h : ∀ b ∈ bytes, b < 0x80) :
    decode bytes = .ok (bytes.map fun b => Char.ofNat b.toNat) := by
  have hback : ∀ b ∈ bytes, UInt8.ofNat (Char.ofNat b.toNat).toNat = b := by
    intro b hb
    have hlt : b.toNat < 128 := UInt8.lt_iff_toNat_lt.mp (h b hb)
    have hchar : (Char.ofNat b.toNat).toNat = b.toNat := toNat_val_ofNat (by omega)
    rw [hchar, UInt8.ofNat_toNat]
  rw [decode_eq_ok_iff, encode_ascii (lt_of_mem_map_ofNat h), List.map_map]
  exact ((List.map_congr_left hback).trans (List.map_id' bytes)).symm

end WideColumn.Text.Utf8
