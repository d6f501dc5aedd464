import WideColumn.Proofs.Text.Utf8.Reading
import WideColumn.Text.Ascii
import WideColumn.Text.Hex

/-!
# `WideColumn.Proofs.Text.Hex`: hexadecimal texts and the bytes they spell

Two digits of either case spell a byte, so a text is read as the bytes whose lower-case text it
is, upper case apart. A reader of the bytes of a text sees no digits that the text does not
have: all bytes of a character above ASCII are above ASCII. The theorems:

* `digit?_eq_some_iff`: the digits of a number.
* `read_eq_some_iff`: what a text is read as.
* `exists_read_iff`: which texts are read.
* `decode_encode`: reading the bytes of a text is reading the text.
-/

set_option autoImplicit false

namespace WideColumn.Text.Hex

variable {c : Char} {n : Nat} {text : List Char} {bytes : Bytes}

/-! ### Digits -/

/-- A digit of either case. -/
def IsDigit (c : Char) : Prop :=
  '0' ≤ c ∧ c ≤ '9' ∨ 'a' ≤ c ∧ c ≤ 'f' ∨ 'A' ≤ c ∧ c ≤ 'F'

instance : DecidablePred IsDigit := fun c =>
  inferInstanceAs (Decidable ('0' ≤ c ∧ c ≤ '9' ∨ 'a' ≤ c ∧ c ≤ 'f' ∨ 'A' ≤ c ∧ c ≤ 'F'))

/-- A character has a value where it is a hexadecimal digit of either case. -/
theorem exists_digit?_iff : (∃ n, digit? c = some n) ↔ IsDigit c := by
  unfold digit? IsDigit
  split
  · next h => exact iff_of_true ⟨_, rfl⟩ (.inl h)
  split
  · next h => exact iff_of_true ⟨_, rfl⟩ (.inr (.inl h))
  split
  · next h => exact iff_of_true ⟨_, rfl⟩ (.inr (.inr h))
  · next hnumber hlower hupper =>
    refine iff_of_false (fun ⟨n, hn⟩ => nomatch hn) ?_
    rintro (h | h | h)
    · exact hnumber h
    · exact hlower h
    · exact hupper h

/-- Hexadecimal digits are ASCII. -/
theorem IsDigit.lt (h : IsDigit c) : c.toNat < 128 := by
  have hbelow : ∀ last : Char, last.toNat < 128 → c ≤ last → c.toNat < 128 :=
    fun last hlast hle => Nat.lt_of_le_of_lt hle hlast
  rcases h with ⟨-, h⟩ | ⟨-, h⟩ | ⟨-, h⟩
  · exact hbelow '9' (by decide) h
  · exact hbelow 'f' (by decide) h
  · exact hbelow 'F' (by decide) h

/-- The digit of a number below sixteen has that number for a value. -/
theorem digit?_digit (h : n < 16) : digit? (digit n) = some n := by
  have hall : ∀ d < 16, digit? (digit d) = some d := by decide
  exact hall n h

/-- The case of a letter does not matter. -/
theorem digit?_lower (c : Char) : digit? (Ascii.lower c) = digit? c := by
  have hletters : ∀ k < 91, 65 ≤ k → digit? (Char.ofNat (k + 32)) = digit? (Char.ofNat k) := by
    decide
  unfold Ascii.lower
  split
  · next h =>
    have hlow : 65 ≤ c.toNat := h.1
    have hhigh : c.toNat ≤ 90 := h.2
    rw [hletters c.toNat (by omega) hlow, Char.ofNat_toNat]
  · rfl

/-- A digit stands for the number whose lower-case digit it is, upper case apart. -/
theorem digit?_eq_some_iff : digit? c = some n ↔ n < 16 ∧ Ascii.lower c = digit n := by
  constructor
  · intro h
    have hall : ∀ k < 128, (digit? (Char.ofNat k)).all fun n =>
        n < 16 ∧ Ascii.lower (Char.ofNat k) = digit n := by decide
    have hdigit := hall c.toNat (exists_digit?_iff.mp ⟨n, h⟩).lt
    rw [Char.ofNat_toNat, h] at hdigit
    simpa using hdigit
  · rintro ⟨hn, hlower⟩
    rw [← digit?_lower, hlower, digit?_digit hn]

/-! ### Texts -/

/-- Every byte is spelt with two digits. -/
theorem spell_cons (b : UInt8) (bytes : Bytes) :
    spell (b :: bytes) = digit (b.toNat / 16) :: digit (b.toNat % 16) :: spell bytes :=
  rfl

/-- So there are twice as many digits as bytes. -/
theorem length_spell (bytes : Bytes) : (spell bytes).length = 2 * bytes.length := by
  induction bytes with
  | nil => rfl
  | cons b bytes ih =>
      rw [spell_cons, List.length_cons, List.length_cons, List.length_cons, ih]
      omega

/-- A pair of digits is a byte, and the text behind them is read on its own. -/
theorem read_cons_cons_eq_some_iff {high low : Char} :
    read (high :: low :: text) = some bytes ↔
      ∃ h l rest, digit? high = some h ∧ digit? low = some l ∧ read text = some rest ∧
        bytes = UInt8.ofNat (h * 16 + l) :: rest := by
  simp only [read, Option.bind_eq_bind, Option.bind_eq_some_iff, Option.pure_def,
    Option.some.injEq]
  constructor
  · rintro ⟨h, hh, l, hl, rest, hrest, rfl⟩
    exact ⟨h, l, rest, hh, hl, hrest, rfl⟩
  · rintro ⟨h, l, rest, hh, hl, hrest, rfl⟩
    exact ⟨h, hh, l, hl, rest, hrest, rfl⟩

/-- A text is read as the bytes whose lower-case text it is, upper case apart. -/
theorem read_eq_some_iff : read text = some bytes ↔ text.map Ascii.lower = spell bytes := by
  induction text using read.induct generalizing bytes with
  | case1 =>
      cases bytes with
      | nil => exact iff_of_true rfl rfl
      | cons b bytes => exact iff_of_false nofun nofun
  | case2 c =>
      -- A single digit is never all of a text, whose length is even.
      refine iff_of_false nofun fun h => ?_
      have hlength := congrArg List.length h
      rw [length_spell, List.length_map, List.length_singleton] at hlength
      omega
  | case3 high low text ih =>
      rw [read_cons_cons_eq_some_iff, List.map_cons, List.map_cons]
      constructor
      · rintro ⟨h, l, rest, hh, hl, hrest, rfl⟩
        obtain ⟨hlt, hhigh⟩ := digit?_eq_some_iff.mp hh
        obtain ⟨hlt', hlow⟩ := digit?_eq_some_iff.mp hl
        -- The byte of two digits has these digits again.
        have hbyte : (UInt8.ofNat (h * 16 + l)).toNat = h * 16 + l := Utf8.toNat_ofNat (by omega)
        have hfirst : (h * 16 + l) / 16 = h := by omega
        have hlast : (h * 16 + l) % 16 = l := by omega
        rw [spell_cons, hbyte, hfirst, hlast, hhigh, hlow, ih.mp hrest]
      · intro h
        cases bytes with
        | nil => cases h
        | cons b rest =>
            rw [spell_cons, List.cons_eq_cons, List.cons_eq_cons] at h
            obtain ⟨hhigh, hlow, hrest⟩ := h
            have hlt : b.toNat < 256 := b.toNat_lt
            have hbyte : b.toNat / 16 * 16 + b.toNat % 16 = b.toNat := by omega
            refine ⟨b.toNat / 16, b.toNat % 16, rest, ?_, ?_, ih.mpr hrest, ?_⟩
            · exact digit?_eq_some_iff.mpr ⟨by omega, hhigh⟩
            · exact digit?_eq_some_iff.mpr ⟨by omega, hlow⟩
            · rw [hbyte, UInt8.ofNat_toNat]

/-- The texts that are read have an even number of characters, all of them digits. -/
theorem exists_read_iff :
    (∃ bytes, read text = some bytes) ↔ text.length % 2 = 0 ∧ ∀ c ∈ text, IsDigit c := by
  induction text using read.induct with
  | case1 => exact iff_of_true ⟨[], rfl⟩ ⟨rfl, nofun⟩
  | case2 c => exact iff_of_false (fun ⟨_, h⟩ => nomatch h) fun h => nomatch h.1
  | case3 high low text ih =>
      simp only [read_cons_cons_eq_some_iff, List.forall_mem_cons, List.length_cons,
        ← exists_digit?_iff] at ih ⊢
      constructor
      · rintro ⟨_, h, l, rest, hh, hl, hrest, -⟩
        obtain ⟨heven, hdigits⟩ := ih.mp ⟨rest, hrest⟩
        exact ⟨by omega, ⟨h, hh⟩, ⟨l, hl⟩, hdigits⟩
      · rintro ⟨heven, ⟨h, hh⟩, ⟨l, hl⟩, hdigits⟩
        obtain ⟨rest, hrest⟩ := ih.mpr ⟨by omega, hdigits⟩
        exact ⟨_, h, l, rest, hh, hl, hrest, rfl⟩

/-- Text that can be read has hexadecimal digits only. -/
theorem isDigit_of_read (h : read text = some bytes) (hc : c ∈ text) : IsDigit c :=
  (exists_read_iff.mp ⟨bytes, h⟩).2 c hc

/-- The digits that bytes are written with are all lower case. -/
theorem lower_spell (bytes : Bytes) : (spell bytes).map Ascii.lower = spell bytes := by
  have hdigit : ∀ d < 16, Ascii.lower (digit d) = digit d := by decide
  induction bytes with
  | nil => rfl
  | cons b bytes ih =>
      have hlt : b.toNat < 256 := b.toNat_lt
      rw [spell_cons, List.map_cons, List.map_cons, hdigit _ (by omega), hdigit _ (by omega), ih]

/-! ### The bytes of texts -/

/-- The test for an even number only refuses what is refused at the end as well. -/
theorem decode_eq_read (text : Bytes) :
    decode text = read (text.map fun b => Char.ofNat b.toNat) := by
  unfold decode
  split
  · next hodd =>
    symm
    rw [Option.eq_none_iff_forall_ne_some]
    intro bytes h
    have heven := (exists_read_iff.mp ⟨bytes, h⟩).1
    rw [List.length_map] at heven
    exact hodd heven
  · rfl

/-- Reading the bytes of a text is reading the text, be it ASCII or not: no byte of a
character above ASCII is a digit. -/
theorem decode_encode (text : List Char) : decode (Utf8.encode text) = read text := by
  rw [decode_eq_read]
  ext bytes
  constructor
  · -- Only digits can be read, and digits are ASCII, so bytes and characters are the same.
    intro h
    have hascii : ∀ b ∈ Utf8.encode text, b < 0x80 := by
      intro b hb
      have hlt := (isDigit_of_read h (List.mem_map_of_mem hb)).lt
      have hbyte : b.toNat < 256 := b.toNat_lt
      have hchar : (Char.ofNat b.toNat).toNat = b.toNat := Utf8.toNat_val_ofNat (by omega)
      rw [hchar] at hlt
      exact UInt8.lt_iff_toNat_lt.mpr hlt
    have htext := Utf8.decode_ascii hascii
    rw [Utf8.decode_encode, Except.ok.injEq] at htext
    rwa [← htext] at h
  · intro h
    have hascii : ∀ c ∈ text, c.toNat < 128 := fun c hc => (isDigit_of_read h hc).lt
    have hback : ∀ c ∈ text, Char.ofNat (UInt8.ofNat c.toNat).toNat = c := by
      intro c hc
      have hlt := hascii c hc
      rw [Utf8.toNat_ofNat (by omega), Char.ofNat_toNat]
    have htext : (text.map fun c => UInt8.ofNat c.toNat).map (fun b => Char.ofNat b.toNat) =
        text := by
      rw [List.map_map]
      exact (List.map_congr_left hback).trans (List.map_id' text)
    rwa [Utf8.encode_ascii hascii, htext]

end WideColumn.Text.Hex
