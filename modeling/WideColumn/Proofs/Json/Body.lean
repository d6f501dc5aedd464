import WideColumn.Json.Body
import WideColumn.Proofs.Text.Hex

/-!
# `WideColumn.Proofs.Json.Body`: escaped texts read back

What is escaped in a text is one character at a time, and so is reading it back. A spelt
character neither looks like the closing quote nor runs into what comes after it, so the end of
an escaped text is the first quote that was not written for a character of it. The theorems:

* `readBody_escape`: the body ends at its own closing quote.
* `text?_escape`: the body spells the text it was written for.

Both hold of every text, since a character is never half of a surrogate pair.
-/

set_option autoImplicit false

namespace WideColumn.Json

/-- The four digits that a control character is spelt by. -/
theorem unit?_control {n : Nat} (h : n < 0x20) :
    unit? '0' '0' (Text.Hex.digit (n / 16)) (Text.Hex.digit (n % 16)) = some n := by
  have hzero : Text.Hex.digit? '0' = some 0 := rfl
  rw [unit?, hzero, Text.Hex.digit?_digit (by omega), Text.Hex.digit?_digit (by omega)]
  show some (0 * 4096 + 0 * 256 + n / 16 * 16 + n % 16) = some n
  congr 1
  omega

/-- How a character is spelt: as itself, by a short escape, or by its number. -/
theorem escapeChar_cases (c : Char) :
    (c ≠ '"' ∧ c ≠ '\\' ∧ ¬ c.toNat < 0x20 ∧ escapeChar c = [c]) ∨
    (∃ e, e ≠ 'u' ∧ shortEscape? e = some c ∧ escapeChar c = ['\\', e]) ∨
    (c.toNat < 0x20 ∧ escapeChar c =
      ['\\', 'u', '0', '0', Text.Hex.digit (c.toNat / 16), Text.Hex.digit (c.toNat % 16)]) := by
  -- Two of the short escapes are told by the number of the character.
  have hnumber : ∀ n, c.toNat = n → c = Char.ofNat n := by
    rintro n rfl
    exact (Char.ofNat_toNat c).symm
  unfold escapeChar
  split
  · next h => exact .inr (.inl ⟨'"', by decide, by rw [h]; rfl, rfl⟩)
  split
  · next h => exact .inr (.inl ⟨'\\', by decide, by rw [h]; rfl, rfl⟩)
  split
  · next h => exact .inr (.inl ⟨'n', by decide, by rw [h]; rfl, rfl⟩)
  split
  · next h => exact .inr (.inl ⟨'r', by decide, by rw [h]; rfl, rfl⟩)
  split
  · next h => exact .inr (.inl ⟨'t', by decide, by rw [h]; rfl, rfl⟩)
  split
  · next h => exact .inr (.inl ⟨'b', by decide, by rw [hnumber _ h]; rfl, rfl⟩)
  split
  · next h => exact .inr (.inl ⟨'f', by decide, by rw [hnumber _ h]; rfl, rfl⟩)
  split
  · next h => exact .inr (.inr ⟨h, rfl⟩)
  · next hquote hbackslash _ _ _ _ _ hplain => exact .inl ⟨hquote, hbackslash, hplain, rfl⟩

/-- Text is escaped character by character. -/
theorem escape_cons (c : Char) (text : List Char) :
    escape (c :: text) = escapeChar c ++ escape text :=
  List.flatMap_cons

/-! ### The end of a body -/

/-- A spelt character is part of the body that goes on behind it. -/
theorem readBody_escapeChar (c : Char) (rest : List Char) :
    readBody (escapeChar c ++ rest) =
      (readBody rest).map fun r => (escapeChar c ++ r.1, r.2) := by
  rcases escapeChar_cases c with ⟨hquote, hbackslash, hplain, hspelt⟩ | ⟨e, hu, hshort, hspelt⟩ |
    ⟨hcontrol, hspelt⟩
  · rw [hspelt, List.singleton_append, readBody, if_neg hplain]
    · rfl
    · exact hquote
    · exact fun _ _ _ _ _ heq _ => hbackslash heq
    · exact fun _ _ heq _ => hbackslash heq
  · rw [hspelt]
    show readBody ('\\' :: e :: rest) = _
    rw [readBody, hshort]
    · rfl
    · exact fun _ _ _ _ _ heq _ => hu heq
  · rw [hspelt]
    show readBody ('\\' :: 'u' :: '0' :: '0' :: Text.Hex.digit (c.toNat / 16) ::
      Text.Hex.digit (c.toNat % 16) :: rest) = _
    rw [readBody, unit?_control hcontrol]
    rfl

/-- A body ends at its own closing quote, whatever stands behind it. -/
theorem readBody_escape (text rest : List Char) :
    readBody (escape text ++ '"' :: rest) = some (escape text, rest) := by
  induction text with
  | nil => rfl
  | cons c text ih =>
      rw [escape_cons, List.append_assoc, readBody_escapeChar, ih]
      rfl

/-! ### The text of a body -/

/-- A spelt character is read as the character. -/
theorem pieces?_escapeChar (c : Char) (rest : List Char) :
    pieces? (escapeChar c ++ rest) = (pieces? rest).map (.char c :: ·) := by
  -- A character stands for itself, or it has a short escape, or it is written as a code unit.
  rcases escapeChar_cases c with ⟨-, hbackslash, -, hspelt⟩ | ⟨e, hu, hshort, hspelt⟩ |
    ⟨hcontrol, hspelt⟩
  · rw [hspelt, List.singleton_append, pieces?]
    · rfl
    · exact fun _ _ _ _ _ heq _ => hbackslash heq
    · exact fun _ _ heq _ => hbackslash heq
  · rw [hspelt]
    show pieces? ('\\' :: e :: rest) = _
    rw [pieces?, hshort]
    · cases pieces? rest with
      | none => rfl
      | some pieces => rfl
    · exact fun _ _ _ _ _ heq _ => hu heq
  · rw [hspelt]
    show pieces? ('\\' :: 'u' :: '0' :: '0' :: Text.Hex.digit (c.toNat / 16) ::
      Text.Hex.digit (c.toNat % 16) :: rest) = _
    have hpiece : Piece.ofUnit c.toNat = .char c := by
      rw [Piece.ofUnit, if_neg (by omega), if_neg (by omega), Char.ofNat_toNat]
    rw [pieces?, unit?_control hcontrol]
    simp only [Option.bind_eq_bind, Option.bind_some, hpiece]
    cases pieces? rest with
    | none => rfl
    | some pieces => rfl

/-- Escaped text falls into pieces that are the characters it stands for. -/
theorem pieces?_escape (text : List Char) : pieces? (escape text) = some (text.map .char) := by
  induction text with
  | nil => rfl
  | cons c text ih =>
      rw [escape_cons, pieces?_escapeChar, ih]
      rfl

/-- Pieces that are characters make up their text. -/
theorem join?_chars (text : List Char) : join? (text.map .char) = some text := by
  induction text with
  | nil => rfl
  | cons c text ih =>
      rw [List.map_cons, join?, ih]
      rfl

/-- A body spells the text it was written for. -/
theorem text?_escape (text : List Char) : text? (escape text) = some text := by
  rw [text?, pieces?_escape]
  exact join?_chars text

end WideColumn.Json
