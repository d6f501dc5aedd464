import WideColumn.Plan
import WideColumn.Proofs.Text.Hex
import WideColumn.Proofs.Text.Integer
import WideColumn.Proofs.TwosComplement

/-!
# `WideColumn.Proofs.Value`: literals are values

Literals are read by one function, and values that are bound are checked by another. What
the first one reads, the second one lets through, and what the second one lets through can be
written as a literal: texts in UTF-8, bytes in hexadecimal, numbers in decimal. Only a missing
number has no literal, and of the bytes that stand for a truth value only two have one. The
theorems:

* `length_parseInteger` and `length_parseBoolean`: how wide a value is.
* `ascii_of_parse`: an ASCII literal has no other bytes.
* `check_of_parse`: the value of a literal may be bound, whatever the type.
* `parseInteger_eq_ok_iff` / `number_spells`: which number literals are read, as which bytes, and
  what is said of the others.
* `parse_bytes_eq_ok_iff` / `parse_bytes_spells`: which hexadecimal literals are read, and as
  which bytes.
* `exists_parse_iff`: the values that a literal stands for are those that may be bound, these
  exceptions apart.
-/

set_option autoImplicit false

namespace WideColumn.FieldType

variable {text : String} {value : Bytes}

/-- An integer fills the width it is read for. -/
theorem length_parseInteger {width : Nat} (h : parseInteger width text = .ok value) :
    value.length = width := by
  unfold parseInteger at h
  split at h
  · cases h
    exact Bytes.length_ofInt _ _
  · cases h

/-- There are two truth values. -/
theorem parseBoolean_cases (h : parseBoolean text = .ok value) : value = [0] ∨ value = [1] := by
  unfold parseBoolean at h
  simp only at h
  split at h
  · exact .inr (Except.ok.inj h).symm
  · split at h
    · exact .inl (Except.ok.inj h).symm
    · cases h

/-- A truth value is stored in one byte. -/
theorem length_parseBoolean (h : parseBoolean text = .ok value) : value.length = 1 := by
  rcases parseBoolean_cases h with rfl | rfl <;> rfl

/-- A character of an ASCII literal is one byte. -/
theorem ascii_of_parse (h : parse .ascii text = .ok value) : value.all (· < 0x80) = true := by
  simp only [parse] at h
  split at h
  · next hascii =>
    cases h
    have hchars : ∀ c ∈ text.toList, c.toNat < 128 := by
      simpa [Text.Ascii.isAscii] using hascii
    rw [Text.Utf8.ofString, Text.Utf8.encode_ascii hchars, List.all_map, List.all_eq_true]
    intro c hc
    have hlt := hchars c hc
    show decide (UInt8.ofNat c.toNat < 0x80) = true
    rw [decide_eq_true_iff, UInt8.lt_iff_toNat_lt, Text.Utf8.toNat_ofNat (by omega)]
    exact hlt
  · cases h

/-- The value of a literal passes the check of its type. -/
theorem check_of_parse {type : FieldType} (h : type.parse text = .ok value) :
    type.check value = .ok () := by
  cases type with
  | ascii => rw [check, if_pos (ascii_of_parse h)]
  | utf8 =>
      cases h
      rw [check, Text.Utf8.ofString, Text.Utf8.decode_encode]
  | bytes => rfl
  | int32 => rw [check, if_pos (.inl (length_parseInteger h))]
  | bigInt => rw [check, if_pos (.inl (length_parseInteger h))]
  | boolean => rw [check, if_pos (Nat.le_of_eq (length_parseBoolean h))]
  | counter => rw [check, if_pos (.inl (length_parseInteger h))]

/-! ### Number literals -/

/-- How many bytes the numbers of the type have. -/
def width? : FieldType → Option Nat
  | .int32 => some 4
  | .bigInt | .counter => some 8
  | .ascii | .utf8 | .bytes | .boolean => none

/-- Types of a fixed width are all read as integers of that width. -/
theorem parse_of_width {type : FieldType} {width : Nat} (h : type.width? = some width) :
    type.parse text = parseInteger width text := by
  cases type with
  | ascii | utf8 | bytes | boolean => cases h
  | int32 | bigInt | counter =>
      cases h
      rfl

/-- A number literal is read exactly when it spells a number that there is room for, and it is
read as the bytes of the number. -/
theorem parseInteger_eq_ok_iff {width : Nat} :
    parseInteger width text = .ok value ↔
      ∃ v, Text.Integer.Spells text.toList v ∧
        -2 ^ (8 * width - 1) ≤ v ∧ v < 2 ^ (8 * width - 1) ∧ value = Bytes.ofInt width v := by
  unfold parseInteger
  constructor
  · intro h
    split at h
    · next v hread =>
      obtain ⟨hspells, hlow, hhigh⟩ := Text.Integer.read_eq_ok_iff.mp hread
      exact ⟨v, hspells, hlow, hhigh, (Except.ok.inj h).symm⟩
    · cases h
  · rintro ⟨v, hspells, hlow, hhigh, rfl⟩
    rw [Text.Integer.read_eq_ok_iff.mpr ⟨hspells, hlow, hhigh⟩]

/-- An integer is read, or the error tells the text and what is wrong with it. -/
theorem parseInteger_cases (width : Nat) (text : String) :
    (∃ value, parseInteger width text = .ok value) ∨
      ∃ cause, parseInteger width text = .error (.notInteger text cause) := by
  unfold parseInteger
  split
  · exact .inl ⟨_, rfl⟩
  · exact .inr ⟨_, rfl⟩

/-- A number literal is an optional sign and one or more digits, however many, that spell a
number of the width. It stands for the two's complement of the number, most significant byte
first; and for any other text the error names the field and tells the text. -/
theorem number_spells {field : Field} {width : Nat} (hwidth : field.type.width? = some width)
    (text : String) (vars : List Bytes) :
    (∀ value, (Term.literal text).value field vars = .ok value ↔
      ∃ v, Text.Integer.Spells text.toList v ∧
        -2 ^ (8 * width - 1) ≤ v ∧ v < 2 ^ (8 * width - 1) ∧ value = Bytes.ofInt width v) ∧
    ((¬ ∃ v, Text.Integer.Spells text.toList v ∧
        -2 ^ (8 * width - 1) ≤ v ∧ v < 2 ^ (8 * width - 1)) →
      ∃ cause, (Term.literal text).value field vars =
        .error (.invalidTerm field.name (.notInteger text cause))) := by
  have hvalue : (Term.literal text).value field vars =
      (parseInteger width text).mapError (.invalidTerm field.name) := by
    rw [Term.value, parse_of_width hwidth]
  rw [hvalue]
  constructor
  · intro value
    rw [Outcome.mapError_eq_ok_iff, parseInteger_eq_ok_iff]
  · intro hnot
    rcases parseInteger_cases width text with ⟨value, hread⟩ | ⟨cause, hfault⟩
    · obtain ⟨v, hspells, hlow, hhigh, -⟩ := parseInteger_eq_ok_iff.mp hread
      exact absurd ⟨v, hspells, hlow, hhigh⟩ hnot
    · exact ⟨cause, by rw [hfault]; rfl⟩

/-- The least number of 32 bits, behind zeros that do not count, and the number that is one too
large. -/
theorem number_spells_least :
    (Term.literal "-0002147483648").value ⟨"age", .metadata, .int32⟩ [] =
        .ok [0x80, 0x00, 0x00, 0x00] ∧
      ∃ cause, (Term.literal "+2147483648").value ⟨"age", .metadata, .int32⟩ [] =
        .error (.invalidTerm "age" (.notInteger "+2147483648" cause)) := by
  have hwidth : (⟨"age", .metadata, .int32⟩ : Field).type.width? = some 4 := rfl
  constructor
  · have hspells : Text.Integer.Spells "-0002147483648".toList (-2147483648) :=
      .minus ⟨nofun, List.all_eq_true.mp (by decide)⟩
    have hbytes : [0x80, 0x00, 0x00, 0x00] = Bytes.ofInt 4 (-2147483648) := by decide
    exact ((number_spells hwidth "-0002147483648" []).1 _).mpr
      ⟨-2147483648, hspells, by decide, by decide, hbytes⟩
  · refine (number_spells hwidth "+2147483648" []).2 ?_
    rintro ⟨v, hspells, -, hhigh⟩
    have hv : v = 2147483648 := (Text.Integer.spells_plus_iff.mp hspells).2
    rw [hv] at hhigh
    exact absurd hhigh (by decide)

/-! ### Hexadecimal literals -/

/-- The text of a literal with these digits: there is at most one mark in front of them. -/
inductive Marked : List Char → List Char → Prop
  | bare (digits : List Char) : Marked digits digits
  | lower (digits : List Char) : Marked ('0' :: 'x' :: digits) digits
  | upper (digits : List Char) : Marked ('0' :: 'X' :: digits) digits

variable {chars digits : List Char}

/-- The digits are what the text has after its prefix, or all of it. -/
theorem marked_hexDigits (chars : List Char) : Marked chars (hexDigits chars) := by
  unfold hexDigits
  split
  · exact .lower _
  · exact .upper _
  · exact .bare _

/-- A mark is no pair of digits, so that no digits are taken for one. -/
theorem hexDigits_of_marked (h : Marked chars digits) (hdigits : ∀ c ∈ digits, Text.Hex.IsDigit c) :
    hexDigits chars = digits := by
  cases h with
  | lower => rfl
  | upper => rfl
  | bare =>
      unfold hexDigits
      split
      · exact absurd (hdigits 'x' (by simp)) (by decide)
      · exact absurd (hdigits 'X' (by simp)) (by decide)
      · rfl

/-- A hexadecimal literal is read as the bytes whose lower-case text its digits are, upper case
apart. -/
theorem parse_bytes_eq_ok_iff :
    FieldType.bytes.parse text = .ok value ↔
      ∃ digits, Marked text.toList digits ∧
        digits.map Text.Ascii.lower = Text.Hex.spell value := by
  have hparse : FieldType.bytes.parse text = .ok value ↔
      Text.Hex.read (hexDigits text.toList) = some value := by
    rw [parse, Text.Hex.decode_encode]
    cases Text.Hex.read (hexDigits text.toList) with
    | none => exact iff_of_false nofun nofun
    | some bytes => rw [Except.ok.injEq, Option.some.injEq]
  simp only [hparse, ← Text.Hex.read_eq_some_iff]
  constructor
  · intro h
    exact ⟨_, marked_hexDigits _, h⟩
  · rintro ⟨digits, hmarked, h⟩
    rwa [hexDigits_of_marked hmarked fun c hc => Text.Hex.isDigit_of_read h hc]

/-- A hexadecimal literal has at most one mark in front, and then an even number of digits of
either case; it stands for half as many bytes, of which the digits are the text. So bytes are
read back from their text in any mix of cases, with a mark or without. -/
theorem parse_bytes_spells :
    (∀ text : String, (∃ value, FieldType.bytes.parse text = .ok value) ↔
      ∃ digits, Marked text.toList digits ∧ digits.length % 2 = 0 ∧
        ∀ c ∈ digits, Text.Hex.IsDigit c) ∧
    (∀ (text : String) (value : Bytes), FieldType.bytes.parse text = .ok value ↔
      ∃ digits, Marked text.toList digits ∧ (∀ c ∈ digits, Text.Hex.IsDigit c) ∧
        digits.length = 2 * value.length ∧
        Text.Hex.spell value = digits.map Text.Ascii.lower) ∧
    ∀ (value : Bytes) (digits : List Char) (text : String),
      digits.map Text.Ascii.lower = Text.Hex.spell value → Marked text.toList digits →
        FieldType.bytes.parse text = .ok value := by
  refine ⟨fun text => ?_, fun text value => ?_, fun value digits text hspells hmarked => ?_⟩
  · simp only [parse_bytes_eq_ok_iff, ← Text.Hex.exists_read_iff, ← Text.Hex.read_eq_some_iff]
    constructor
    · rintro ⟨value, digits, hmarked, h⟩
      exact ⟨digits, hmarked, value, h⟩
    · rintro ⟨digits, hmarked, value, h⟩
      exact ⟨value, digits, hmarked, h⟩
  · rw [parse_bytes_eq_ok_iff]
    constructor
    · rintro ⟨digits, hmarked, h⟩
      have hread := Text.Hex.read_eq_some_iff.mpr h
      have hlength := congrArg List.length h
      rw [List.length_map, Text.Hex.length_spell] at hlength
      exact ⟨digits, hmarked, fun c hc => Text.Hex.isDigit_of_read hread hc, hlength, h.symm⟩
    · rintro ⟨digits, hmarked, -, -, h⟩
      exact ⟨digits, hmarked, h.symm⟩
  · exact parse_bytes_eq_ok_iff.mpr ⟨digits, hmarked, hspells⟩

/-- Both cases in one literal, behind an upper-case mark. -/
theorem parse_bytes_spells_mixedCase :
    FieldType.bytes.parse "0XcAFe" = .ok [0xCA, 0xFE] :=
  parse_bytes_spells.2.2 [0xCA, 0xFE] ['c', 'A', 'F', 'e'] "0XcAFe" (by decide) (.upper _)

/-! ### The values of literals -/

/-- What no literal stands for is left out: a missing number, and what is taken for a truth
value but neither of the two. -/
def IsWritable : FieldType → Bytes → Prop
  | .ascii, _ | .utf8, _ | .bytes, _ => True
  | .int32, value | .bigInt, value | .counter, value => value ≠ []
  | .boolean, value => value = [0] ∨ value = [1]

/-- No literal stands for what is left out. -/
theorem isWritable_of_parse {type : FieldType} (h : type.parse text = .ok value) :
    type.IsWritable value := by
  cases type with
  | ascii | utf8 | bytes => trivial
  | int32 | bigInt | counter =>
      refine List.ne_nil_of_length_pos ?_
      rw [length_parseInteger h]
      decide
  | boolean => exact parseBoolean_cases h

/-- Of a type with a fixed width, values have that width, or they are empty. -/
theorem check_of_width {type : FieldType} {width : Nat} (h : type.width? = some width) :
    type.check value = .ok () ↔ value.length = width ∨ value = [] := by
  cases type with
  | ascii | utf8 | bytes | boolean => cases h
  | int32 | bigInt | counter =>
      cases h
      rw [check]
      split
      · next hwidth => exact iff_of_true rfl hwidth
      · next hwidth => exact iff_of_false nofun hwidth

/-- Every number has a literal. -/
theorem exists_parseInteger (h : value ≠ []) :
    ∃ text, parseInteger value.length text = .ok value := by
  have hlength : 0 < value.length := List.length_pos_iff.mpr h
  -- The ends of the range are powers of two, those of the width halves of all there are.
  have hhalf := Bytes.two_mul_two_pow hlength
  have hlow := Bytes.le_two_mul_toInt value
  have hhigh := Bytes.two_mul_toInt_lt value
  refine ⟨Text.Decimal.ofInt (Bytes.toInt value), parseInteger_eq_ok_iff.mpr
    ⟨Bytes.toInt value, Text.Integer.spells_ofInt _, by omega, by omega, ?_⟩⟩
  exact (Bytes.ofInt_toInt value).symm

/-- A literal is written for every value that its type has one for. -/
theorem exists_parse_of_check {type : FieldType} (hcheck : type.check value = .ok ())
    (hwritable : type.IsWritable value) : ∃ text, type.parse text = .ok value := by
  cases type with
  | ascii =>
      have hascii : ∀ b ∈ value, b < 0x80 := by
        rw [check] at hcheck
        split at hcheck
        · next h => simpa using h
        · cases hcheck
      -- Each byte is taken for the character of its number.
      have hchars := Text.Utf8.lt_of_mem_map_ofNat hascii
      refine ⟨String.ofList (value.map fun b => Char.ofNat b.toNat), ?_⟩
      rw [parse, Text.Utf8.ofString, String.toList_ofList, if_pos,
        ← Text.Utf8.decode_eq_ok_iff.mp (Text.Utf8.decode_ascii hascii)]
      simpa [Text.Ascii.isAscii] using hchars
  | utf8 =>
      rw [check] at hcheck
      split at hcheck
      · next text hdecode =>
        refine ⟨String.ofList text, ?_⟩
        rw [parse, Text.Utf8.ofString, String.toList_ofList,
          Text.Utf8.decode_eq_ok_iff.mp hdecode]
      · cases hcheck
  | bytes =>
      refine ⟨String.ofList (Text.Hex.spell value), parse_bytes_eq_ok_iff.mpr ⟨_, ?_,
        Text.Hex.lower_spell value⟩⟩
      rw [String.toList_ofList]
      exact .bare _
  | int32 | bigInt | counter =>
      have hlength := (check_of_width rfl).mp hcheck
      obtain ⟨text, htext⟩ := exists_parseInteger hwritable
      refine ⟨text, ?_⟩
      rw [parse_of_width rfl, ← hlength.resolve_right hwritable, htext]
  | boolean =>
      rcases hwritable with rfl | rfl
      · exact ⟨"false", by decide⟩
      · exact ⟨"true", by decide⟩

/-- Literals and bound values are the same values: what a literal stands for may be bound, and
what may be bound has a literal. A missing number has none, and of the bytes for a truth value
only the two that the words stand for. -/
theorem exists_parse_iff (type : FieldType) (value : Bytes) :
    (∃ text, type.parse text = .ok value) ↔
      type.check value = .ok () ∧ type.IsWritable value := by
  constructor
  · rintro ⟨text, h⟩
    exact ⟨check_of_parse h, isWritable_of_parse h⟩
  · rintro ⟨hcheck, hwritable⟩
    exact exists_parse_of_check hcheck hwritable

end WideColumn.FieldType
