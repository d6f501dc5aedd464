import WideColumn.FieldType.Value
import WideColumn.Proofs.ByteOrder
import WideColumn.Proofs.Composite.Order

/-!
# `WideColumn.Proofs.ValueOrder`: names in the order of the values they hold

Inside a cell name a signed number has its highest bit flipped, which moves the negative
numbers below the others. So the byte order of names is the order of the values, where
numbers are compared by their size and everything else byte by byte. The theorems:

* `toNat_flipSign`: what a number with its sign flipped spells, read without a sign.
* `compare_flipSign`: numbers of one width, flipped, compare as they do with their sign.
* `compare_toComparable`: one value, of any type.
* `compare_zipWith_toComparable`: values of a list of types.
* `compare_encode_toComparable`: stored names.

A number has to be there: no bytes at all, which stand for a missing number, have no
place among the numbers.
-/

set_option autoImplicit false

namespace WideColumn.FieldType

open Bytes (card toNat toInt)

/-! ### Flipping the sign -/

/-- Flipping the highest bit exchanges the two halves of the bytes. -/
theorem toNat_xor_high (b : UInt8) :
    (b ^^^ 0x80).toNat = if b.toNat < 128 then b.toNat + 128 else b.toNat - 128 := by
  have hall : ∀ n : Fin 256, (UInt8.ofNat n ^^^ 0x80).toNat =
      if n.val < 128 then n.val + 128 else n.val - 128 := by decide +kernel
  have hbyte := hall ⟨b.toNat, b.toNat_lt⟩
  rwa [UInt8.ofNat_toNat] at hbyte

/-- Flipping the sign bit changes no length. -/
@[simp]
theorem length_flipSign (value : Bytes) : (flipSign value).length = value.length := by
  cases value <;> rfl

/-- A number with its sign flipped spells the number itself, moved up by half of what
there is room for. -/
theorem toNat_flipSign {value : Bytes} (h : value ≠ []) :
    2 * (toNat (flipSign value) : Int) = 2 * toInt value + card value.length := by
  obtain ⟨b, rest, rfl⟩ := List.exists_cons_of_ne_nil h
  have hrest := Bytes.toNat_lt_card rest
  rw [flipSign, toInt, Bytes.toNat_cons, Bytes.toNat_cons, List.length_cons, Bytes.card_succ,
    toNat_xor_high]
  -- The first byte alone tells the sign, whatever follows it.
  by_cases hsign : b.toNat < 128
  · have hhigh : b.toNat * card rest.length ≤ 127 * card rest.length :=
      Nat.mul_le_mul_right _ (Nat.le_of_lt_succ hsign)
    rw [if_pos hsign, Nat.add_mul, if_pos (by omega)]
    omega
  · have hhigh : 128 * card rest.length ≤ b.toNat * card rest.length :=
      Nat.mul_le_mul_right _ (Nat.le_of_not_lt hsign)
    rw [if_neg hsign, Nat.sub_mul, if_neg (by omega)]
    omega

/-- Flipped numbers of one width compare as the numbers do with their sign. -/
theorem compare_flipSign {value other : Bytes} (h : value ≠ [])
    (hlength : value.length = other.length) :
    compare (flipSign value) (flipSign other) = compare (toInt value) (toInt other) := by
  have hother : other ≠ [] := by
    intro hnil
    rw [hnil] at hlength
    exact h (List.length_eq_zero_iff.mp hlength)
  have hflipped : (flipSign value).length = (flipSign other).length := by
    rw [length_flipSign, length_flipSign, hlength]
  -- Both are moved up by the same amount.
  have hvalue := toNat_flipSign h
  have hmoved := toNat_flipSign hother
  rw [hlength] at hvalue
  have hlt : toNat (flipSign value) < toNat (flipSign other) ↔ toInt value < toInt other := by
    omega
  have heq : toNat (flipSign value) = toNat (flipSign other) ↔ toInt value = toInt other := by
    omega
  rw [← Bytes.compare_toNat hflipped]
  simp only [compare, compareOfLessAndEq, hlt, heq]

/-! ### Values of one type -/

/-- The bytes are a value of the type, and a number is not missing. -/
structure Present (type : FieldType) (value : Bytes) : Prop where
  checked : type.check value = .ok ()
  number : type.isSigned = true → value ≠ []

/-- The order of the values of a type: numbers by their size, all others byte by byte. -/
def compareValues (type : FieldType) (value other : Bytes) : Ordering :=
  if type.isSigned then compare (toInt value) (toInt other) else compare value other

/-- Numbers of one type have one width. -/
theorem Present.length_eq {type : FieldType} {value other : Bytes} (h : type.Present value)
    (h' : type.Present other) (hsigned : type.isSigned = true) :
    value.length = other.length := by
  have hwidth : ∀ width, (∀ bytes, type.check bytes = .ok () →
      bytes.length = width ∨ bytes = []) → value.length = other.length := by
    intro width hcheck
    rw [(hcheck value h.checked).resolve_right (h.number hsigned),
      (hcheck other h'.checked).resolve_right (h'.number hsigned)]
  cases type with
  | ascii | utf8 | bytes | boolean => cases hsigned
  | int32 =>
      apply hwidth 4
      intro bytes hbytes
      rw [Decidable.or_iff_not_imp_left]
      simpa [check] using hbytes
  | bigInt | counter =>
      apply hwidth 8
      intro bytes hbytes
      rw [Decidable.or_iff_not_imp_left]
      simpa [check] using hbytes

/-- The byte order of values in their form inside cell names is the order of the values. -/
theorem compare_toComparable {type : FieldType} {value other : Bytes}
    (h : type.Present value) (h' : type.Present other) :
    compare (type.toComparable value) (type.toComparable other) =
      type.compareValues value other := by
  unfold toComparable compareValues
  cases hsigned : type.isSigned with
  | false => rfl
  | true => exact compare_flipSign (h.number hsigned) (h.length_eq h' hsigned)

/-! ### Values of several types -/

/-- Values of the types, in their order. There may be fewer values than types. -/
inductive AllPresent : List FieldType → List Bytes → Prop
  | nil (types : List FieldType) : AllPresent types []
  | cons {type : FieldType} {types : List FieldType} {value : Bytes} {values : List Bytes}
    (first : type.Present value) (rest : AllPresent types values) :
    AllPresent (type :: types) (value :: values)

/-- The lexicographic order of lists of values, the types telling how the values at each
place are compared. -/
def compareAll (types : List FieldType) (values others : List Bytes) : Ordering :=
  List.compareLex (fun typed other => typed.1.compareValues typed.2 other.2)
    (types.zip values) (types.zip others)

/-- Values in their form inside cell names compare as the values do, place by place. -/
theorem compare_zipWith_toComparable {types : List FieldType} {values others : List Bytes}
    (h : AllPresent types values) (h' : AllPresent types others) :
    compare (List.zipWith toComparable types values) (List.zipWith toComparable types others) =
      compareAll types values others := by
  induction h generalizing others with
  | nil types =>
      cases h' with
      | nil => cases types <;> rfl
      | cons => rfl
  | cons first rest ih =>
      cases h' with
      | nil => rfl
      | cons first' rest' =>
          simp only [compareAll, List.zipWith_cons_cons, List.zip_cons_cons,
            List.compare_cons_cons, List.compareLex_cons_cons] at ih ⊢
          rw [ih rest', compare_toComparable first first']

/-- Stored names are in the order of the values they hold: the byte order of the names is
the lexicographic order of the values, numbers being compared by their size. And the form
that a value has inside a name gives the value back, be it a value of the type or not. -/
theorem compare_encode_toComparable :
    (∀ (types : List FieldType) (values others : List Bytes),
      AllPresent types values → AllPresent types others →
      compare (Composite.encode (List.zipWith toComparable types values))
          (Composite.encode (List.zipWith toComparable types others)) =
        compareAll types values others) ∧
    ∀ (type : FieldType) (bytes : Bytes), type.ofComparable (type.toComparable bytes) = bytes := by
  refine ⟨fun types values others h h' => ?_, ofComparable_toComparable⟩
  rw [Composite.compare_encode]
  exact compare_zipWith_toComparable h h'

/-- The same text, and then the smallest number and minus one, which are all zeros or all
ones but for their sign: the smallest number comes first, whatever is behind it. -/
theorem compare_encode_toComparable_smallest :
    compare
        (Composite.encode (List.zipWith toComparable [.utf8, .int32, .bytes]
          [[0x61, 0x00], [0x80, 0x00, 0x00, 0x00], [0xFF]]))
        (Composite.encode (List.zipWith toComparable [.utf8, .int32, .bytes]
          [[0x61, 0x00], [0xFF, 0xFF, 0xFF, 0xFF], []])) = .lt ∧
      compareAll [.utf8, .int32, .bytes] [[0x61, 0x00], [0x80, 0x00, 0x00, 0x00], [0xFF]]
        [[0x61, 0x00], [0xFF, 0xFF, 0xFF, 0xFF], []] = .lt := by
  have hsmallest : AllPresent [.utf8, .int32, .bytes]
      [[0x61, 0x00], [0x80, 0x00, 0x00, 0x00], [0xFF]] :=
    .cons ⟨rfl, nofun⟩ (.cons ⟨rfl, by simp⟩ (.cons ⟨rfl, nofun⟩ (.nil [])))
  have hminusOne : AllPresent [.utf8, .int32, .bytes]
      [[0x61, 0x00], [0xFF, 0xFF, 0xFF, 0xFF], []] :=
    .cons ⟨rfl, nofun⟩ (.cons ⟨rfl, by simp⟩ (.cons ⟨rfl, nofun⟩ (.nil [])))
  have hvalues : compareAll [.utf8, .int32, .bytes]
      [[0x61, 0x00], [0x80, 0x00, 0x00, 0x00], [0xFF]]
      [[0x61, 0x00], [0xFF, 0xFF, 0xFF, 0xFF], []] = .lt := by decide
  exact ⟨(compare_encode_toComparable.1 _ _ _ hsmallest hminusOne).trans hvalues, hvalues⟩

end WideColumn.FieldType
