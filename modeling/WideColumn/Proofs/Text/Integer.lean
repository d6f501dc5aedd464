import Mathlib.Algebra.Order.Ring.Int
import WideColumn.Proofs.Outcome
import WideColumn.Proofs.Text.Decimal
import WideColumn.Text.Integer

/-!
# `WideColumn.Proofs.Text.Integer`: the texts that are integers

A literal is read digit by digit, and given up at the first digit that takes the number out of
the range. Nothing is lost by that: a number only grows with further digits, leading zeros leave
it where it is, and what is read in the end is the number the digits spell. The theorems:

* `Spells`: an optional sign, one or more digits, and the integer they are.
* `magnitude_eq_ok_iff`: a magnitude is read where the digits spell one that is not above the
  limit.
* `read_eq_ok_iff`: a text is read exactly when it spells an integer of the width.
* `spells_ofInt`: every integer has a text.
-/

set_option autoImplicit false

namespace WideColumn.Text.Integer

/-! ### The texts of integers -/

/-- One or more digits, leading zeros included. -/
structure IsNumeral (text : List Char) : Prop where
  ne_nil : text ≠ []
  isDigit : ∀ c ∈ text, Decimal.isDigit c = true

/-- The text is that of the integer: at most one sign, and then its digits. -/
inductive Spells : List Char → Int → Prop
  | unsigned {ds : List Char} (digits : IsNumeral ds) : Spells ds (Decimal.value ds)
  | plus {ds : List Char} (digits : IsNumeral ds) : Spells ('+' :: ds) (Decimal.value ds)
  | minus {ds : List Char} (digits : IsNumeral ds) : Spells ('-' :: ds) (-(Decimal.value ds : Int))

variable {bits limit n m : Nat} {overflow : Fault} {text : List Char} {v : Int}

/-- Numerals have no sign. -/
theorem IsNumeral.head_ne {c : Char} (h : IsNumeral (c :: text)) : c ≠ '-' ∧ c ≠ '+' := by
  have hdigit := h.isDigit c List.mem_cons_self
  refine ⟨?_, ?_⟩
  · rintro rfl
    cases hdigit
  · rintro rfl
    cases hdigit

/-- No number is spelt without a character. -/
theorem not_spells_nil : ¬ Spells [] v := by
  rintro ⟨digits⟩
  exact digits.ne_nil rfl

/-- After a minus sign come the digits of the opposite number. -/
theorem spells_minus_iff : Spells ('-' :: text) v ↔ IsNumeral text ∧ v = -(Decimal.value text) := by
  constructor
  · intro h
    cases h with
    | unsigned digits => exact absurd rfl digits.head_ne.1
    | minus digits => exact ⟨digits, rfl⟩
  · rintro ⟨digits, rfl⟩
    exact .minus digits

/-- A plus sign changes nothing. -/
theorem spells_plus_iff : Spells ('+' :: text) v ↔ IsNumeral text ∧ v = Decimal.value text := by
  constructor
  · intro h
    cases h with
    | unsigned digits => exact absurd rfl digits.head_ne.2
    | plus digits => exact ⟨digits, rfl⟩
  · rintro ⟨digits, rfl⟩
    exact .plus digits

/-- Without a sign there are only digits. -/
theorem spells_unsigned_iff (hminus : ∀ rest, text ≠ '-' :: rest)
    (hplus : ∀ rest, text ≠ '+' :: rest) :
    Spells text v ↔ IsNumeral text ∧ v = Decimal.value text := by
  constructor
  · intro h
    cases h with
    | unsigned digits => exact ⟨digits, rfl⟩
    | plus digits => exact absurd rfl (hplus _)
    | minus digits => exact absurd rfl (hminus _)
  · rintro ⟨digits, rfl⟩
    exact .unsigned digits

/-! ### Magnitudes -/

/-- Further digits make no number smaller. -/
theorem le_foldl_digits (text : List Char) (n : Nat) :
    n ≤ text.foldl (fun n c => n * 10 + Decimal.digitValue c) n := by
  induction text generalizing n with
  | nil => exact Nat.le_refl n
  | cons c text ih =>
      calc n ≤ n * 10 + Decimal.digitValue c := by omega
        _ ≤ _ := ih _

/-- Digits behind a number within the limit are read exactly when the number they lead to is
within the limit, for then all numbers on the way are. -/
theorem magnitude_eq_ok_iff (hn : n ≤ limit) :
    magnitude limit overflow n text = .ok m ↔
      (∀ c ∈ text, Decimal.isDigit c = true) ∧
        m = text.foldl (fun n c => n * 10 + Decimal.digitValue c) n ∧ m ≤ limit := by
  induction text generalizing n with
  | nil =>
      rw [magnitude, Except.ok.injEq, List.foldl_nil]
      constructor
      · rintro rfl
        exact ⟨nofun, rfl, hn⟩
      · rintro ⟨-, rfl, -⟩
        rfl
  | cons c text ih =>
      rw [List.forall_mem_cons, List.foldl_cons, magnitude]
      by_cases hc : Decimal.isDigit c = true
      · rw [hc, Bool.not_true, if_neg Bool.false_ne_true]
        by_cases hlimit : n * 10 + Decimal.digitValue c > limit
        · -- No digit behind this one brings the number back.
          rw [if_pos hlimit]
          have hgrows := le_foldl_digits text (n * 10 + Decimal.digitValue c)
          refine iff_of_false nofun ?_
          rintro ⟨-, rfl, hle⟩
          omega
        · rw [if_neg hlimit, ih (by omega)]
          simp only [true_and]
      · rw [Bool.not_eq_true] at hc
        rw [hc, Bool.not_false, if_pos rfl]
        exact iff_of_false nofun fun h => Bool.false_ne_true h.1.1

/-- Digits are read where there is one at least, and where the number they tell is within the
limit. -/
theorem digits_eq_ok_iff :
    digits limit overflow text = .ok n ↔
      IsNumeral text ∧ n = Decimal.value text ∧ n ≤ limit := by
  cases text with
  | nil => exact iff_of_false nofun fun h => h.1.ne_nil rfl
  | cons c text =>
      show magnitude limit overflow 0 (c :: text) = .ok n ↔ _
      rw [magnitude_eq_ok_iff (Nat.zero_le limit)]
      constructor
      · rintro ⟨hdigits, hn, hle⟩
        exact ⟨⟨List.cons_ne_nil c text, hdigits⟩, hn, hle⟩
      · rintro ⟨hnumeral, hn, hle⟩
        exact ⟨hnumeral.isDigit, hn, hle⟩

/-! ### Integers -/

/-- The limit of negative numbers is half of what the width can hold. -/
theorem maxMagnitude_eq (bits : Nat) : (maxMagnitude bits : Int) = 2 ^ (bits - 1) :=
  Int.natCast_pow 2 (bits - 1)

/-- So the limit is positive, whatever the width. -/
theorem maxMagnitude_pos (bits : Nat) : 0 < maxMagnitude bits :=
  Nat.two_pow_pos (bits - 1)

/-- What is not negative is read up to one below the magnitude of the least integer. -/
theorem digits_map_ofNat_eq_ok_iff :
    (digits (maxMagnitude bits - 1) overflow text).map Int.ofNat = .ok v ↔
      (IsNumeral text ∧ v = Decimal.value text) ∧ -2 ^ (bits - 1) ≤ v ∧ v < 2 ^ (bits - 1) := by
  have hpositive := maxMagnitude_pos bits
  rw [← maxMagnitude_eq, Outcome.map_eq_ok_iff]
  constructor
  · rintro ⟨n, hn, hv⟩
    obtain ⟨hnumeral, rfl, hle⟩ := digits_eq_ok_iff.mp hn
    replace hv : (Decimal.value text : Int) = v := hv
    exact ⟨⟨hnumeral, hv.symm⟩, by omega, by omega⟩
  · rintro ⟨⟨hnumeral, rfl⟩, -, hhigh⟩
    exact ⟨_, digits_eq_ok_iff.mpr ⟨hnumeral, rfl, by omega⟩, rfl⟩

/-- Digits after a minus sign are read where their number is within the range. -/
theorem digits_map_neg_eq_ok_iff :
    (digits (maxMagnitude bits) overflow text).map (fun n : Nat => -(n : Int)) = .ok v ↔
      (IsNumeral text ∧ v = -(Decimal.value text)) ∧
        -2 ^ (bits - 1) ≤ v ∧ v < 2 ^ (bits - 1) := by
  have hpositive := maxMagnitude_pos bits
  rw [← maxMagnitude_eq, Outcome.map_eq_ok_iff]
  constructor
  · rintro ⟨n, hn, rfl⟩
    obtain ⟨hnumeral, rfl, hle⟩ := digits_eq_ok_iff.mp hn
    exact ⟨⟨hnumeral, rfl⟩, by omega, by omega⟩
  · rintro ⟨⟨hnumeral, rfl⟩, hlow, -⟩
    exact ⟨_, digits_eq_ok_iff.mpr ⟨hnumeral, rfl, by omega⟩, rfl⟩

/-- A text is read exactly when it spells an integer of so many bits, and it is read as that
integer. -/
theorem read_eq_ok_iff :
    read bits text = .ok v ↔ Spells text v ∧ -2 ^ (bits - 1) ≤ v ∧ v < 2 ^ (bits - 1) := by
  unfold read
  split
  · exact iff_of_false nofun fun h => not_spells_nil h.1
  · rw [spells_minus_iff, digits_map_neg_eq_ok_iff]
  · rw [spells_plus_iff, digits_map_ofNat_eq_ok_iff]
  · next hminus hplus =>
    rw [spells_unsigned_iff (fun rest h => hminus rest h) (fun rest h => hplus rest h),
      digits_map_ofNat_eq_ok_iff]

/-- Every integer has a text. -/
theorem spells_ofInt (v : Int) : Spells (Decimal.ofInt v).toList v := by
  have hnumeral : ∀ n, IsNumeral (Decimal.digits n) := fun n =>
    ⟨Decimal.digits_ne_nil n, fun c hc => Decimal.isDigit_of_mem_digits hc⟩
  cases v with
  | ofNat n =>
      have hspells := Spells.unsigned (hnumeral n)
      rw [Decimal.value_digits] at hspells
      rwa [Decimal.ofInt, Decimal.ofNat, String.toList_ofList]
  | negSucc n =>
      have hspells := Spells.minus (hnumeral (n + 1))
      rw [Decimal.value_digits] at hspells
      rwa [Decimal.ofInt, String.toList_ofList]

end WideColumn.Text.Integer
