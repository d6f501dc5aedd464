import WideColumn.Bytes

/-!
# `WideColumn.Proofs.ByteOrder`: the order of byte strings

Byte strings are compared as lists, by `compare` where the outcome has three
sides and by `<` and `≤` where it has two. Strings of one length compare as the
numbers they spell, most significant byte first. The theorems:

* `compare_eq_lt_iff`: the two ways agree on lists over any type where they agree
  on the elements.
* the instance `LawfulOrderOrd Bytes`, from which `Std.isLE_compare` and its
  relatives follow.
* `toNat_cons` / `toNat_lt_card`: the number a byte string spells, digit by digit.
* `compare_toNat`: numbers of one width compare as their bytes do.
-/

set_option autoImplicit false

namespace WideColumn.Bytes

/-- The strict order of lists is the outcome `lt` of their comparison when that
holds of the elements. -/
theorem compare_eq_lt_iff {α : Type} [Ord α] [LT α] [Std.LawfulEqOrd α]
    (hlt : ∀ x y : α, compare x y = .lt ↔ x < y) (a b : List α) :
    compare a b = .lt ↔ a < b := by
  induction a generalizing b with
  | nil =>
      cases b with
      | nil => simp
      | cons y b => simp
  | cons x a ih =>
      cases b with
      | nil => simp
      | cons y b =>
          rw [List.compare_cons_cons, Ordering.then_eq_lt, ih b, hlt,
            Std.LawfulEqOrd.compare_eq_iff_eq, List.cons_lt_cons_iff]

/-- One byte string is strictly before another when their comparison says so. -/
theorem compare_eq_lt (a b : Bytes) : compare a b = .lt ↔ a < b :=
  compare_eq_lt_iff (fun _ _ => Std.compare_eq_lt) a b

instance : Std.LawfulOrderOrd Bytes where
  isLE_compare a b := by
    rw [← List.not_lt, ← compare_eq_lt b a, Std.OrientedOrd.eq_swap (a := b)]
    cases compare a b <;> simp
  isGE_compare a b := by
    rw [← List.not_lt, ← compare_eq_lt a b]
    cases compare a b <;> simp

/-! ### Numbers -/

/-- One byte more makes 256 times as many. -/
theorem card_succ (width : Nat) : card (width + 1) = 256 * card width := by
  rw [Nat.mul_comm]
  rfl

/-- The digits of `rest` are read behind the number `n`: each of them moves `n` up by
one place. -/
theorem foldl_digits (rest : Bytes) (n : Nat) :
    rest.foldl (fun n b => n * 256 + b.toNat) n = n * card rest.length + toNat rest := by
  induction rest generalizing n with
  | nil => simp [toNat, card]
  | cons b rest ih =>
      rw [toNat, List.foldl_cons, List.foldl_cons, ih, ih, List.length_cons, card_succ]
      simp only [Nat.zero_mul, Nat.zero_add, Nat.add_mul, Nat.mul_assoc, Nat.add_assoc]

/-- The first byte is the highest digit. -/
theorem toNat_cons (b : UInt8) (rest : Bytes) :
    toNat (b :: rest) = b.toNat * card rest.length + toNat rest := by
  rw [toNat, List.foldl_cons, foldl_digits, Nat.zero_mul, Nat.zero_add]

/-- Bytes tell a number that fits in them. -/
theorem toNat_lt_card (bytes : Bytes) : toNat bytes < card bytes.length := by
  induction bytes with
  | nil => simp [toNat, card]
  | cons b rest ih =>
      rw [toNat_cons, List.length_cons, card_succ]
      have hdigit : b.toNat ≤ 255 := Nat.le_of_lt_succ b.toNat_lt
      have hhigh : b.toNat * card rest.length ≤ 255 * card rest.length :=
        Nat.mul_le_mul_right _ hdigit
      omega

/-- Numbers compare by their high digits, and then by what is below them. -/
theorem compare_digits {card m n low low' : Nat} (hlow : low < card) (hlow' : low' < card) :
    compare (m * card + low) (n * card + low') = (compare m n).then (compare low low') := by
  rcases Nat.lt_trichotomy m n with h | rfl | h
  · have hnext : (m + 1) * card ≤ n * card := Nat.mul_le_mul_right _ h
    rw [Nat.add_mul] at hnext
    rw [Nat.compare_eq_lt.mpr h, Ordering.lt_then, Nat.compare_eq_lt]
    omega
  · rw [Nat.compare_eq_eq.mpr rfl, Ordering.eq_then]
    simp [Nat.compare_eq_ite_lt]
  · have hnext : (n + 1) * card ≤ m * card := Nat.mul_le_mul_right _ h
    rw [Nat.add_mul] at hnext
    rw [Nat.compare_eq_gt.mpr h, Ordering.gt_then, Nat.compare_eq_gt]
    omega

/-- Single bytes are compared as numbers. -/
theorem compare_toNat_byte (a b : UInt8) : compare a.toNat b.toNat = compare a b := by
  simp only [compare, compareOfLessAndEq, UInt8.lt_iff_toNat_lt, UInt8.toNat_inj]

/-- Numbers of one width compare as their bytes do. Of two widths this does not hold: a
zero in front changes no number. -/
theorem compare_toNat {a b : Bytes} (h : a.length = b.length) :
    compare (toNat a) (toNat b) = compare a b := by
  induction a generalizing b with
  | nil =>
      obtain rfl := List.length_eq_zero_iff.mp h.symm
      rfl
  | cons x a ih =>
      obtain ⟨y, b, rfl⟩ := List.exists_cons_of_length_eq_add_one h.symm
      have hrest : a.length = b.length := Nat.succ.inj h
      rw [toNat_cons, toNat_cons, ← hrest,
        compare_digits (toNat_lt_card a) (hrest ▸ toNat_lt_card b), ih hrest,
        compare_toNat_byte, List.compare_cons_cons]

end WideColumn.Bytes
