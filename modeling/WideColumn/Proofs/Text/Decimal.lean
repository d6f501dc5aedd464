import WideColumn.Text.Decimal

/-!
# `WideColumn.Proofs.Text.Decimal`: numbers read back

A number in decimal is a run of digits that spells the number, and does not start with a zero
unless it is one. The theorems:

* `value_digits`: the digits spell the number.
* `isDigit_of_mem_digits`: they are digits.
* `eq_zero_of_digits`: only zero starts with a zero.
-/

set_option autoImplicit false

namespace WideColumn.Text.Decimal

/-- The last place of a number is written as a digit. -/
theorem isDigit_digit (n : Nat) : isDigit (digit n) = true := by
  have hall : ∀ d < 10, isDigit (Char.ofNat (48 + d)) = true := by decide
  exact hall (n % 10) (Nat.mod_lt n (by decide))

/-- And the digit has the value of that place. -/
theorem digitValue_digit (n : Nat) : digitValue (digit n) = n % 10 := by
  have hall : ∀ d < 10, digitValue (Char.ofNat (48 + d)) = d := by decide
  exact hall (n % 10) (Nat.mod_lt n (by decide))

/-- Of numbers below ten only zero has the digit zero. -/
theorem eq_zero_of_digit {n : Nat} (hn : n < 10) (h : digit n = '0') : n = 0 := by
  have hvalue := digitValue_digit n
  rw [h, Nat.mod_eq_of_lt hn] at hvalue
  exact hvalue.symm

/-- A number below ten has one digit. -/
theorem digits_of_lt {n : Nat} (h : n < 10) : digits n = [digit n] := by
  rw [digits, if_pos h]

/-- Any other has the digits of its tenth in front of the last one. -/
theorem digits_of_ge {n : Nat} (h : ¬ n < 10) : digits n = digits (n / 10) ++ [digit n] := by
  rw [digits, if_neg h]

/-- Every number has a digit. -/
theorem digits_ne_nil (n : Nat) : digits n ≠ [] := by
  rw [digits]
  split
  · exact List.cons_ne_nil _ _
  · exact List.append_ne_nil_of_right_ne_nil _ (List.cons_ne_nil _ _)

/-- The last digit counts once, and all before it ten times. -/
theorem value_concat (front : List Char) (last : Char) :
    value (front ++ [last]) = value front * 10 + digitValue last := by
  rw [value, List.foldl_append]
  rfl

/-- The digits of a number tell the number. -/
theorem value_digits (n : Nat) : value (digits n) = n := by
  induction n using digits.induct with
  | case1 n h =>
      rw [digits_of_lt h]
      show 0 * 10 + digitValue (digit n) = n
      rw [digitValue_digit]
      omega
  | case2 n h ih =>
      rw [digits_of_ge h, value_concat, ih, digitValue_digit]
      omega

/-- A number is written in digits only. -/
theorem isDigit_of_mem_digits {n : Nat} {c : Char} (h : c ∈ digits n) : isDigit c = true := by
  induction n using digits.induct with
  | case1 n hn =>
      rw [digits_of_lt hn, List.mem_singleton] at h
      rw [h]
      exact isDigit_digit n
  | case2 n hn ih =>
      rw [digits_of_ge hn, List.mem_append, List.mem_singleton] at h
      rcases h with hfront | rfl
      · exact ih hfront
      · exact isDigit_digit n

/-- A number starts with a digit. -/
theorem isDigit_of_digits_append {n : Nat} {rest text : List Char} {c : Char}
    (h : digits n ++ rest = c :: text) : isDigit c = true := by
  obtain ⟨first, more, hdigits⟩ := List.exists_cons_of_ne_nil (digits_ne_nil n)
  have hfirst : isDigit first = true := by
    refine isDigit_of_mem_digits (n := n) ?_
    rw [hdigits]
    exact List.mem_cons_self
  rw [hdigits, List.cons_append] at h
  rwa [← (List.cons_eq_cons.mp h).1]

/-- Only zero starts with a zero. -/
theorem eq_zero_of_digits {n : Nat} {rest : List Char} (h : digits n = '0' :: rest) : n = 0 := by
  induction n using digits.induct generalizing rest with
  | case1 n hn =>
      rw [digits_of_lt hn] at h
      exact eq_zero_of_digit hn (List.cons_eq_cons.mp h).1
  | case2 n hn ih =>
      -- The first digit is that of the digits in front of the last.
      rw [digits_of_ge hn] at h
      obtain ⟨first, front, hfront⟩ := List.exists_cons_of_ne_nil (digits_ne_nil (n / 10))
      rw [hfront, List.cons_append] at h
      obtain rfl := (List.cons_eq_cons.mp h).1
      have hzero := ih hfront
      omega

end WideColumn.Text.Decimal
