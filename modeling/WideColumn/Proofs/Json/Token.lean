import WideColumn.Json.Printer
import WideColumn.Json.Token
import WideColumn.Proofs.Json.Body
import WideColumn.Proofs.Text.Decimal

/-!
# `WideColumn.Proofs.Json.Token`: the words of texts that are put together

`Spells text tokens` says that a text is read as these tokens in front of whatever does not go on
with a number: a number is the only word that could run into the next one. The theorems:

* `Spells.append`, `Spells.mark`, `Spells.gap`, `Spells.onLine`: texts are put together from
  words and blanks.
* `spells_quoted`: an escaped text in quotes is one word.
* `spells_digits`: so is a number in decimal.
-/

set_option autoImplicit false

namespace WideColumn.Json

open Text.Decimal (digits isDigit)

/-- The text starts with nothing that a number could go on with. -/
def EndsNumber (text : List Char) : Prop :=
  ∀ c ∈ text.head?, isDigit c = false ∧ c ≠ '.' ∧ c ≠ 'e' ∧ c ≠ 'E'

/-- In front of a text that ends a number, this one is read as the tokens. -/
def Spells (text : List Char) (tokens : List Token) : Prop :=
  ∀ rest, EndsNumber rest → tokens? (text ++ rest) = (tokens? rest).map (tokens ++ ·)

/-- A number ends where the text does. -/
theorem endsNumber_nil : EndsNumber [] :=
  nofun

/-- It also ends before a character that no number goes on with. -/
theorem endsNumber_cons {c : Char} {text : List Char}
    (h : isDigit c = false ∧ c ≠ '.' ∧ c ≠ 'e' ∧ c ≠ 'E') : EndsNumber (c :: text) := by
  intro first hfirst
  obtain rfl := Option.some.inj hfirst
  exact h

/-! ### Words and blanks -/

/-- Gaps between tokens are passed over. -/
theorem tokens?_gap {c : Char} (h : isGap c = true) (text : List Char) :
    tokens? (c :: text) = tokens? text := by
  rw [tokens?, if_pos h]

/-- A token is taken off the front of the text, and the others are those of the rest. -/
theorem tokens?_of_readToken {c : Char} {text after : List Char} {token : Token}
    (hgap : isGap c = false) (h : readToken (c :: text) = some (token, after)) :
    tokens? (c :: text) = (tokens? after).map (token :: ·) := by
  rw [tokens?, if_neg (by rw [hgap]; exact Bool.false_ne_true)]
  split
  · next hnone =>
      rw [h] at hnone
      cases hnone
  · next hsome =>
      rw [h] at hsome
      cases hsome
      rfl

namespace Spells

variable {text more : List Char} {tokens others : List Token} {c : Char} {token : Token}

/-- No text spells no tokens. -/
theorem nil : Spells [] [] := by
  intro rest _
  exact (Option.map_id_fun' ▸ rfl)

/-- Texts side by side spell the tokens of both, provided that no number runs on into the second
text. -/
theorem append (h : Spells text tokens) (h' : Spells more others)
    (hseam : ∀ rest, EndsNumber rest → EndsNumber (more ++ rest)) :
    Spells (text ++ more) (tokens ++ others) := by
  intro rest hrest
  rw [List.append_assoc, h _ (hseam rest hrest), h' rest hrest, Option.map_map]
  refine congrArg (Option.map · (tokens? rest)) (funext fun after => ?_)
  exact (List.append_assoc tokens others after).symm

/-- A word of one character is one whatever stands behind it. -/
theorem mark (hgap : isGap c = false) (hmark : ∀ rest, readToken (c :: rest) = some (token, rest))
    (h : Spells text tokens) : Spells (c :: text) (token :: tokens) := by
  intro rest hrest
  rw [List.cons_append, tokens?_of_readToken hgap (hmark _), h rest hrest, Option.map_map]
  rfl

/-- A gap in front changes no token. -/
theorem gap (hgap : isGap c = true) (h : Spells text tokens) : Spells (c :: text) tokens := by
  intro rest hrest
  rw [List.cons_append, tokens?_gap hgap, h rest hrest]

/-- Neither does the start of a line, however deep. -/
theorem onLine (h : Spells text tokens) (depth : Nat) :
    Spells (lineStart depth ++ text) tokens := by
  rw [lineStart, List.cons_append]
  refine gap rfl ?_
  induction 2 * depth with
  | zero => exact h
  | succ count ih =>
      rw [List.replicate_succ, List.cons_append]
      exact ih.gap rfl

end Spells

/-! ### Strings and numbers -/

/-- Escaped text between quotes spells a string. -/
theorem spells_quoted (text : List Char) :
    Spells (quoted (escape text)) [.leaf (.string (escape text))] := by
  intro rest _
  have hread : readToken ('"' :: (escape text ++ '"' :: rest)) =
      some (.leaf (.string (escape text)), rest) := by
    rw [readToken, readBody_escape]
    rfl
  rw [quoted, List.cons_append, List.append_assoc]
  exact tokens?_of_readToken rfl hread

/-- The digits in front of a text that starts with none. -/
theorem readDigits_append {front rest : List Char} (hfront : ∀ c ∈ front, isDigit c = true)
    (hrest : EndsNumber rest) : readDigits (front ++ rest) = (front, rest) := by
  have hstop : rest.takeWhile isDigit = [] ∧ rest.dropWhile isDigit = rest := by
    cases rest with
    | nil => exact ⟨rfl, rfl⟩
    | cons c rest =>
        obtain ⟨hother, -⟩ := hrest c rfl
        simp [hother]
  rw [readDigits, List.takeWhile_append_of_pos hfront, List.dropWhile_append_of_pos hfront,
    hstop.1, hstop.2, List.append_nil]

/-- The digits of a number are read up to where the number ends. -/
theorem readMagnitude_digits {n : Nat} {rest : List Char} (hrest : EndsNumber rest) :
    readMagnitude (digits n ++ rest) = some (digits n, rest) := by
  have hwhole : readWhole (digits n ++ rest) = some (digits n, rest) := by
    rw [readWhole, readDigits_append (fun c => Text.Decimal.isDigit_of_mem_digits) hrest]
    split
    · next h => exact absurd (Prod.mk.inj h).1 (Text.Decimal.digits_ne_nil n)
    · next first more _ h =>
        -- There is a second digit behind a zero.
        have hdigits := (Prod.mk.inj h).1
        rw [Text.Decimal.eq_zero_of_digits hdigits,
          Text.Decimal.digits_of_lt (by decide)] at hdigits
        cases hdigits
    · rfl
  -- Neither a fraction nor an exponent follows.
  have hfraction : readFraction rest = some ([], rest) := by
    unfold readFraction
    split
    · exact absurd rfl (hrest '.' rfl).2.1
    · rfl
  have hexponent : readExponent rest = some ([], rest) := by
    unfold readExponent
    split
    · rfl
    · next e after =>
        obtain ⟨-, -, hlower, hupper⟩ := hrest e rfl
        rw [if_neg (not_or.mpr ⟨hlower, hupper⟩)]
  rw [readMagnitude, hwhole]
  simp only [Option.bind_eq_bind, Option.bind_some, hfraction, hexponent, List.append_nil]
  rfl

/-- A digit starts a number, and no other word. -/
theorem readToken_digits {n : Nat} {rest : List Char} (hrest : EndsNumber rest) :
    readToken (digits n ++ rest) = some (.leaf (.number (digits n)), rest) := by
  have hother : ∀ {c : Char} {text : List Char}, isDigit c = false →
      digits n ++ rest = c :: text → False := by
    intro c text hc heq
    rw [Text.Decimal.isDigit_of_digits_append heq] at hc
    cases hc
  have hnumber : readNumber (digits n ++ rest) = some (digits n, rest) := by
    rw [readNumber, readMagnitude_digits hrest]
    exact fun _ => hother rfl
  rw [readToken, hnumber]
  · rfl
  -- No other word starts with a digit.
  all_goals exact fun _ => hother rfl

/-- No digit is a gap. -/
theorem isGap_of_isDigit {c : Char} (h : isDigit c = true) : isGap c = false := by
  rw [Bool.eq_false_iff]
  intro hgap
  simp only [isGap, Bool.or_eq_true, beq_iff_eq] at hgap
  rcases hgap with ((rfl | rfl) | rfl) | rfl <;> cases h

/-- The digits of a number spell that number. -/
theorem spells_digits (n : Nat) : Spells (digits n) [.leaf (.number (digits n))] := by
  intro rest hrest
  have hnumber := readToken_digits (n := n) hrest
  cases htext : digits n ++ rest with
  | nil => exact absurd (List.append_eq_nil_iff.mp htext).1 (Text.Decimal.digits_ne_nil n)
  | cons first more =>
      rw [htext] at hnumber
      exact tokens?_of_readToken (isGap_of_isDigit (Text.Decimal.isDigit_of_digits_append htext))
        hnumber

end WideColumn.Json
