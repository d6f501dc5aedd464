import WideColumn.Json
import WideColumn.Json.Body
import WideColumn.Text.Decimal

/-!
# `WideColumn.Json.Token`: the words of a JSON text

A JSON text is a sequence of tokens with blanks between them: the six marks, and
the values that hold no others. `tokens?` gives them, or fails at the first
character that starts none. Number literals have no leading zeros, and a digit
on each side of the point.
-/

set_option autoImplicit false

namespace WideColumn.Json

/-- A word of a JSON text. -/
inductive Token where
  | openBrace
  | closeBrace
  | openBracket
  | closeBracket
  | comma
  | colon
  /-- A value that holds no others. -/
  | leaf (value : Json)

/-- The blanks JSON allows between tokens. -/
def isGap (c : Char) : Bool :=
  c == ' ' || c == '\t' || c == '\n' || c == '\r'

/-- The digits a text starts with, and what follows them. -/
def readDigits (text : List Char) : List Char × List Char :=
  (text.takeWhile Text.Decimal.isDigit, text.dropWhile Text.Decimal.isDigit)

/-- The digits in front of a number's point: at least one, and no zero in front of
others. -/
def readWhole (text : List Char) : Option (List Char × List Char) :=
  match readDigits text with
  | ([], _) => none
  | ('0' :: _ :: _, _) => none
  | whole => some whole

/-- A mark and at least one digit, where the text starts with the mark; nothing
where it does not. -/
def readFraction : List Char → Option (List Char × List Char)
  | '.' :: rest =>
    match readDigits rest with
    | ([], _) => none
    | (digits, rest) => some ('.' :: digits, rest)
  | text => some ([], text)

/-- An optional sign. -/
def readSign : List Char → List Char × List Char
  | '+' :: rest => (['+'], rest)
  | '-' :: rest => (['-'], rest)
  | text => ([], text)

/-- An exponent, where the text starts with one. -/
def readExponent : List Char → Option (List Char × List Char)
  | [] => some ([], [])
  | e :: rest =>
    if e = 'e' ∨ e = 'E' then
      match readDigits (readSign rest).2 with
      | ([], _) => none
      | (digits, after) => some (e :: ((readSign rest).1 ++ digits), after)
    else some ([], e :: rest)

/-- A number without its minus sign. -/
def readMagnitude (text : List Char) : Option (List Char × List Char) := do
  let (whole, rest) ← readWhole text
  let (fraction, rest) ← readFraction rest
  let (exponent, rest) ← readExponent rest
  return (whole ++ fraction ++ exponent, rest)

/-- A number literal. -/
def readNumber : List Char → Option (List Char × List Char)
  | '-' :: rest => (readMagnitude rest).map fun r => ('-' :: r.1, r.2)
  | text => readMagnitude text

/-- The token a text starts with, and what follows it. -/
def readToken : List Char → Option (Token × List Char)
  | '\x7b' :: rest => some (.openBrace, rest)
  | '\x7d' :: rest => some (.closeBrace, rest)
  | '[' :: rest => some (.openBracket, rest)
  | ']' :: rest => some (.closeBracket, rest)
  | ',' :: rest => some (.comma, rest)
  | ':' :: rest => some (.colon, rest)
  | '"' :: rest => (readBody rest).map fun r => (.leaf (.string r.1), r.2)
  | 'n' :: 'u' :: 'l' :: 'l' :: rest => some (.leaf .null, rest)
  | 't' :: 'r' :: 'u' :: 'e' :: rest => some (.leaf (.bool true), rest)
  | 'f' :: 'a' :: 'l' :: 's' :: 'e' :: rest => some (.leaf (.bool false), rest)
  | text => (readNumber text).map fun r => (.leaf (.number r.1), r.2)

/-- Reading digits cuts the text in two parts. -/
theorem length_readDigits (text : List Char) :
    (readDigits text).1.length + (readDigits text).2.length = text.length := by
  rw [← List.length_append]
  exact congrArg List.length (List.takeWhile_append_dropWhile ..)

/-- A sign is at most taken away from the text. -/
theorem length_readSign (text : List Char) :
    (readSign text).2.length ≤ text.length := by
  unfold readSign
  split <;> simp

/-- The whole part of a number has a digit, so less text is left than before. -/
theorem length_lt_of_readWhole {text whole rest : List Char}
    (h : readWhole text = some (whole, rest)) : rest.length < text.length := by
  have hlen := length_readDigits text
  unfold readWhole at h
  split at h
  · simp at h
  · simp at h
  · next hne _ =>
    cases hd : readDigits text with
    | mk digits after =>
      rw [hd] at h hlen hne
      simp only [Option.some.injEq, Prod.mk.injEq] at h
      obtain ⟨_, rfl⟩ := h
      cases digits with
      | nil => exact absurd rfl (hne after)
      | cons _ _ => simp only [List.length_cons] at hlen; omega

/-- A number need not have a fraction, so no more is known than that there is not more text. -/
theorem length_le_of_readFraction {text fraction rest : List Char}
    (h : readFraction text = some (fraction, rest)) : rest.length ≤ text.length := by
  unfold readFraction at h
  split at h
  · next after =>
    have hlen := length_readDigits after
    split at h
    · simp at h
    · next digits remaining hd =>
      rw [hd] at hlen
      simp only [Option.some.injEq, Prod.mk.injEq] at h
      obtain ⟨_, rfl⟩ := h
      simp only [List.length_cons] at hlen ⊢; omega
  · simp_all

/-- The same for exponents. -/
theorem length_le_of_readExponent {text exponent rest : List Char}
    (h : readExponent text = some (exponent, rest)) : rest.length ≤ text.length := by
  unfold readExponent at h
  split at h
  · simp_all
  · next e after =>
    split at h
    · have hlen := length_readDigits (readSign after).2
      have hsign := length_readSign after
      split at h
      · simp at h
      · next digits remaining hd =>
        rw [hd] at hlen
        simp only [Option.some.injEq, Prod.mk.injEq] at h
        obtain ⟨_, rfl⟩ := h
        simp only [List.length_cons] at hlen ⊢; omega
    · simp_all

/-- A number without its sign takes some text. -/
theorem length_lt_of_readMagnitude {text literal rest : List Char}
    (h : readMagnitude text = some (literal, rest)) : rest.length < text.length := by
  simp only [readMagnitude, Option.bind_eq_bind, Option.bind_eq_some_iff,
    Option.pure_def, Option.some.injEq, Prod.mk.injEq] at h
  obtain ⟨⟨whole, r₁⟩, h₁, ⟨fraction, r₂⟩, h₂, ⟨exponent, r₃⟩, h₃, _, rfl⟩ := h
  have hwhole := length_lt_of_readWhole h₁
  have hfraction := length_le_of_readFraction h₂
  have hexponent := length_le_of_readExponent h₃
  simp only at hfraction hexponent ⊢
  omega

/-- And so does one with a sign. -/
theorem length_lt_of_readNumber {text literal rest : List Char}
    (h : readNumber text = some (literal, rest)) : rest.length < text.length := by
  unfold readNumber at h
  split at h
  · next after =>
    obtain ⟨⟨_, _⟩, hr, heq⟩ := Option.map_eq_some_iff.mp h
    simp only [Prod.mk.injEq] at heq
    obtain ⟨_, rfl⟩ := heq
    have := length_lt_of_readMagnitude hr
    simp only [List.length_cons]; omega
  · exact length_lt_of_readMagnitude h

/-- Every token takes some text, so reading tokens ends. -/
theorem length_lt_of_readToken {text rest : List Char} {token : Token}
    (h : readToken text = some (token, rest)) : rest.length < text.length := by
  unfold readToken at h
  split at h <;> try (simp only [Option.some.injEq, Prod.mk.injEq] at h
                      obtain ⟨_, rfl⟩ := h
                      simp only [List.length_cons]; omega)
  · next after =>
    obtain ⟨⟨_, _⟩, hr, heq⟩ := Option.map_eq_some_iff.mp h
    simp only [Prod.mk.injEq] at heq
    obtain ⟨_, rfl⟩ := heq
    have := length_lt_of_readBody hr
    simp only [List.length_cons]; omega
  · obtain ⟨⟨_, _⟩, hr, heq⟩ := Option.map_eq_some_iff.mp h
    simp only [Prod.mk.injEq] at heq
    obtain ⟨_, rfl⟩ := heq
    exact length_lt_of_readNumber hr

/-- The tokens of a text. -/
def tokens? (text : List Char) : Option (List Token) :=
  match text with
  | [] => some []
  | c :: rest =>
    if isGap c then tokens? rest
    else
      match h : readToken (c :: rest) with
      | none => none
      | some (token, after) =>
        have : after.length < (c :: rest).length := length_lt_of_readToken h
        (token :: ·) <$> tokens? after
termination_by text.length
decreasing_by
  · exact Nat.lt_succ_self _
  · assumption

end WideColumn.Json
