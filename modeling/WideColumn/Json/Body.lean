import WideColumn.Text.Hex

/-!
# `WideColumn.Json.Body`: string bodies

`escape` spells a text as the body of a JSON string, and `text?` reads the text
that a body spells. Quotes, backslashes and control characters are escaped, the
control characters by their short escape where there is one; nothing else is.
A body may also spell any character by the number of its UTF-16 units, and then
spells no text where a surrogate has no partner. `readBody` finds the end of a
body in front of more characters.
-/

set_option autoImplicit false

namespace WideColumn.Json

/-- The spelling of a character in a string body. -/
def escapeChar (c : Char) : List Char :=
  if c = '"' then ['\\', '"']
  else if c = '\\' then ['\\', '\\']
  else if c = '\n' then ['\\', 'n']
  else if c = '\r' then ['\\', 'r']
  else if c = '\t' then ['\\', 't']
  else if c.toNat = 0x08 then ['\\', 'b']
  else if c.toNat = 0x0C then ['\\', 'f']
  else if c.toNat < 0x20 then
    ['\\', 'u', '0', '0', Text.Hex.digit (c.toNat / 16), Text.Hex.digit (c.toNat % 16)]
  else [c]

/-- The body that spells a text. -/
def escape (text : List Char) : List Char :=
  text.flatMap escapeChar

/-- The character of a short escape. -/
def shortEscape? (c : Char) : Option Char :=
  if c = '"' ∨ c = '\\' ∨ c = '/' then some c
  else if c = 'b' then some (Char.ofNat 0x08)
  else if c = 'f' then some (Char.ofNat 0x0C)
  else if c = 'n' then some '\n'
  else if c = 'r' then some '\r'
  else if c = 't' then some '\t'
  else none

/-- The number that four hexadecimal digits spell. -/
def unit? (a b c d : Char) : Option Nat := do
  let a ← Text.Hex.digit? a
  let b ← Text.Hex.digit? b
  let c ← Text.Hex.digit? c
  let d ← Text.Hex.digit? d
  return a * 4096 + b * 256 + c * 16 + d

/-- What a body spells at one place: a character, or the first or second half of
a surrogate pair, without the bits that all halves share. -/
inductive Piece where
  | char (c : Char)
  | high (bits : Nat)
  | low (bits : Nat)

/-- What a UTF-16 unit is a piece of. -/
def Piece.ofUnit (n : Nat) : Piece :=
  if 0xD800 ≤ n ∧ n < 0xDC00 then .high (n - 0xD800)
  else if 0xDC00 ≤ n ∧ n < 0xE000 then .low (n - 0xDC00)
  else .char (Char.ofNat n)

/-- The pieces a body spells. -/
def pieces? : List Char → Option (List Piece)
  | [] => some []
  | '\\' :: 'u' :: a :: b :: c :: d :: rest => do
    let n ← unit? a b c d
    let pieces ← pieces? rest
    return Piece.ofUnit n :: pieces
  | '\\' :: c :: rest => do
    let c ← shortEscape? c
    let pieces ← pieces? rest
    return .char c :: pieces
  | c :: rest => (Piece.char c :: ·) <$> pieces? rest

/-- The text of pieces in which every half has its partner. -/
def join? : List Piece → Option (List Char)
  | [] => some []
  | .char c :: rest => (c :: ·) <$> join? rest
  | .high h :: .low l :: rest =>
    (Char.ofNat (0x10000 + h * 0x400 + l) :: ·) <$> join? rest
  | _ => none

/-- The text a body spells. -/
def text? (body : List Char) : Option (List Char) :=
  (pieces? body).bind join?

/-- The body in front of a closing quote, and what follows the quote. Control
characters and unknown escapes end it in failure. -/
def readBody : List Char → Option (List Char × List Char)
  | [] => none
  | '"' :: rest => some ([], rest)
  | '\\' :: 'u' :: a :: b :: c :: d :: rest =>
    if (unit? a b c d).isSome then
      (readBody rest).map fun r => ('\\' :: 'u' :: a :: b :: c :: d :: r.1, r.2)
    else none
  | '\\' :: c :: rest =>
    if (shortEscape? c).isSome then
      (readBody rest).map fun r => ('\\' :: c :: r.1, r.2)
    else none
  | c :: rest =>
    if c.toNat < 0x20 then none else (readBody rest).map fun r => (c :: r.1, r.2)

/-- The body of a string ends at its quote, so less text is left than before. -/
theorem length_lt_of_readBody {text : List Char} {body rest : List Char}
    (h : readBody text = some (body, rest)) : rest.length < text.length := by
  fun_induction readBody text generalizing body with
  | case1 => simp at h
  | case2 rest => simp_all
  | case3 a b c d rest _ ih =>
    obtain ⟨⟨_, _⟩, hr, heq⟩ := Option.map_eq_some_iff.mp h
    simp only [Prod.mk.injEq] at heq
    obtain ⟨_, rfl⟩ := heq
    have := ih hr
    simp only [List.length_cons]; omega
  | case4 => simp at h
  | case5 c rest _ _ ih =>
    obtain ⟨⟨_, _⟩, hr, heq⟩ := Option.map_eq_some_iff.mp h
    simp only [Prod.mk.injEq] at heq
    obtain ⟨_, rfl⟩ := heq
    have := ih hr
    simp only [List.length_cons]; omega
  | case6 => simp at h
  | case7 => simp at h
  | case8 c rest _ _ _ _ ih =>
    obtain ⟨⟨_, _⟩, hr, heq⟩ := Option.map_eq_some_iff.mp h
    simp only [Prod.mk.injEq] at heq
    obtain ⟨_, rfl⟩ := heq
    have := ih hr
    simp only [List.length_cons]; omega

end WideColumn.Json
