import WideColumn.Text.Unicode.CaseMap
import WideColumn.Text.Unicode.Cased

/-!
# `WideColumn.Text.Lowercase`: lower-case text

Every character is replaced by its lower-case form. Two of them are special: a
capital I with a dot above becomes an `i` and a combining dot, and a capital
sigma becomes the final form where it ends a word, which is where a cased
character stands before it and none after it, looking past the case-ignorable
ones on both sides.
-/

set_option autoImplicit false

namespace WideColumn.Text.Lowercase

open Unicode

/-- Greek capital letter sigma. -/
def capitalSigma : Char := Char.ofNat 0x03A3

/-- The lower-case form of a character wherever it stands. -/
def lowerChar (c : Char) : List Char :=
  if c.toNat = 0x0130 then ['i', Char.ofNat 0x0307]
  else
    match caseRuns.findSome? fun run => run.lower? c.toNat with
    | some n => [Char.ofNat n]
    | none => [c]

/-- Whether the first character that is not case-ignorable is cased. -/
def startsCased (text : List Char) : Bool :=
  match text.dropWhile isCaseIgnorable with
  | c :: _ => isCased c
  | [] => false

/-- The small sigma that stands between `before`, read backwards, and `after`. -/
def smallSigma (before after : List Char) : Char :=
  if startsCased before && !startsCased after then Char.ofNat 0x03C2
  else Char.ofNat 0x03C3

/-- The lower-case form of a text that follows `before`, read backwards. -/
def lowerAfter (before : List Char) : List Char → List Char
  | [] => []
  | c :: rest =>
    (if c = capitalSigma then [smallSigma before rest] else lowerChar c) ++
      lowerAfter (c :: before) rest

/-- The lower-case form of a text. -/
def lower (text : String) : String :=
  String.ofList (lowerAfter [] text.toList)

end WideColumn.Text.Lowercase
