import WideColumn.Error
import WideColumn.Query
import WideColumn.Text.Blank
import WideColumn.Text.Lowercase

/-!
# `WideColumn.Settings`: compiler settings

The settings say how unquoted identifiers are matched against field names and
under which name a count is reported. They come from the defaults, from two
environment variables, or from a file, which `WideColumn.Document` reads and
writes.
-/

set_option autoImplicit false

namespace WideColumn

/-- How unquoted identifiers are matched against field names. -/
inductive IdentifierCase where
  /-- In lower case. -/
  | lowercase
  /-- As written. -/
  | preserve
  deriving DecidableEq

namespace IdentifierCase

/-- The name of the choice in settings. -/
def name : IdentifierCase → String
  | .lowercase => "lowercase"
  | .preserve => "preserve"

/-- Reads a choice in any letter case, with blanks around it. -/
def parse (text : String) : Option IdentifierCase :=
  let letters := String.ofList ((Text.trim text.toList).map Text.Ascii.lower)
  if letters = lowercase.name then some .lowercase
  else if letters = preserve.name then some .preserve
  else none

end IdentifierCase

/-- The settings of the compiler. -/
structure Settings where
  identifierCase : IdentifierCase := .lowercase
  /-- The column a count is reported in. -/
  countColumn : String := "count"
  deriving DecidableEq

namespace Settings

/-- The field name an identifier stands for. Quoted identifiers stand for
themselves. -/
def normalize (settings : Settings) (name : Identifier) : String :=
  match settings.identifierCase, name.quoted with
  | .lowercase, false => Text.Lowercase.lower name.text
  | _, _ => name.text

/-- The text of an environment variable; one that is no text counts as unset. -/
def variableText (value : Option Bytes) : Option String :=
  match value.map Text.Utf8.decode with
  | some (.ok text) => some (String.ofList text)
  | _ => none

/-- The identifier case a variable asks for. -/
def caseOfVariable : Option String → Except Error IdentifierCase
  | none => .ok .lowercase
  | some text =>
    match IdentifierCase.parse text with
    | some choice => .ok choice
    | none => .error (.invalidVariable (.unknownIdentifierCase text))

/-- The count column a variable asks for. -/
def columnOfVariable : Option String → Except Error String
  | none => .ok "count"
  | some text =>
    if text = "" then .error (.invalidVariable .emptyCountColumn) else .ok text

/-- The settings that two environment variables ask for, where they are set. -/
def ofVariables (identifierCase countColumn : Option Bytes) : Except Error Settings := do
  let choice ← caseOfVariable (variableText identifierCase)
  let column ← columnOfVariable (variableText countColumn)
  return ⟨choice, column⟩

end Settings

/-- The filter directive that scopes log events to the read path. -/
def logDirective (level : String) : String :=
  "wcq=" ++ level

end WideColumn
