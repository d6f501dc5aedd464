import WideColumn.Json.Printer
import WideColumn.Json.Reader
import WideColumn.Layout
import WideColumn.Settings

/-!
# `WideColumn.Document`: values as documents

`Document α` says how values of a type are written as JSON documents and read
back. A choice among names is written as its name, and is also read from an
object that holds the name alone with `null`. A record is written as an object
in the order of its fields. It is read from an object whatever the order, where
unknown members are passed over and a known one may not come twice, and also
from an array of the fields in order.
-/

set_option autoImplicit false

namespace WideColumn

/-- Values that can be written as documents and read back. -/
class Document (α : Type) where
  toJson : α → Json
  ofJson? : Json → Option α

namespace Document

/-- The string that spells a text. -/
def ofText (text : String) : Json :=
  .string (Json.escape text.toList)

/-- The text of a string body. -/
def bodyText? (body : List Char) : Option String :=
  (Json.text? body).map String.ofList

/-- The text of a string. -/
def text? : Json → Option String
  | .string body => bodyText? body
  | _ => none

/-- The largest position a document can tell: 64 bits, all set. -/
def maxPosition : Nat := 18446744073709551615

/-- The position that an integer literal without sign spells. -/
def position? : Json → Option Nat
  | .number literal =>
    if literal.all Text.Decimal.isDigit ∧ Text.Decimal.value literal ≤ maxPosition then
      some (Text.Decimal.value literal)
    else none
  | _ => none

/-- The name of a choice that carries nothing. -/
def choiceName? : Json → Option String
  | .string body => bodyText? body
  | .object [(name, .null)] => bodyText? name
  | _ => none

/-- Reads one of the named choices. -/
def choice? {α : Type} (choices : List (String × α)) (document : Json) : Option α :=
  (choiceName? document).bind fun name => choices.lookup name

/-- The members of a record, whose names have to be texts. -/
def members? (members : List (List Char × Json)) : Option (List (String × Json)) :=
  members.mapM fun member => (bodyText? member.1).map fun name => (name, member.2)

/-- The values of the members of a name, of which there may be one at most. -/
def member? (members : List (String × Json)) (name : String) : Option (Option Json) :=
  match members.filter fun member => member.1 == name with
  | [] => some none
  | [member] => some (some member.2)
  | _ => none

/-- The text of a value as a document without blanks. -/
def write {α : Type} [Document α] (value : α) : String :=
  String.ofList (toJson value).compact

/-- The value that a text spells as a document. -/
def read (α : Type) [Document α] (text : String) : Except Error α :=
  match (Json.parse? text.toList).bind ofJson? with
  | some value => .ok value
  | none => .error .malformedDocument

end Document

open Document

instance : Document Operator where
  toJson
    | .eq => ofText "Eq"
    | .lt => ofText "Lt"
    | .lte => ofText "Lte"
    | .gt => ofText "Gt"
    | .gte => ofText "Gte"
  ofJson? := choice?
    [("Eq", .eq), ("Lt", .lt), ("Lte", .lte), ("Gt", .gt), ("Gte", .gte)]

instance : Document Kind where
  toJson
    | .static => ofText "Static"
    | .sparse => ofText "Sparse"
    | .dynamic => ofText "Dynamic"
    | .dense => ofText "Dense"
  ofJson? := choice?
    [("Static", .static), ("Sparse", .sparse), ("Dynamic", .dynamic), ("Dense", .dense)]

instance : Document FieldType where
  toJson
    | .ascii => ofText "Ascii"
    | .utf8 => ofText "Utf8"
    | .bytes => ofText "Bytes"
    | .int32 => ofText "Int32"
    | .bigInt => ofText "BigInt"
    | .boolean => ofText "Boolean"
    | .counter => ofText "Counter"
  ofJson? := choice?
    [("Ascii", .ascii), ("Utf8", .utf8), ("Bytes", .bytes), ("Int32", .int32),
      ("BigInt", .bigInt), ("Boolean", .boolean), ("Counter", .counter)]

instance : Document Consistency where
  toJson level := ofText level.name
  ofJson? := choice?
    [("Any", .any), ("One", .one), ("Two", .two), ("Three", .three),
      ("Quorum", .quorum), ("LocalQuorum", .localQuorum), ("EachQuorum", .eachQuorum),
      ("All", .all)]

instance : Document IdentifierCase where
  toJson choice := ofText choice.name
  ofJson? := choice? [("lowercase", .lowercase), ("preserve", .preserve)]

/-- The role of a document: a clustering role carries its position, the others
carry nothing. -/
def Role.ofJson? : Json → Option Role
  | .object [(name, document)] =>
    match bodyText? name, document with
    | some "Clustering", document => (position? document).map Role.clustering
    | some name, .null => plainRoles.lookup name
    | _, _ => none
  | .string body => (bodyText? body).bind fun name => plainRoles.lookup name
  | _ => none
where
  /-- The roles that carry nothing. -/
  plainRoles : List (String × Role) :=
    [("PartitionKey", .partitionKey), ("Value", .value), ("Metadata", .metadata)]

instance : Document Role where
  toJson
    | .partitionKey => ofText "PartitionKey"
    | .clustering position =>
      .object [(Json.escape "Clustering".toList, .number (Text.Decimal.digits position))]
    | .value => ofText "Value"
    | .metadata => ofText "Metadata"
  ofJson? := Role.ofJson?

/-- The field of its three parts. -/
def Field.ofParts? (name role type : Json) : Option Field := do
  return ⟨← text? name, ← Document.ofJson? role, ← Document.ofJson? type⟩

/-- The field of a document, all of whose parts have to be there. -/
def Field.ofJson? : Json → Option Field
  | .object members => do
    let members ← members? members
    let name ← member? members "name"
    let role ← member? members "role"
    let type ← member? members "field_type"
    Field.ofParts? (← name) (← role) (← type)
  | .array [name, role, type] => Field.ofParts? name role type
  | _ => none

instance : Document Field where
  toJson field :=
    .object
      [(Json.escape "name".toList, ofText field.name),
        (Json.escape "role".toList, toJson field.role),
        (Json.escape "field_type".toList, toJson field.type)]
  ofJson? := Field.ofJson?

/-- The settings of their two parts, each of them the default where it is
absent. -/
def Settings.ofParts? (identifierCase countColumn : Option Json) : Option Settings := do
  let choice ←
    match identifierCase with
    | some document => Document.ofJson? document
    | none => some IdentifierCase.lowercase
  let column ←
    match countColumn with
    | some document => text? document
    | none => some "count"
  return ⟨choice, column⟩

/-- The settings of a document. -/
def Settings.ofJson? : Json → Option Settings
  | .object members => do
    let members ← members? members
    let identifierCase ← member? members "identifier_case"
    let countColumn ← member? members "count_column"
    Settings.ofParts? identifierCase countColumn
  | .array [] => Settings.ofParts? none none
  | .array [identifierCase] => Settings.ofParts? (some identifierCase) none
  | .array [identifierCase, countColumn] =>
    Settings.ofParts? (some identifierCase) (some countColumn)
  | _ => none

instance : Document Settings where
  toJson settings :=
    .object
      [(Json.escape "identifier_case".toList, toJson settings.identifierCase),
        (Json.escape "count_column".toList, ofText settings.countColumn)]
  ofJson? := Settings.ofJson?

namespace Settings

/-- The settings in a file of these bytes; without a file, and where its bytes
are no text, the file cannot be read. -/
def load (file : Option Bytes) : Except Error Settings :=
  match file.map Text.Utf8.decode with
  | some (.ok text) => Document.read Settings (String.ofList text)
  | _ => .error .inaccessibleFile

/-- The text of a settings file, where a file can be written at all. -/
def save (settings : Settings) (writable : Bool) : Except Error String :=
  if writable then .ok (String.ofList (Document.toJson settings).pretty)
  else .error .inaccessibleFile

end Settings

end WideColumn
