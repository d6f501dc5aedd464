import WideColumn.Document
import WideColumn.Proofs.Json.RoundTrip
import WideColumn.Proofs.Text.Utf8

/-!
# `WideColumn.Proofs.Document`: values read back

A value is written as a document, and the document as a text. Of the text it is known that it is
read as the document again, so what is left is one step: that the reader of each type takes what
its writer gives. The theorems:

* `RoundTrips.read_write`: a value whose document is read as the value is read back from its text.
* `RoundTrips.of_choice`: choices among names, one argument for all types of them.
* `roundTrips_role`, `roundTrips_field`, `roundTrips_settings`: the types that have parts.
* `reads_back`: everything that is written, and settings files.

Names and count columns can be any texts. A position has to fit 64 bits, which is all that the
reader takes.
-/

set_option autoImplicit false

namespace WideColumn

/-- A position, where there is one, is one that a document can tell. -/
def Role.IsTellable : Role → Prop
  | .clustering position => position ≤ Document.maxPosition
  | .partitionKey | .value | .metadata => True

namespace Document

/-- The value is written as a document that is read as the value. -/
structure RoundTrips {α : Type} [Document α] (value : α) : Prop where
  written : (toJson value).Written
  reads : ofJson? (toJson value) = some value

variable {α : Type} [Document α] {value : α}

/-- A value whose document reads back is read back from the text of that document. -/
theorem RoundTrips.read_write (h : RoundTrips value) : read α (write value) = .ok value := by
  rw [read, write, String.toList_ofList, Json.parse?_compact h.written, Option.bind_some, h.reads]

/-! ### Texts and choices -/

/-- The text of an escaped body is the text that has been escaped. -/
theorem bodyText?_escape (text : String) : bodyText? (Json.escape text.toList) = some text := by
  rw [bodyText?, Json.text?_escape, Option.map_some, String.ofList_toList]

/-- The document of a text is read as the text. -/
theorem text?_ofText (text : String) : text? (ofText text) = some text :=
  bodyText?_escape text

/-- The document of a text can be written: its body has been escaped. -/
theorem written_ofText (text : String) : (ofText text).Written :=
  .string _

/-- A text stands for the choice of its name, if there is one. -/
theorem choice?_ofText {β : Type} (choices : List (String × β)) (name : String) :
    choice? choices (ofText name) = choices.lookup name := by
  rw [choice?]
  show (bodyText? _).bind _ = _
  rw [bodyText?_escape, Option.bind_some]

/-- A choice is written as its name, which is read by looking it up. -/
theorem RoundTrips.of_choice {choices : List (String × α)} {name : String}
    (hname : toJson value = ofText name)
    (hread : ofJson? (ofText name) = choice? choices (ofText name))
    (hlookup : choices.lookup name = some value) : RoundTrips value where
  written := by
    rw [hname]
    exact written_ofText name
  reads := by rw [hname, hread, choice?_ofText, hlookup]

/-- Operators are texts, and no two of them the same. -/
theorem roundTrips_operator (operator : Operator) : RoundTrips operator := by
  cases operator <;> exact .of_choice rfl rfl rfl

/-- The same for kinds of tables. -/
theorem roundTrips_kind (kind : Kind) : RoundTrips kind := by
  cases kind <;> exact .of_choice rfl rfl rfl

/-- The same for types of fields. -/
theorem roundTrips_fieldType (type : FieldType) : RoundTrips type := by
  cases type <;> exact .of_choice rfl rfl rfl

/-- The same for consistency levels. -/
theorem roundTrips_consistency (level : Consistency) : RoundTrips level := by
  cases level <;> exact .of_choice rfl rfl rfl

/-- The same for the ways to treat the case of names. -/
theorem roundTrips_identifierCase (choice : IdentifierCase) : RoundTrips choice := by
  cases choice <;> exact .of_choice rfl rfl rfl

/-! ### Values with parts -/

/-- A position that 64 bits can hold is read back from its digits. -/
theorem position?_digits {position : Nat} (h : position ≤ maxPosition) :
    position? (.number (Text.Decimal.digits position)) = some position := by
  have hall : (Text.Decimal.digits position).all Text.Decimal.isDigit = true :=
    List.all_eq_true.mpr fun c => Text.Decimal.isDigit_of_mem_digits
  rw [position?, Text.Decimal.value_digits, if_pos ⟨hall, h⟩]

/-- A record with members of these names and documents. -/
theorem written_object {members : List (String × Json)}
    (h : ∀ member ∈ members, member.2.Written) :
    (Json.object (members.map fun member => (Json.escape member.1.toList, member.2))).Written := by
  refine .object ?_ ?_
  · rw [List.forall_mem_map]
    exact fun member _ => ⟨_, rfl⟩
  · rw [List.forall_mem_map]
    exact h

/-- Member names are read as the texts they were written for. -/
theorem members?_escape (members : List (String × Json)) :
    members? (members.map fun member => (Json.escape member.1.toList, member.2)) =
      some members := by
  unfold members?
  induction members with
  | nil => rfl
  | cons member rest ih =>
      rw [List.map_cons, List.mapM_cons, ih, bodyText?_escape]
      rfl

/-- A role is a text or, for a clustering field, an object with its position. -/
theorem roundTrips_role {role : Role} (h : role.IsTellable) : RoundTrips role := by
  have hplain : ∀ name, ofJson? (ofText name) = Role.ofJson?.plainRoles.lookup name := by
    intro name
    show (bodyText? _).bind _ = _
    rw [bodyText?_escape, Option.bind_some]
  -- Only a clustering role carries something, and is an object.
  cases role with
  | partitionKey => exact ⟨written_ofText _, hplain "PartitionKey"⟩
  | value => exact ⟨written_ofText _, hplain "Value"⟩
  | metadata => exact ⟨written_ofText _, hplain "Metadata"⟩
  | clustering position =>
      have hnumber : ∀ member ∈ [("Clustering", Json.number (Text.Decimal.digits position))],
          member.2.Written := List.forall_mem_singleton.mpr (.number position)
      refine ⟨written_object hnumber, ?_⟩
      show Role.ofJson? (.object [(Json.escape "Clustering".toList,
        .number (Text.Decimal.digits position))]) = _
      rw [Role.ofJson?, position?_digits h]
      · rfl
      · exact bodyText?_escape "Clustering"

/-- A field is an object of name, role and type, and each of the three reads back. -/
theorem roundTrips_field {field : Field} (h : field.role.IsTellable) : RoundTrips field := by
  have hrole := roundTrips_role h
  have htype := roundTrips_fieldType field.type
  have hparts : ∀ member ∈ [("name", ofText field.name), ("role", toJson field.role),
      ("field_type", toJson field.type)], member.2.Written := by
    simp only [List.forall_mem_cons]
    exact ⟨written_ofText _, hrole.written, htype.written, nofun⟩
  have hmembers := members?_escape
    [("name", ofText field.name), ("role", toJson field.role), ("field_type", toJson field.type)]
  refine ⟨written_object hparts, ?_⟩
  show Field.ofJson? (.object _) = _
  rw [Field.ofJson?]
  refine Option.bind_eq_some_iff.mpr ⟨_, hmembers, ?_⟩
  show Field.ofParts? (ofText field.name) (toJson field.role) (toJson field.type) = some field
  rw [Field.ofParts?, text?_ofText, hrole.reads, htype.reads]
  rfl

/-- Settings are an object of a choice and a text, and both read back. -/
theorem roundTrips_settings (settings : Settings) : RoundTrips settings := by
  have hcase := roundTrips_identifierCase settings.identifierCase
  have hparts : ∀ member ∈ [("identifier_case", toJson settings.identifierCase),
      ("count_column", ofText settings.countColumn)], member.2.Written := by
    simp only [List.forall_mem_cons]
    exact ⟨hcase.written, written_ofText _, nofun⟩
  have hmembers := members?_escape [("identifier_case", toJson settings.identifierCase),
    ("count_column", ofText settings.countColumn)]
  refine ⟨written_object hparts, ?_⟩
  show Settings.ofJson? (.object _) = _
  rw [Settings.ofJson?]
  refine Option.bind_eq_some_iff.mpr ⟨_, hmembers, ?_⟩
  show Settings.ofParts? (some (toJson settings.identifierCase))
    (some (ofText settings.countColumn)) = some settings
  rw [Settings.ofParts?]
  simp only [hcase.reads, text?_ofText]
  rfl

/-- A settings file has line breaks, and its bytes are those of its text. -/
theorem load_pretty (settings : Settings) :
    Settings.load (some (Text.Utf8.ofString (String.ofList (toJson settings).pretty))) =
      .ok settings := by
  have hsettings := roundTrips_settings settings
  have hdecode : (some (Text.Utf8.ofString (String.ofList (toJson settings).pretty))).map
      Text.Utf8.decode = some (.ok (toJson settings).pretty) := by
    rw [Option.map_some, Text.Utf8.ofString, String.toList_ofList, Text.Utf8.decode_encode]
  rw [Settings.load, hdecode]
  simp only [read, String.toList_ofList, Json.parse?_pretty hsettings.written, Option.bind_some,
    hsettings.reads]

/-! ### Everything that is written -/

/-- What is written reads back: choices among names, roles and fields whose positions can be
told, and settings, from the texts without blanks. And a settings file that has been saved loads
as the settings. -/
theorem reads_back :
    (∀ operator : Operator, read Operator (write operator) = .ok operator) ∧
    (∀ kind : Kind, read Kind (write kind) = .ok kind) ∧
    (∀ type : FieldType, read FieldType (write type) = .ok type) ∧
    (∀ level : Consistency, read Consistency (write level) = .ok level) ∧
    (∀ choice : IdentifierCase, read IdentifierCase (write choice) = .ok choice) ∧
    (∀ role : Role, role.IsTellable → read Role (write role) = .ok role) ∧
    (∀ field : Field, field.role.IsTellable → read Field (write field) = .ok field) ∧
    (∀ settings : Settings, read Settings (write settings) = .ok settings) ∧
    ∀ settings : Settings, ∃ text, settings.save true = .ok text ∧
      Settings.load (some (Text.Utf8.ofString text)) = .ok settings :=
  ⟨fun operator => (roundTrips_operator operator).read_write,
    fun kind => (roundTrips_kind kind).read_write,
    fun type => (roundTrips_fieldType type).read_write,
    fun level => (roundTrips_consistency level).read_write,
    fun choice => (roundTrips_identifierCase choice).read_write,
    fun _ h => (roundTrips_role h).read_write,
    fun _ h => (roundTrips_field h).read_write,
    fun settings => (roundTrips_settings settings).read_write,
    fun settings => ⟨_, rfl, load_pretty settings⟩⟩

/-- A field at the last position that can be told. Its name has a quote, a backslash, a control
character and a character outside the first plane. -/
def oddField : Field :=
  ⟨String.ofList ['"', '\\', Char.ofNat 0x01, Char.ofNat 0x1F600], .clustering maxPosition, .utf8⟩

/-- Quotes, line breaks and letters beyond ASCII in a name do no harm. -/
theorem reads_back_oddField :
    oddField.role.IsTellable ∧ read Role (write oddField.role) = .ok oddField.role ∧
      read Field (write oddField) = .ok oddField := by
  have hrole : oddField.role.IsTellable := Nat.le_refl _
  obtain ⟨-, -, -, -, -, hroles, hfields, -⟩ := reads_back
  exact ⟨hrole, hroles _ hrole, hfields _ hrole⟩

end Document

end WideColumn
