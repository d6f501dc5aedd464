import WideColumn.FieldType
import WideColumn.Text.Utf8

/-!
# `WideColumn.Layout`: table layouts

A table has a partition key and, depending on its kind, clustering fields, a
value field and metadata fields. The kind says how logical rows become cells:

* `static`: one cell per metadata field, named by the field;
* `sparse`: composite names of the clustering components and a metadata field;
* `dynamic`: names that are the value of the one clustering field;
* `dense`: composite names of the clustering components, the cell's value being
  the value field.

A `Declaration` lists the fields as they are declared, one `Call` after another.
`Declaration.build` makes it a `Layout` when the fields fit the kind and no two share
a name; a layout carries both facts.
-/

set_option autoImplicit false

namespace WideColumn

/-- How a table's logical rows become cells. -/
inductive Kind where
  | static
  | sparse
  | dynamic
  | dense
  deriving DecidableEq

namespace Kind

/-- The kinds with one cell per logical row. -/
def isCompact : Kind → Bool
  | .dynamic | .dense => true
  | .static | .sparse => false

/-- The kinds with composite cell names. -/
def isComposite : Kind → Bool
  | .sparse | .dense => true
  | .static | .dynamic => false

/-- Whether so many clustering fields, a value field or none, and so many
metadata fields fit the kind. -/
def admits (kind : Kind) (clustering : Nat) (hasValue : Bool) (metadata : Nat) : Bool :=
  match kind with
  | .static => clustering == 0 && !hasValue
  | .sparse => clustering != 0 && !hasValue
  | .dynamic => clustering == 1 && metadata == 0
  | .dense => clustering != 0 && hasValue && metadata == 0

end Kind

/-- What a field is for. -/
inductive Role where
  | partitionKey
  /-- The clustering field at a position of the cell name. -/
  | clustering (position : Nat)
  | value
  | metadata
  deriving DecidableEq

/-- A field of a table. -/
structure Field where
  name : String
  role : Role
  type : FieldType
  deriving DecidableEq

/-- The field's name as a component of cell names. -/
def Field.key (field : Field) : Bytes :=
  Text.Utf8.ofString field.name

/-- A field's name and type. -/
structure FieldDecl where
  name : String
  type : FieldType
  deriving DecidableEq

/-- The field declared, in a role. -/
def FieldDecl.as (decl : FieldDecl) (role : Role) : Field :=
  ⟨decl.name, role, decl.type⟩

/-- The fields of a table as they are declared. -/
structure Declaration where
  name : String
  kind : Kind
  key : FieldDecl
  clustering : List FieldDecl := []
  value : Option FieldDecl := none
  metadata : List FieldDecl := []

namespace Declaration

/-- The declaration with one more clustering field. -/
def addClustering (table : Declaration) (decl : FieldDecl) : Declaration :=
  { table with clustering := table.clustering ++ [decl] }

/-- The declaration with this value field, in place of any before. -/
def setValue (table : Declaration) (decl : FieldDecl) : Declaration :=
  { table with value := some decl }

/-- The declaration with one more metadata field. -/
def addMetadata (table : Declaration) (decl : FieldDecl) : Declaration :=
  { table with metadata := table.metadata ++ [decl] }

/-- What a declaration can be told, one field at a time. -/
inductive Call where
  | clustering (decl : FieldDecl)
  | value (decl : FieldDecl)
  | metadata (decl : FieldDecl)
  deriving DecidableEq

/-- The declaration after a call. -/
def call (table : Declaration) : Call → Declaration
  | .clustering decl => table.addClustering decl
  | .value decl => table.setValue decl
  | .metadata decl => table.addMetadata decl

/-- The declaration after a sequence of calls. -/
def callAll (table : Declaration) (calls : List Call) : Declaration :=
  calls.foldl call table

/-- The partition key. -/
def keyField (table : Declaration) : Field :=
  table.key.as .partitionKey

/-- The clustering fields, each with its position. -/
def clusteringFields (table : Declaration) : List Field :=
  table.clustering.mapIdx fun position decl => decl.as (.clustering position)

/-- The value field. -/
def valueField? (table : Declaration) : Option Field :=
  table.value.map fun decl => decl.as .value

/-- The metadata fields. -/
def metadataFields (table : Declaration) : List Field :=
  table.metadata.map fun decl => decl.as .metadata

/-- All fields in schema order: partition key, clustering, value, metadata. -/
def fields (table : Declaration) : List Field :=
  table.keyField ::
    (table.clusteringFields ++ table.valueField?.toList ++ table.metadataFields)

/-- The names of all fields in schema order. -/
def names (table : Declaration) : List String :=
  table.fields.map Field.name

/-- Whether the declared fields fit the kind. -/
def fits (table : Declaration) : Bool :=
  table.kind.admits table.clustering.length table.value.isSome table.metadata.length

/-- The field of a name. -/
def lookup (table : Declaration) (name : String) : Option Field :=
  table.fields.find? fun field => field.name == name

/-- The number of components of a stored cell name, zero where names are not
composite. -/
def arity (table : Declaration) : Nat :=
  match table.kind with
  | .sparse => table.clustering.length + 1
  | .dense => table.clustering.length
  | .static | .dynamic => 0

/-- The types of the parts of a stored cell name. -/
def nameTypes (table : Declaration) : List FieldType :=
  let clustering := table.clustering.map FieldDecl.type
  match table.kind with
  | .static => [.utf8]
  | .sparse => clustering ++ [.utf8]
  | .dynamic | .dense => clustering

/-- The name of the order of cell names. -/
def comparator (table : Declaration) : String :=
  let parts := String.intercalate "," (table.nameTypes.map FieldType.shortName)
  if table.kind.isComposite then "CompositeType(" ++ parts ++ ")" else parts

/-- The type name of cell values where nothing more is known. -/
def defaultValidator (table : Declaration) : String :=
  match table.value with
  | some decl => decl.type.shortName
  | none => FieldType.shortName .bytes

end Declaration

/-- The first element that stands in the list more than once, at its second
place. -/
def firstRepeated (seen : List String) : List String → Option String
  | [] => none
  | name :: rest =>
    if name ∈ seen then some name else firstRepeated (name :: seen) rest

/-- Names none of which is found to repeat are all different, and none has been seen before. -/
theorem firstRepeated_eq_none {names seen : List String}
    (h : firstRepeated seen names = none) :
    names.Nodup ∧ ∀ name ∈ names, name ∉ seen := by
  induction names generalizing seen with
  | nil => simp
  | cons name rest ih =>
    unfold firstRepeated at h
    split at h
    · exact absurd h (by simp)
    · next hseen =>
      obtain ⟨nodup, apart⟩ := ih h
      refine ⟨List.nodup_cons.mpr ⟨fun hmem => ?_, nodup⟩, ?_⟩
      · exact apart name hmem (List.mem_cons_self ..)
      · intro other hother
        rcases List.mem_cons.mp hother with rfl | hrest
        · exact hseen
        · exact fun hs => apart other hrest (List.mem_cons_of_mem _ hs)

/-- A table whose fields fit its kind and have names of their own. -/
structure Layout extends Declaration where
  fits_kind : toDeclaration.fits = true
  names_nodup : toDeclaration.names.Nodup

/-- Why a declaration is no layout. -/
inductive Layout.Fault where
  /-- The fields do not fit the kind. -/
  | misfit (table : String) (kind : Kind)
  /-- Two fields share a name. -/
  | duplicateField (table field : String)
  deriving DecidableEq

/-- What a kind asks of its fields. -/
def Kind.requirement : Kind → String
  | .static => "static tables have no clustering or value field"
  | .sparse => "sparse tables need clustering fields and no value field"
  | .dynamic => "dynamic tables have exactly one clustering field and no metadata"
  | .dense => "dense tables need clustering fields, a value field and no metadata"

/-- What the fault is told as. -/
def Layout.Fault.message : Layout.Fault → String
  | .misfit table kind => "table '" ++ table ++ "': " ++ kind.requirement
  | .duplicateField table field => "table '" ++ table ++ "': duplicate field '" ++ field ++ "'"

/-- The layout of a declaration: its fields have to fit the kind, and then their
names have to differ. -/
def Declaration.build (table : Declaration) : Except Layout.Fault Layout :=
  if fits_kind : table.fits = true then
    match repeated : firstRepeated [] table.names with
    | some field => .error (.duplicateField table.name field)
    | none => .ok { toDeclaration := table, fits_kind, names_nodup :=
        (firstRepeated_eq_none repeated).1 }
  else .error (.misfit table.name table.kind)

end WideColumn
