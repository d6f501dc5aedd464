import WideColumn.Layout

/-!
# `WideColumn.Numbering`: the numbers of a table's fields

A field is known by its number, its place among the fields of its table in schema
order. `Declaration.numbering` gives the numbers out while it lists the fields, in
four phases: the partition key, the clustering fields, the value field and the
metadata fields. It notes the numbers of the fields of each role, and
`Numbering.lookup` tells the number of a name.
-/

set_option autoImplicit false

namespace WideColumn

/-- A field's place among the fields of its table. -/
abbrev FieldId := Nat

/-- Fields in schema order, and the numbers of those of each role. -/
structure Numbering where
  fields : List Field
  clustering : List FieldId := []
  value : Option FieldId := none
  metadata : List FieldId := []
  deriving DecidableEq

namespace Numbering

/-- The number of the next field. -/
def next (numbering : Numbering) : FieldId :=
  numbering.fields.length

/-- One more clustering field, at the next position of cell names. -/
def addClustering (numbering : Numbering) (decl : FieldDecl) : Numbering :=
  { numbering with
    fields := numbering.fields ++ [decl.as (.clustering numbering.clustering.length)]
    clustering := numbering.clustering ++ [numbering.next] }

/-- The value field. -/
def addValue (numbering : Numbering) (decl : FieldDecl) : Numbering :=
  { numbering with
    fields := numbering.fields ++ [decl.as .value]
    value := some numbering.next }

/-- One more metadata field. -/
def addMetadata (numbering : Numbering) (decl : FieldDecl) : Numbering :=
  { numbering with
    fields := numbering.fields ++ [decl.as .metadata]
    metadata := numbering.metadata ++ [numbering.next] }

/-- The numbers of fields by name, the last field first. -/
def byName (numbering : Numbering) : List (String × FieldId) :=
  numbering.fields.zipIdx.foldl (fun names entry => (entry.1.name, entry.2) :: names) []

/-- The number of the field of a name. -/
def lookup (numbering : Numbering) (name : String) : Option FieldId :=
  numbering.byName.lookup name

/-- The numbers given to clustering, value and metadata fields. -/
def ids (numbering : Numbering) : List FieldId :=
  numbering.clustering ++ numbering.value.toList ++ numbering.metadata

end Numbering

/-- The fields of a table, numbered phase by phase. -/
def Declaration.numbering (table : Declaration) : Numbering :=
  let keyed : Numbering := { fields := [table.keyField] }
  let clustered := table.clustering.foldl Numbering.addClustering keyed
  let valued := table.value.elim clustered clustered.addValue
  table.metadata.foldl Numbering.addMetadata valued

end WideColumn
