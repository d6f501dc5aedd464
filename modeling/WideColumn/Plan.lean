import WideColumn.Restriction
import WideColumn.Settings

/-!
# `WideColumn.Plan`: compiled statements

A `Plan` is a query compared with a layout: identifiers have become fields, and
relations have become restrictions. It holds no variables; every call that needs
them takes them, so one plan serves any number of executions. `Term.value` gives
the bytes a term stands for, and `Plan.component` their form inside a cell name.
-/

set_option autoImplicit false

namespace WideColumn

/-- The bytes a term stands for as a value of a field. -/
def Term.value (term : Term) (field : Field) (vars : List Bytes) :
    Except Error Bytes :=
  match term with
  | .literal text => (field.type.parse text).mapError (.invalidTerm field.name)
  | .bind index =>
    match vars[index]? with
    | none => .error (.missingVariable index vars.length)
    | some value =>
      match field.type.check value with
      | .ok () => .ok value
      | .error fault => .error (.invalidTerm field.name fault)

/-- The bytes a term stands for inside a cell name. -/
def Term.component (term : Term) (field : Field) (vars : List Bytes) :
    Except Error Bytes :=
  (term.value field vars).map field.type.toComparable

/-- A selected field and the name its column is reported under. -/
structure Selected where
  field : Field
  display : String

/-- A compiled statement. -/
structure Plan where
  layout : Layout
  /-- The most rows to return. -/
  limit : Nat
  consistency : Consistency
  reversed : Bool
  count : Bool
  /-- The select clause, empty for the wildcard. -/
  selection : List Selected
  restrictions : Restrictions
  /-- Whether a metadata field is restricted. -/
  indexed : Bool
  /-- The column a count is reported in. -/
  countColumn : String

namespace Plan

/-- Whether every field is selected. -/
def isWildcard (plan : Plan) : Bool :=
  plan.selection.isEmpty

/-- The selected fields, all of them in schema order for the wildcard. -/
def columns (plan : Plan) : List Selected :=
  if plan.isWildcard then plan.layout.fields.map fun field => ⟨field, field.name⟩
  else plan.selection

/-- The selected metadata fields. -/
def metadataColumns (plan : Plan) : List Field :=
  (plan.columns.map Selected.field).filter fun field => field.role = .metadata

/-- The largest number of cells that can be asked of storage: 64 bits, all set. -/
def maxFetch : Nat := 18446744073709551615

/-- The number of cells that fill the limit: one per row of a compact table, and
otherwise up to one per metadata field. -/
def fetchLimit (plan : Plan) : Nat :=
  if plan.layout.kind.isCompact then plan.limit
  else min maxFetch (max 1 plan.layout.metadata.length * plan.limit)

/-- The restriction of a field. -/
def restriction? (plan : Plan) (field : Field) : Option Restriction :=
  plan.restrictions.get? field.name

/-- Whether a field has to be equal to something. -/
def hasEquality (plan : Plan) (field : Field) : Bool :=
  (plan.restriction? field).any Restriction.isEquality

end Plan

end WideColumn
