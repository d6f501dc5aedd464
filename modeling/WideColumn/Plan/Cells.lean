import WideColumn.Composite.Builder
import WideColumn.Plan

/-!
# `WideColumn.Plan.Cells`: the cells a plan reads in a partition

Where every clustering field has an equality the plan reads cells by name;
otherwise it reads a slice of them, from one name to another, an empty name
being an open end. Static tables are always read by name.

The bounds of a slice over composite names start with the components of the
leading equalities. A bound on the next clustering field, if there is one on that
side, adds its component with the bound's operator. Otherwise the slice ends
after every name that continues the equalities.
-/

set_option autoImplicit false

namespace WideColumn.Plan

open Composite (Builder)

/-- Whether the plan reads a slice of cells. -/
def isCellSlice (plan : Plan) : Bool :=
  plan.layout.kind != .static &&
    plan.layout.clusteringFields.any fun field => !plan.hasEquality field

/-- The single value of a field. -/
def single? (plan : Plan) (field : Field) : Option Term :=
  (plan.restriction? field).bind Restriction.single?

/-- Adds the component of a clustering field with a single value. -/
def addExact (plan : Plan) (vars : List Bytes) (builder : Builder) (field : Field) :
    Except Error Builder :=
  match plan.single? field with
  | some term => do
    let component ← term.component field vars
    builder.add component .eq
  | none => .error (.violation (.clusteringUnbound field.name))

/-- The components of all clustering fields. -/
def exactBuilder (plan : Plan) (vars : List Bytes) : Except Error Builder :=
  plan.layout.clusteringFields.foldlM (plan.addExact vars) { arity := plan.layout.arity }

/-- The name that is the one clustering field's value. -/
def plainName (plan : Plan) (vars : List Bytes) : List Field → Except Error (List Bytes)
  | [] => .ok []
  | field :: _ =>
    match plan.single? field with
    | some term => do
      let component ← term.component field vars
      return [component]
    | none => .error (.violation .dynamicUnbound)

/-- The names of the cells to read. -/
def cellNames (plan : Plan) (vars : List Bytes) : Except Error (List Bytes) :=
  if plan.isCellSlice then .error (.violation .namesOfSlice)
  else
    match plan.layout.kind with
    | .static => .ok (plan.metadataColumns.map Field.key)
    | .sparse => do
      let leading ← plan.exactBuilder vars
      plan.metadataColumns.mapM fun field => do
        let name ← leading.add field.key .eq
        return name.build
    | .dynamic => plan.plainName vars plan.layout.clusteringFields
    | .dense => do
      let name ← plan.exactBuilder vars
      return [name.build]

/-- Adds the components of a slice's bound: those of the leading equalities, and
then that of the bound on the side, if the next field has one. `last` is the
operator of the last component added. -/
def addBound (plan : Plan) (side : Side) (vars : List Bytes) :
    Builder → Option Operator → List Field → Except Error (Builder × Option Operator)
  | builder, last, [] => .ok (builder, last)
  | builder, last, field :: rest =>
    match plan.restriction? field with
    | none => .ok (builder, last)
    | some restriction =>
      match restriction.single?, restriction.bound? side with
      | some term, _ => do
        let component ← term.component field vars
        let next ← builder.add component .eq
        plan.addBound side vars next (some .eq) rest
      | none, some bound => do
        let operator := side.operator bound.inclusive
        let component ← bound.term.component field vars
        let next ← builder.add component operator
        return (next, some operator)
      | none, none => .ok (builder, last)

/-- The composite name of a bound whose last component has the operator `last`. -/
def boundName (side : Side) (builder : Builder) (last : Option Operator) : Bytes :=
  if side = .upper ∧ last = some .eq then builder.buildEndOfRange else builder.build

/-- The bound of a slice over names that are the one clustering field's value. -/
def plainBound (plan : Plan) (side : Side) (vars : List Bytes) :
    List Field → Except Error Bytes
  | [] => .ok []
  | field :: _ =>
    match (plan.restriction? field).bind fun r => r.bound? side with
    | some bound => bound.term.component field vars
    | none => .ok []

/-- The name on a side of the slice of cells to read. -/
def cellBound (plan : Plan) (side : Side) (vars : List Bytes) : Except Error Bytes :=
  if !plan.isCellSlice then .error (.violation .sliceOfNames)
  else
    match plan.layout.kind with
    | .static => if plan.isWildcard then .ok [] else .error (.violation .sliceOfFields)
    | .dynamic => plan.plainBound side vars plan.layout.clusteringFields
    | .sparse | .dense => do
      let (builder, last) ← plan.addBound side vars { arity := plan.layout.arity } none
        plan.layout.clusteringFields
      return boundName side builder last

end WideColumn.Plan
