import WideColumn.Plan

/-!
# `WideColumn.Plan.Index`: the predicates a plan hands to the index

The index is read where a metadata field is restricted, and otherwise there are no
predicates. Each restricted metadata field gives one predicate per value it may have,
or one per bound of its range, in schema order and lower bounds first.
-/

set_option autoImplicit false

namespace WideColumn

/-- A predicate on a metadata field. -/
structure IndexPredicate where
  column : Bytes
  operator : Operator
  value : Bytes

namespace Plan

/-- The predicates on one field. -/
def fieldPredicates (plan : Plan) (vars : List Bytes) (field : Field) :
    Except Error (List IndexPredicate) :=
  match plan.restriction? field with
  | none => .ok []
  | some restriction =>
    restriction.comparisons.mapM fun (operator, term) => do
      let value ← term.value field vars
      return ⟨field.key, operator, value⟩

/-- The predicates on all metadata fields, none where the plan reads no index. -/
def indexPredicates (plan : Plan) (vars : List Bytes) :
    Except Error (List IndexPredicate) :=
  if !plan.indexed then .ok []
  else List.flatten <$> plan.layout.metadataFields.mapM (plan.fieldPredicates vars)

end Plan

end WideColumn
