import WideColumn.Plan.Cells
import WideColumn.Proofs.Composite.Order
import WideColumn.Proofs.Layout
import WideColumn.Proofs.Outcome

/-!
# `WideColumn.Proofs.CellParts`: what the names a plan reads are built of

A composite name has room for all clustering components, so no builder of a plan is
ever full, and the names a plan asks for are written from lists of parts that say
nothing of builders. The theorems:

* `exactBuilder_eq` / `cellNames_sparse` / `cellNames_dense`: names with all
  clustering components.
* `addBound_holding` / `cellBound_composite`: the bounds of a slice.
-/

set_option autoImplicit false

namespace WideColumn

namespace Plan

open Composite
open Composite.Builder (holding add_holding_of_lt)
open Outcome (map_ok ok_bind pure_eq_ok)

variable {plan : Plan} {vars : List Bytes}

/-! ### Names with all clustering components -/

/-- The component of a clustering field with a single value. -/
def exactComponent (plan : Plan) (vars : List Bytes) (field : Field) : Except Error Bytes :=
  match plan.single? field with
  | some term => term.component field vars
  | none => .error (.violation (.clusteringUnbound field.name))

/-- The components of all clustering fields. -/
def exactComponents (plan : Plan) (vars : List Bytes) : Except Error (List Bytes) :=
  plan.layout.clusteringFields.mapM (plan.exactComponent vars)

/-- A component, closed as an equality. -/
def equalPart (component : Bytes) : Bytes × Operator :=
  (component, .eq)

/-- Parts that are equal to their components are marked as exact. -/
theorem marked_map_equalPart (components : List Bytes) :
    marked (components.map equalPart) = exact components := by
  simp only [marked, exact, List.map_map]
  rfl

/-- While there is room, the component of one more field is added to the name. -/
theorem addExact_holding {arity : Nat} {parts : List (Bytes × Operator)}
    (h : parts.length < arity) (field : Field) :
    plan.addExact vars (holding arity parts) field =
      (plan.exactComponent vars field).map fun component =>
        holding arity (parts ++ [equalPart component]) := by
  unfold addExact exactComponent
  cases plan.single? field with
  | none => rfl
  | some term =>
      simp only
      cases term.component field vars with
      | error error => rfl
      | ok component => exact add_holding_of_lt h component .eq

/-- Adding the components of fields there is room for fails only where one of them has
none. -/
theorem foldlM_addExact {arity : Nat} {parts : List (Bytes × Operator)} {fields : List Field}
    (h : parts.length + fields.length ≤ arity) :
    fields.foldlM (plan.addExact vars) (holding arity parts) =
      (fields.mapM (plan.exactComponent vars)).map fun components =>
        holding arity (parts ++ components.map equalPart) := by
  -- The builder stays general: it holds the parts of the fields before.
  induction fields generalizing parts with
  | nil => simp
  | cons field rest ih =>
      rw [List.length_cons] at h
      rw [List.foldlM_cons, List.mapM_cons, addExact_holding (by omega)]
      cases plan.exactComponent vars field with
      | error error => rfl
      | ok component =>
          have hroom : (parts ++ [equalPart component]).length + rest.length ≤ arity := by
            rw [List.length_append, List.length_singleton]
            omega
          rw [map_ok, ok_bind, ok_bind, ih hroom]
          cases rest.mapM (plan.exactComponent vars) with
          | error error => rfl
          | ok components => simp

/-- The builder of an exact name holds the components of all clustering fields. -/
theorem exactBuilder_eq (h : plan.layout.kind.isComposite = true) :
    plan.exactBuilder vars = (plan.exactComponents vars).map fun components =>
      holding plan.layout.arity (components.map equalPart) := by
  have hroom : ([] : List (Bytes × Operator)).length + plan.layout.clusteringFields.length ≤
      plan.layout.arity := by
    rw [List.length_nil, Nat.zero_add, Layout.length_clusteringFields]
    exact Layout.length_clustering_le_arity h
  unfold exactBuilder exactComponents
  rw [← Builder.holding_nil, foldlM_addExact hroom]
  rfl

/-- There is a component for each clustering field. -/
theorem length_exactComponents {components : List Bytes}
    (h : plan.exactComponents vars = .ok components) :
    components.length = plan.layout.clustering.length := by
  rw [Outcome.length_of_mapM h, Layout.length_clusteringFields]

/-- A sparse name with all clustering components has room for the metadata field's. -/
theorem add_sparse {components : List Bytes} (hkind : plan.layout.kind = .sparse)
    (h : plan.exactComponents vars = .ok components) (key : Bytes) :
    (holding plan.layout.arity (components.map equalPart)).add key .eq =
      .ok (holding plan.layout.arity ((components ++ [key]).map equalPart)) := by
  have hroom : (components.map equalPart).length < plan.layout.arity := by
    rw [List.length_map, length_exactComponents h, Layout.arity_of_sparse hkind]
    exact Nat.lt_succ_self _
  rw [add_holding_of_lt hroom, List.map_append]
  rfl

/-- The exact names of a sparse table: the clustering components, and one selected
metadata field after the other. -/
theorem cellNames_sparse (hslice : plan.isCellSlice = false)
    (hkind : plan.layout.kind = .sparse) :
    plan.cellNames vars = (plan.exactComponents vars).map fun components =>
      plan.metadataColumns.map fun field => encode (components ++ [field.key]) := by
  have hcomposite : plan.layout.kind.isComposite = true := by rw [hkind]; rfl
  unfold cellNames
  rw [hslice, hkind, exactBuilder_eq hcomposite]
  simp only [Bool.false_eq_true, if_false]
  cases hcomponents : plan.exactComponents vars with
  | error error => rfl
  | ok components =>
      rw [map_ok, ok_bind, map_ok]
      refine Outcome.mapM_eq_ok_map fun field _ => ?_
      rw [add_sparse hkind hcomponents, ok_bind, pure_eq_ok, Builder.build_holding,
        marked_map_equalPart, write_exact]

/-- The exact name of a dense table: the clustering components. -/
theorem cellNames_dense (hslice : plan.isCellSlice = false)
    (hkind : plan.layout.kind = .dense) :
    plan.cellNames vars = (plan.exactComponents vars).map fun components =>
      [encode components] := by
  have hcomposite : plan.layout.kind.isComposite = true := by rw [hkind]; rfl
  unfold cellNames
  rw [hslice, hkind, exactBuilder_eq hcomposite]
  simp only [Bool.false_eq_true, if_false]
  cases plan.exactComponents vars with
  | error error => rfl
  | ok components =>
      rw [map_ok, ok_bind, map_ok, pure_eq_ok, Builder.build_holding, marked_map_equalPart,
        write_exact]

/-! ### The bounds of a slice -/

/-- The parts of a slice's bound: the leading equalities, and then the bound on the
side, if the next field has one. -/
def boundParts (plan : Plan) (side : Side) (vars : List Bytes) :
    List Field → Except Error (List (Bytes × Operator))
  | [] => .ok []
  | field :: rest =>
    match plan.restriction? field with
    | none => .ok []
    | some restriction =>
      match restriction.single?, restriction.bound? side with
      | some term, _ => do
        let component ← term.component field vars
        let parts ← plan.boundParts side vars rest
        return equalPart component :: parts
      | none, some bound => do
        let component ← bound.term.component field vars
        return [(component, side.operator bound.inclusive)]
      | none, none => .ok []

/-- The operator of the last of some parts, or `before` where there are none. -/
def lastOperator (before : Option Operator) (parts : List (Bytes × Operator)) :
    Option Operator :=
  (parts.getLast?.map Prod.snd).or before

/-- The operator of a bound is that of its last part, so one in front of others has no say. -/
theorem lastOperator_cons (before : Option Operator) (part : Bytes × Operator)
    (parts : List (Bytes × Operator)) :
    lastOperator before (part :: parts) = lastOperator (some part.2) parts := by
  unfold lastOperator
  rw [List.getLast?_cons]
  cases parts.getLast? <;> rfl

/-- Adding the parts of a bound where there is room for them all. -/
theorem addBound_holding {arity : Nat} {parts : List (Bytes × Operator)}
    {fields : List Field} (side : Side) (before : Option Operator)
    (h : parts.length + fields.length ≤ arity) :
    plan.addBound side vars (holding arity parts) before fields =
      (plan.boundParts side vars fields).map fun more =>
        (holding arity (parts ++ more), lastOperator before more) := by
  induction fields generalizing parts before with
  | nil => simp [addBound, boundParts, lastOperator]
  | cons field rest ih =>
      rw [List.length_cons] at h
      have hroom : parts.length < arity := by omega
      unfold addBound boundParts
      -- Only an equality lets the walk go on to the next field.
      cases plan.restriction? field with
      | none => simp [lastOperator]
      | some restriction =>
          cases hsingle : restriction.single? with
          | some term =>
              simp only [hsingle]
              cases term.component field vars with
              | error error => rfl
              | ok component =>
                  have hnext : (parts ++ [(component, Operator.eq)]).length + rest.length ≤
                      arity := by
                    rw [List.length_append, List.length_singleton]
                    omega
                  rw [ok_bind, ok_bind, add_holding_of_lt hroom, ok_bind, ih (some .eq) hnext]
                  cases plan.boundParts side vars rest with
                  | error error => rfl
                  | ok more =>
                      simp only [map_ok, ok_bind, pure_eq_ok, lastOperator_cons,
                        List.append_assoc, List.singleton_append]
                      rfl
          | none =>
              cases hbound : restriction.bound? side with
              | none => simp [hsingle, hbound, lastOperator]
              | some bound =>
                  simp only [hsingle, hbound]
                  cases bound.term.component field vars with
                  | error error => rfl
                  | ok component =>
                      rw [ok_bind, ok_bind, add_holding_of_lt hroom]
                      rfl

/-- The parts a bound is written with: an upper bound that ends with an equality takes
in every name that continues it. -/
def boundMarks (side : Side) (parts : List (Bytes × Operator)) : List (Bytes × Marker) :=
  if side = .upper ∧ lastOperator none parts = some .eq then raiseLast (marked parts)
  else marked parts

/-- The bound of a slice over composite names is written with its parts. -/
theorem cellBound_composite (side : Side) (hslice : plan.isCellSlice = true)
    (hkind : plan.layout.kind.isComposite = true) :
    plan.cellBound side vars =
      (plan.boundParts side vars plan.layout.clusteringFields).map fun parts =>
        write (boundMarks side parts) := by
  -- There is room for all clustering fields, so the builder never refuses a part.
  have hroom : ([] : List (Bytes × Operator)).length + plan.layout.clusteringFields.length ≤
      plan.layout.arity := by
    rw [List.length_nil, Nat.zero_add, Layout.length_clusteringFields]
    exact Layout.length_clustering_le_arity hkind
  have hbuilt : (plan.addBound side vars { arity := plan.layout.arity } none
        plan.layout.clusteringFields >>= fun added =>
          pure (boundName side added.1 added.2)) =
      (plan.boundParts side vars plan.layout.clusteringFields).map fun parts =>
        write (boundMarks side parts) := by
    rw [← Builder.holding_nil, addBound_holding side none hroom]
    cases plan.boundParts side vars plan.layout.clusteringFields with
    | error error => rfl
    | ok parts =>
        simp only [map_ok, ok_bind, pure_eq_ok, List.nil_append, boundName, boundMarks,
          Builder.build_holding, Builder.buildEndOfRange_holding, endOfRange_write]
        split <;> rfl
  unfold cellBound
  rw [hslice]
  rcases Kind.isComposite_eq_true_iff.mp hkind with hsparse | hdense
  · rw [hsparse]
    exact hbuilt
  · rw [hdense]
    exact hbuilt

end Plan

end WideColumn
