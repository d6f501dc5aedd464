import WideColumn.Plan

/-!
# `WideColumn.Plan.Compile`: from a query to a plan

Compilation checks, in this order, and stops at the first check that fails:

1. the limit is positive;
2. the query names the layout's table;
3. the select clause names fields, or counts rows;
4. the relations name fields that can be restricted, and do not conflict;
5. the restricted clustering fields come first, all but the last of them with an
   equality;
6. restricted metadata fields come with an equality on an indexed one, and
   without several partition keys;
7. descending order comes with an equality on the partition key.

With restricted metadata the index is read over a key range, so the sixth check
turns an equality on the partition key into a closed range. A reversed query
with restricted metadata therefore fails the seventh.
-/

set_option autoImplicit false

namespace WideColumn.Plan

/-- The limit as a number of rows. -/
def checkLimit (query : Query) : Except Error Nat :=
  if query.limit.toInt ≤ 0 then .error (.invalidLimit query.limit)
  else .ok query.limit.toInt.toNat

/-- The table a query names is the layout's, as written or as an unquoted
identifier. -/
def checkTable (settings : Settings) (query : Query) (layout : Layout) : Except Error Unit :=
  if settings.normalize ⟨query.table, false⟩ = layout.name ∨ query.table = layout.name then
    .ok ()
  else .error (.otherTable query.table layout.name)

/-- The field an identifier names. -/
def resolve (settings : Settings) (layout : Layout) (name : Identifier) (clause : Clause) :
    Except Error Field :=
  match layout.lookup (settings.normalize name) with
  | some field => .ok field
  | none => .error (.unknownField name.text clause)

/-- The select clauses that count rows. -/
def countsRows : List Identifier → Bool
  | [name] => !name.quoted && (name.text == "*" || name.text == "1")
  | _ => false

/-- The selected fields; a count selects none. -/
def bindSelection (settings : Settings) (query : Query) (layout : Layout) :
    Except Error (List Selected) :=
  if query.count then
    if countsRows query.selection then .ok [] else .error .unsupportedCount
  else
    query.selection.mapM fun name => do
      let field ← resolve settings layout name .selection
      return ⟨field, name.text⟩

/-- Adds a relation on a field to the restrictions. -/
def bindRelation (restrictions : Restrictions) (field : Field) (relation : Relation) :
    Except Error Restrictions :=
  if field.role = .value then .error (.unsupportedRestriction (.onValue field.name))
  else
    match relation with
    | .compare _ operator value => restrictions.addComparison field.name operator value
    | .oneOf _ values =>
      if field.role ≠ .partitionKey ∧ restrictions.get? field.name = none then
        .error (.unsupportedRestriction (.oneOfOutsideKey field.name))
      else restrictions.addOneOf field.name values

/-- The restrictions of the where clause. -/
def bindConditions (settings : Settings) (query : Query) (layout : Layout) :
    Except Error Restrictions :=
  query.conditions.foldlM
    (fun restrictions relation => do
      let field ← resolve settings layout relation.field .condition
      bindRelation restrictions field relation)
    Restrictions.empty

/-- Walks the clustering fields. `closed` is the name of the field before the
next one once no further field may be restricted. -/
def checkClusteringFrom (restrictions : Restrictions) :
    Option String → List Field → Except Error Unit
  | _, [] => .ok ()
  | closed, field :: rest =>
    match restrictions.get? field.name, closed with
    | none, _ => checkClusteringFrom restrictions (some field.name) rest
    | some _, some previous => .error (.nonPrefixRestriction field.name previous)
    | some restriction, none =>
      checkClusteringFrom restrictions
        (if restriction.isEquality then none else some field.name) rest

/-- The restricted clustering fields come first, all but the last with an
equality. -/
def checkClustering (restrictions : Restrictions) (layout : Layout) : Except Error Unit :=
  checkClusteringFrom restrictions none layout.clusteringFields

/-- The restricted metadata fields. -/
def restrictedMetadata (restrictions : Restrictions) (layout : Layout) : List Field :=
  layout.metadataFields.filter fun field => (restrictions.get? field.name).isSome

/-- Whether the field is indexed and has to be equal to something. -/
def isIndexedEquality (restrictions : Restrictions) (indexed : List String) (field : Field) :
    Bool :=
  (restrictions.get? field.name).any Restriction.isEquality && indexed.contains field.name

/-- The restrictions an index is read with, and whether one is read at all. -/
def checkIndexed (restrictions : Restrictions) (layout : Layout) (indexed : List String) :
    Except Error (Restrictions × Bool) :=
  let restricted := restrictedMetadata restrictions layout
  if restricted = [] then .ok (restrictions, false)
  else if !restricted.any (isIndexedEquality restrictions indexed) then
    .error .noIndexedEquality
  else
    match restrictions.get? layout.keyField.name with
    | none => .ok (restrictions, true)
    | some restriction =>
      if restriction.values.length > 1 then .error .indexedOneOf
      else
        .ok ((restrictions.equalityToRange? layout.keyField.name).getD restrictions, true)

/-- Descending order comes with an equality on the partition key. -/
def checkReversal (query : Query) (restrictions : Restrictions) (layout : Layout) :
    Except Error Unit :=
  if query.reversed ∧
      ¬ (restrictions.get? layout.keyField.name).any Restriction.isEquality then
    .error .unsupportedReversal
  else .ok ()

/-- The plan of a query for a layout, `indexed` naming the indexed fields. -/
def compile (settings : Settings) (query : Query) (layout : Layout) (indexed : List String) :
    Except Error Plan := do
  let limit ← checkLimit query
  checkTable settings query layout
  let selection ← bindSelection settings query layout
  let bound ← bindConditions settings query layout
  checkClustering bound layout
  let (restrictions, isIndexed) ← checkIndexed bound layout indexed
  checkReversal query restrictions layout
  return {
    layout, limit, selection, restrictions
    consistency := query.consistency
    reversed := query.reversed
    count := query.count
    indexed := isIndexed
    countColumn := settings.countColumn }

end WideColumn.Plan
