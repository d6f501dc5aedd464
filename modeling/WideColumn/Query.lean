import WideColumn.Operator
import WideColumn.Text.Decimal

/-!
# `WideColumn.Query`: SELECT statements as written

A `Query` is what a caller writes, before it is compared with any table: the
table's name, the select clause, the relations of the where clause and the
parameters. Identifiers keep the spelling they were written in, because results
report columns under it. `Query.describe` is the one-line summary of a query.
-/

set_option autoImplicit false

namespace WideColumn

/-- A name as the caller wrote it. -/
structure Identifier where
  text : String
  quoted : Bool := false
  deriving DecidableEq

/-- The value side of a relation. -/
inductive Term where
  /-- Text to be read as a value of the field's type. -/
  | literal (text : String)
  /-- The bound variable at a position. -/
  | bind (index : Nat)
  deriving DecidableEq

/-- A condition of the where clause. -/
inductive Relation where
  | compare (field : Identifier) (operator : Operator) (value : Term)
  | oneOf (field : Identifier) (values : List Term)
  deriving DecidableEq

/-- The identifier a relation is about. -/
def Relation.field : Relation → Identifier
  | .compare field _ _ => field
  | .oneOf field _ => field

/-- How many replicas a read asks. -/
inductive Consistency where
  | any
  | one
  | two
  | three
  | quorum
  | localQuorum
  | eachQuorum
  | all
  deriving DecidableEq

/-- The name of a consistency level. -/
def Consistency.name : Consistency → String
  | .any => "Any"
  | .one => "One"
  | .two => "Two"
  | .three => "Three"
  | .quorum => "Quorum"
  | .localQuorum => "LocalQuorum"
  | .eachQuorum => "EachQuorum"
  | .all => "All"

/-- A SELECT statement as written. -/
structure Query where
  table : String
  /-- The select clause, empty for the wildcard; when counting, what is
  counted. -/
  selection : List Identifier := []
  conditions : List Relation := []
  /-- The most rows to return; not yet known to be positive. -/
  limit : Int64 := 10000
  consistency : Consistency := .one
  reversed : Bool := false
  count : Bool := false

/-- The identifier as it is shown. -/
def Identifier.describe (name : Identifier) : String :=
  if name.quoted then "\"" ++ name.text ++ "\"" else name.text

/-- The term as it is shown, a bound variable as a question mark. -/
def Term.describe : Term → String
  | .literal text => "'" ++ text ++ "'"
  | .bind _ => "?"

/-- The relation as it is shown. -/
def Relation.describe : Relation → String
  | .compare field operator value =>
    field.describe ++ " " ++ operator.symbol ++ " " ++ value.describe
  | .oneOf field values =>
    field.describe ++ " IN (" ++ String.intercalate ", " (values.map Term.describe) ++ ")"

/-- The truth value as it is shown. -/
def describeFlag (flag : Bool) : String :=
  if flag then "true" else "false"

/-- The one-line summary of a query. -/
def Query.describe (query : Query) : String :=
  "SelectRawStatement[table=" ++ query.table ++
    ", selectClause=[" ++ String.intercalate ", " (query.selection.map Identifier.describe) ++
    "], whereClause=[" ++
    String.intercalate " AND " (query.conditions.map Relation.describe) ++
    "], isCount=" ++ describeFlag query.count ++
    ", cLevel=" ++ query.consistency.name ++
    ", limit=" ++ Text.Decimal.ofInt query.limit.toInt ++ "]"

end WideColumn
