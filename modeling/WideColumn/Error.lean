import WideColumn.Composite.Reader
import WideColumn.Counter
import WideColumn.FieldType.Value
import WideColumn.Layout

/-!
# `WideColumn.Error`: what can go wrong

`Error` gathers every cause of failure, and `Error.message` tells it. The causes
fall into two classes: `isUser` holds of those that the statement or its values
bring about, and of no cause that lies in stored data, in a schema, in a
settings file or in a call made out of turn.
-/

set_option autoImplicit false

namespace WideColumn

/-- The clause an identifier stands in. -/
inductive Clause where
  | selection
  | condition
  deriving DecidableEq

/-- The name of a clause. -/
def Clause.name : Clause → String
  | .selection => "selection"
  | .condition => "where"

/-- Why two relations on one field exclude each other. -/
inductive Conflict where
  /-- One of them is an equality. -/
  | equality
  /-- One of them is a list of values. -/
  | oneOf
  /-- Both bound the field from one side. -/
  | bound (side : Side)
  deriving DecidableEq

/-- The reason a conflict is told with. -/
def Conflict.reason : Conflict → String
  | .equality => "if it includes an Equal"
  | .oneOf => "if it includes an IN"
  | .bound .lower => "of the Greater-Than kind"
  | .bound .upper => "of the Lesser-Than kind"

/-- A relation no table of its kind can answer. -/
inductive Unsupported where
  /-- The relation is on a value field. -/
  | onValue (field : String)
  /-- The list of values is not for the partition key. -/
  | oneOfOutsideKey (field : String)
  /-- The list of values is empty. -/
  | oneOfNothing (field : String)
  deriving DecidableEq

/-- What the unsupported relation is told as. -/
def Unsupported.message : Unsupported → String
  | .onValue field =>
    "restricting the value of a compact table ('" ++ field ++ "') is not supported"
  | .oneOfOutsideKey field =>
    "IN relation on '" ++ field ++ "': IN is only supported on the partition key"
  | .oneOfNothing field => "IN relation on '" ++ field ++ "' needs at least one value"

/-- What a kind of table is told as. -/
def Kind.label : Kind → String
  | .static => "Static"
  | .sparse => "Sparse"
  | .dynamic => "Dynamic"
  | .dense => "Dense"

/-- What a role is told as. -/
def Role.label : Role → String
  | .partitionKey => "PartitionKey"
  | .clustering position => "Clustering(" ++ Text.Decimal.ofNat position ++ ")"
  | .value => "Value"
  | .metadata => "Metadata"

/-- A call made out of turn, or stored data that breaks its promise. -/
inductive Violation where
  /-- A component is added to a composite that has `arity` of them. -/
  | compositeFull (arity : Nat)
  /-- Exact keys are asked of a statement that reads a key range. -/
  | noExactKeys
  /-- One bound is asked of a statement with several keys. -/
  | severalKeys
  /-- A clustering field has no single value. -/
  | clusteringUnbound (field : String)
  /-- The one clustering field of a dynamic table has no single value. -/
  | dynamicUnbound
  /-- Cell names are asked of a statement that reads a slice. -/
  | namesOfSlice
  /-- Slice bounds are asked of a statement that reads exact names. -/
  | sliceOfNames
  /-- Slice bounds are asked of a static table some of whose fields are selected. -/
  | sliceOfFields
  /-- A stored cell name is no composite. -/
  | unreadableName (fault : Composite.Fault)
  /-- A stored cell name has `found` components in place of `expected`. -/
  | nameArity (found expected : Nat)
  /-- A field is selected that has a role rows of the kind of table have no column for. -/
  | unexpectedRole (field : String) (role : Role) (kind : Kind)
  deriving DecidableEq

/-- The text every malformed composite key is told with. -/
def malformedKeyText (fault : Composite.Fault) : String :=
  "malformed composite key: " ++ fault.message

/-- What the violation is told as. -/
def Violation.message : Violation → String
  | .compositeFull arity =>
    "composite already has its " ++ Text.Decimal.ofNat arity ++ " components"
  | .noExactKeys => "keys() requires an equality on the partition key"
  | .severalKeys => "a multi-valued partition key has no single bound"
  | .clusteringUnbound field =>
    "clustering field '" ++ field ++ "' is not bound by a single equality"
  | .dynamicUnbound => "dynamic column name needs a single equality"
  | .namesOfSlice => "requested_columns() called on a column range query"
  | .sliceOfNames => "requested_bounds() called on a query with exact column names"
  | .sliceOfFields => "only a wildcard selection slices a static table"
  | .unreadableName fault => "unreadable cell name: " ++ malformedKeyText fault
  | .nameArity found expected =>
    "cell name has " ++ Text.Decimal.ofNat found ++ " components, the table expects " ++
      Text.Decimal.ofNat expected
  | .unexpectedRole field role kind =>
    "field '" ++ field ++ "' has role " ++ role.label ++ ", which a " ++ kind.label ++
      " table cannot hold"

/-- Why settings cannot be taken from the environment. -/
inductive VariableFault where
  /-- The identifier case is neither of the two there are. -/
  | unknownIdentifierCase (value : String)
  /-- The count column has no name. -/
  | emptyCountColumn
  deriving DecidableEq

/-- What the fault is told as. -/
def VariableFault.message : VariableFault → String
  | .unknownIdentifierCase value => "WCQ_IDENTIFIER_CASE: unknown value '" ++ value ++ "'"
  | .emptyCountColumn => "WCQ_COUNT_COLUMN is empty"

/-- A cause of failure. -/
inductive Error where
  /-- The limit is not positive. -/
  | invalidLimit (limit : Int64)
  /-- An identifier names no field of the table. -/
  | unknownField (name : String) (clause : Clause)
  | unsupportedRestriction (cause : Unsupported)
  | conflictingRestriction (field : String) (conflict : Conflict)
  /-- A clustering field is restricted though `previous` before it is not, or not
  to single values. -/
  | nonPrefixRestriction (field previous : String)
  /-- Descending order without single partition keys. -/
  | unsupportedReversal
  /-- Metadata fields are restricted and no indexed one to a value. -/
  | noIndexedEquality
  /-- Metadata fields are restricted and several partition keys are listed. -/
  | indexedOneOf
  /-- Something other than rows is counted. -/
  | unsupportedCount
  | malformedKey (fault : Composite.Fault)
  | malformedCounter (fault : Counter.Fault)
  | violation (cause : Violation)
  /-- A literal or bound value is no value of its field. -/
  | invalidTerm (field : String) (fault : FieldType.Fault)
  /-- There is no variable at `index` among `provided` ones. -/
  | missingVariable (index provided : Nat)
  | schema (fault : Layout.Fault)
  /-- The statement names one table and the layout another. -/
  | otherTable (requested described : String)
  /-- A file cannot be read as text, or cannot be written. -/
  | inaccessibleFile
  /-- A document does not hold the value expected. -/
  | malformedDocument
  | invalidVariable (fault : VariableFault)
  deriving DecidableEq

namespace Error

/-- What the error is told as. -/
def message : Error → String
  | .invalidLimit limit =>
    "LIMIT must be strictly positive, got " ++ Text.Decimal.ofInt limit.toInt
  | .unknownField name clause =>
    "undefined name '" ++ name ++ "' in " ++ clause.name ++ " clause"
  | .unsupportedRestriction cause => "unsupported restriction: " ++ cause.message
  | .conflictingRestriction field conflict =>
    "'" ++ field ++ "' cannot be restricted by more than one relation " ++ conflict.reason
  | .nonPrefixRestriction field previous =>
    "PRIMARY KEY part '" ++ field ++ "' cannot be restricted (preceding part '" ++
      previous ++ "' is either not restricted or by a non-EQ relation)"
  | .unsupportedReversal =>
    "descending order is only supported if the partition key is restricted by an " ++
      "Equal or an IN"
  | .noIndexedEquality =>
    "no indexed columns present in by-columns clause with Equal operator"
  | .indexedOneOf =>
    "select on indexed columns with an IN clause on the partition key is not supported"
  | .unsupportedCount => "only COUNT(*) and COUNT(1) are supported"
  | .malformedKey fault => malformedKeyText fault
  | .malformedCounter fault => "malformed counter context: " ++ fault.message
  | .violation cause => "assertion failure: " ++ cause.message
  | .invalidTerm field fault => "invalid value for '" ++ field ++ "': " ++ fault.message
  | .missingVariable index provided =>
    "bind marker " ++ Text.Decimal.ofNat index ++ " has no value (" ++
      Text.Decimal.ofNat provided ++ " variables supplied)"
  | .schema fault => "schema error: " ++ fault.message
  | .otherTable requested described =>
    "schema error: statement targets table '" ++ requested ++
      "' but the layout describes '" ++ described ++ "'"
  | .inaccessibleFile => "io error: the file cannot be accessed"
  | .malformedDocument => "serialization error: malformed document"
  | .invalidVariable fault => "serialization error: " ++ fault.message

/-- Whether the statement or its values bring the error about. -/
def isUser : Error → Bool
  | .invalidLimit .. | .unknownField .. | .unsupportedRestriction ..
  | .conflictingRestriction .. | .nonPrefixRestriction .. | .unsupportedReversal
  | .noIndexedEquality | .indexedOneOf | .unsupportedCount | .invalidTerm ..
  | .missingVariable .. => true
  | .malformedKey .. | .malformedCounter .. | .violation .. | .schema ..
  | .otherTable .. | .inaccessibleFile | .malformedDocument | .invalidVariable .. => false

end Error

end WideColumn
