import WideColumn.FieldType
import WideColumn.Text.Utf8

/-!
# `WideColumn.RowSet`: logical rows

A row set is what a statement answers: a header that describes the columns, and
rows of named values. A column whose field is unset has no value. Values that no
stored cell backs have the timestamp `noTimestamp`, and so have unset ones.
-/

set_option autoImplicit false

namespace WideColumn

/-- The timestamp of values that no stored cell backs. -/
def noTimestamp : Int64 := -1

/-- A column of a row. -/
structure Column where
  name : String
  value : Option Bytes
  timestamp : Int64
  deriving DecidableEq

/-- A column with a value. -/
def Column.set (name : String) (value : Bytes) (timestamp : Int64) : Column :=
  ⟨name, some value, timestamp⟩

/-- A column without a value. -/
def Column.unset (name : String) : Column :=
  ⟨name, none, noTimestamp⟩

/-- A logical row. -/
structure Row where
  /-- The key of the row's partition. -/
  key : Bytes
  columns : List Column
  deriving DecidableEq

/-- The first column of a name. -/
def Row.column? (row : Row) (name : String) : Option Column :=
  row.columns.find? fun column => column.name == name

/-- The value of the first column of a name. -/
def Row.value? (row : Row) (name : String) : Option Bytes :=
  (row.column? name).bind Column.value

/-- A column's name and the name of its type. -/
structure ColumnSpec where
  name : String
  type : String
  deriving DecidableEq

/-- What describes the columns of a row set. -/
structure Header where
  comparator : String
  defaultValidator : String
  columns : List ColumnSpec
  deriving DecidableEq

/-- The logical rows a statement answers. -/
structure RowSet where
  header : Header
  rows : List Row
  deriving DecidableEq

namespace RowSet

/-- The largest count that can be told: 63 bits, all set, behind the sign. -/
def maxCount : Nat := 9223372036854775807

/-- A number of rows, told as a single row of one column. -/
def ofCount (column : String) (count : Nat) : RowSet :=
  let long := FieldType.shortName .bigInt
  { header := ⟨FieldType.shortName .utf8, long, [⟨column, long⟩]⟩
    rows :=
      [⟨Text.Utf8.ofString column,
        [.set column (Bytes.ofInt 8 (min count maxCount : Nat)) noTimestamp]⟩] }

end RowSet

/-- A column of a batch: the values of one output column, row by row. -/
structure BatchColumn where
  name : String
  values : List (Option Bytes)
  deriving DecidableEq

/-- A row set turned into columns. -/
structure Batch where
  rowCount : Nat
  columns : List BatchColumn
  deriving DecidableEq

/-- The value a row has for an output column: that of its column at the position
if it has the name, and otherwise that of its first column of the name, because a
row can lack columns. -/
def Row.valueAt (row : Row) (position : Nat) (name : String) : Option Bytes :=
  match row.columns[position]? with
  | some column => if column.name = name then column.value else row.value? name
  | none => row.value? name

/-- The row set as columns. -/
def RowSet.toBatch (rowSet : RowSet) : Batch :=
  { rowCount := rowSet.rows.length
    columns := rowSet.header.columns.mapIdx fun position spec =>
      ⟨spec.name, rowSet.rows.map fun row => row.valueAt position spec.name⟩ }

end WideColumn
