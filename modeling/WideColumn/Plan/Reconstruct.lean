import WideColumn.Composite.Reader
import WideColumn.Plan
import WideColumn.RowSet
import WideColumn.Storage

/-!
# `WideColumn.Plan.Reconstruct`: from stored cells to logical rows

How a partition becomes rows depends on the table's kind alone:

* a static partition is one row, and the cells of its metadata fields are looked up by
  their names;
* the live cells of a sparse partition are walked over in a single pass. The walk collects
  the cells of a group, which share all components but the last, and makes the group a row
  when it comes to a cell of another one, and once more at the end;
* every live cell of a dynamic or dense partition is a row.

A row has a column for every selected field, in the order of the select clause, except that
a static row without cells lacks those of metadata fields. A field of a role that rows of the
kind have no column for is an error, and so is a live cell whose name is not one of the
table's. Rows are reversed and cut off at the limit when all of them are there.
-/

set_option autoImplicit false

namespace WideColumn

/-- The column of a cell. Where either the cell or the field is a counter the
value is the total, and a context that cannot be read leaves the column unset. -/
def Cell.column (cell : Cell) (field : Field) (display : String) : Column :=
  if cell.kind = .counter ∨ field.type.isCounter then
    match Counter.total cell.value with
    | .ok total => .set display (Bytes.ofInt64 total) cell.timestamp
    | .error _ => .unset display
  else .set display cell.value cell.timestamp

/-- The column of the cell there is, if any. -/
def cellColumn (cell : Option Cell) (field : Field) (display : String) : Column :=
  match cell with
  | some cell => cell.column field display
  | none => .unset display

/-- The error of a selected field that rows of a kind of table have no column for. -/
def Field.unexpected (field : Field) (kind : Kind) : Error :=
  .violation (.unexpectedRole field.name field.role kind)

/-! ### Cell names -/

/-- A cell with the components of its name. -/
structure NamedCell where
  components : List Bytes
  cell : Cell

/-- A cell with the components of its name, whose number is not checked. -/
def Cell.readName (cell : Cell) : Except Error NamedCell :=
  match Composite.split cell.name with
  | .ok components => .ok ⟨components, cell⟩
  | .error fault => .error (.violation (.unreadableName fault))

/-- A cell with the components of its name, of which there have to be `arity`. -/
def Cell.readNameOf (arity : Nat) (cell : Cell) : Except Error NamedCell := do
  let named ← cell.readName
  if named.components.length = arity then return named
  else throw (.violation (.nameArity named.components.length arity))

/-- The components that the cells of one logical row share. -/
def NamedCell.leading (named : NamedCell) : List Bytes :=
  named.components.dropLast

/-- The cells that hold something, none where the container is absent. -/
def Partition.liveCells (stored : Partition) : List Cell :=
  (stored.cells.getD []).filter Cell.isLive

/-! ### Static partitions -/

namespace Partition

/-- The column of a selected field in the row of a static partition. Without a container
there is none for a metadata field. -/
def staticColumn? (stored : Partition) (selected : Selected) : Except Error (Option Column) :=
  let field := selected.field
  match field.role with
  | .partitionKey => .ok (some (.set selected.display stored.key noTimestamp))
  | .metadata =>
    if stored.cells.isNone then .ok none
    else .ok (some (cellColumn (stored.liveCell? field.key) field selected.display))
  | .clustering _ | .value => .error (field.unexpected .static)

/-- The row of a static partition. -/
def staticRow (stored : Partition) (selection : List Selected) : Except Error Row := do
  let columns ← selection.mapM stored.staticColumn?
  return ⟨stored.key, columns.filterMap id⟩

end Partition

/-! ### Sparse partitions -/

/-- The column of a selected field in the row of a group: `leading` are the components that
the cells of the group share, and `cells` has them by the last component of their names. -/
def sparseColumn (key : Bytes) (leading : List Bytes) (cells : List (Bytes × Cell))
    (selected : Selected) : Except Error Column :=
  let field := selected.field
  match field.role with
  | .partitionKey => .ok (.set selected.display key noTimestamp)
  | .clustering position =>
    let stored := Composite.componentAt leading position
    .ok (.set selected.display (field.type.ofComparable stored) noTimestamp)
  | .metadata => .ok (cellColumn (cells.lookup field.key) field selected.display)
  | .value => .error (field.unexpected .sparse)

/-- The row of a group. -/
def sparseRow (key : Bytes) (leading : List Bytes) (cells : List (Bytes × Cell))
    (selection : List Selected) : Except Error Row := do
  let columns ← selection.mapM (sparseColumn key leading cells)
  return ⟨key, columns⟩

/-- What a walk over the cells of a sparse partition carries. -/
structure SparseWalk where
  /-- The components that the cells of the present group share, none before the first cell. -/
  leading : Option (List Bytes) := none
  /-- The cells of the present group by the last component of their names. The latest cell
  comes first, so of several with one name it is the one that is found. -/
  group : List (Bytes × Cell) := []
  /-- The rows of the groups before. -/
  rows : List Row := []

namespace SparseWalk

/-- Makes the present group a row, if there is a group, and leaves it. -/
def flush (key : Bytes) (selection : List Selected) (walk : SparseWalk) :
    Except Error SparseWalk :=
  match walk.leading with
  | none => .ok walk
  | some leading => do
    let row ← sparseRow key leading walk.group selection
    return { leading := none, group := [], rows := walk.rows ++ [row] }

/-- Enters the group of these leading components, which can be the present one. -/
def enter (key : Bytes) (selection : List Selected) (leading : List Bytes)
    (walk : SparseWalk) : Except Error SparseWalk :=
  if walk.leading = some leading then .ok walk
  else do
    let left ← walk.flush key selection
    return { left with leading := some leading }

/-- Adds a cell to the present group, by the last component of its name. -/
def insert (named : NamedCell) (walk : SparseWalk) : SparseWalk :=
  match named.components.getLast? with
  | some name => { walk with group := (name, named.cell) :: walk.group }
  | none => walk

/-- Takes in the next live cell. -/
def step (key : Bytes) (selection : List Selected) (arity : Nat) (walk : SparseWalk)
    (cell : Cell) : Except Error SparseWalk := do
  let named ← cell.readNameOf arity
  let entered ← walk.enter key selection named.leading
  return entered.insert named

end SparseWalk

/-- The rows of a sparse partition. -/
def Partition.sparseRows (stored : Partition) (arity : Nat) (selection : List Selected) :
    Except Error (List Row) := do
  let walk ← stored.liveCells.foldlM (SparseWalk.step stored.key selection arity) {}
  let last ← walk.flush stored.key selection
  return last.rows

/-! ### Dynamic and dense partitions -/

/-- The column of a selected field in the row of a cell. The components of the cell's name
are given where it has some, and otherwise the whole name is the clustering value. -/
def compactColumn (kind : Kind) (key : Bytes) (components : Option (List Bytes)) (cell : Cell)
    (selected : Selected) : Except Error Column :=
  let field := selected.field
  match field.role with
  | .partitionKey => .ok (.set selected.display key noTimestamp)
  | .clustering position =>
    let stored :=
      match components with
      | some components => Composite.componentAt components position
      | none => cell.name
    .ok (.set selected.display (field.type.ofComparable stored) cell.timestamp)
  | .value => .ok (cell.column field selected.display)
  | .metadata => .error (field.unexpected kind)

/-- The components of a cell's name where the kind has composite names. -/
def Cell.components? (kind : Kind) (cell : Cell) : Except Error (Option (List Bytes)) :=
  if kind = .dense then do
    let named ← cell.readName
    return some named.components
  else .ok none

/-- The row of a cell. -/
def compactRow (kind : Kind) (key : Bytes) (selection : List Selected) (cell : Cell) :
    Except Error Row := do
  let components ← cell.components? kind
  let columns ← selection.mapM (compactColumn kind key components cell)
  return ⟨key, columns⟩

/-- The rows of a dynamic or dense partition. -/
def Partition.compactRows (stored : Partition) (kind : Kind) (selection : List Selected) :
    Except Error (List Row) :=
  stored.liveCells.mapM (compactRow kind stored.key selection)

/-! ### Answers -/

/-- The rows of a partition. -/
def Partition.rows (stored : Partition) (layout : Layout) (selection : List Selected) :
    Except Error (List Row) :=
  match layout.kind with
  | .static => do
    let row ← stored.staticRow selection
    return [row]
  | .sparse => stored.sparseRows layout.arity selection
  | .dynamic | .dense => stored.compactRows layout.kind selection

namespace Plan

/-- The header of the rows a plan answers. -/
def header (plan : Plan) : Header :=
  { comparator := plan.layout.comparator
    defaultValidator := plan.layout.defaultValidator
    columns := plan.columns.map fun selected =>
      ⟨selected.display, selected.field.type.shortName⟩ }

/-- The rows of all partitions, before they are reversed and limited. -/
def rows (plan : Plan) (stored : List Partition) : Except Error (List Row) :=
  List.flatten <$> stored.mapM fun partition => partition.rows plan.layout plan.columns

/-- The rows in the order asked for. -/
def ordered (plan : Plan) (rows : List Row) : List Row :=
  if plan.reversed then rows.reverse else rows

/-- The logical rows of the partitions read for a plan. A count only counts the
partitions. -/
def process (plan : Plan) (stored : List Partition) : Except Error RowSet :=
  if plan.count then .ok (.ofCount plan.countColumn stored.length)
  else do
    let rows ← plan.rows stored
    return ⟨plan.header, (plan.ordered rows).take plan.limit⟩

end Plan

end WideColumn
