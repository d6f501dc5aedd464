import WideColumn.Bytes

/-!
# `WideColumn.Storage`: cells and partitions

Storage answers a scan with partitions. A partition has a key and a container of
cells; the container can be absent altogether, which is not the same as holding
no cells. Storage keeps the cells of a container in the order of their names, so
that `liveCell?` finds a cell by halving.
-/

set_option autoImplicit false

namespace WideColumn

/-- What a stored cell holds. -/
inductive CellKind where
  /-- A value. -/
  | live
  /-- A counter context, read as its total. -/
  | counter
  /-- Nothing any more: the cell has been deleted and is still there. -/
  | tombstone
  deriving DecidableEq

/-- A stored cell. -/
structure Cell where
  name : Bytes
  value : Bytes
  timestamp : Int64
  kind : CellKind
  deriving DecidableEq

/-- Whether the cell holds something. -/
def Cell.isLive (cell : Cell) : Bool :=
  cell.kind != .tombstone

/-- A stored partition. -/
structure Partition where
  key : Bytes
  cells : Option (List Cell)
  deriving DecidableEq

namespace Partition

/-- The cell of a name among cells in the order of their names: while there are
several, the half that can hold it is searched. -/
def search (name : Bytes) (cells : List Cell) : Option Cell :=
  match cells with
  | [] => none
  | [cell] => if cell.name = name then some cell else none
  | first :: second :: rest =>
    let half := (rest.length + 2) / 2
    match (first :: second :: rest)[half]? with
    | none => none
    | some middle =>
      if name < middle.name then search name ((first :: second :: rest).take half)
      else search name ((first :: second :: rest).drop half)
termination_by cells.length
decreasing_by
  · simp only [List.length_take, List.length_cons]; omega
  · simp only [List.length_drop, List.length_cons]; omega

/-- The cell of a name, if it holds something. -/
def liveCell? (stored : Partition) (name : Bytes) : Option Cell :=
  (stored.cells.bind (search name)).filter Cell.isLive

end Partition

end WideColumn
