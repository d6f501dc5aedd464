import WideColumn.Plan.Reconstruct
import WideColumn.Proofs.Composite.Format
import WideColumn.Proofs.Layout
import WideColumn.Proofs.Storage

/-!
# `WideColumn.Proofs.LogicalRow`: logical rows and how they are stored

A logical row has clustering values and, depending on the table's kind, metadata of
which some is set or the one value of a cell. `LogicalRow.cells` stores it, and
`LogicalRow.answer` is what a reader of all fields sees of it. The theorems:

* `Datum.column_cell`: a stored value is read as the value it is stored for.
* `mem_cells_wide`: the cells of a row are those of its set metadata fields.
* `comparables_injective`: clustering values in their form inside cell names tell rows
  apart.
-/

set_option autoImplicit false

namespace WideColumn

/-- A value of a logical row, and what is stored for it. -/
structure Datum where
  /-- What readers see. -/
  value : Bytes
  timestamp : Int64
  /-- What the cell holds. -/
  stored : Bytes
  kind : CellKind

namespace Datum

/-- A counter context is stored, and the value is its total. -/
def IsTotal (datum : Datum) : Prop :=
  ∃ total, Counter.total datum.stored = .ok total ∧ datum.value = Bytes.ofInt64 total

/-- The value is stored the way values of the field are: as it is, except for
counters. -/
def StoredAs (datum : Datum) (field : Field) : Prop :=
  match datum.kind with
  | .live => if field.type.isCounter then datum.IsTotal else datum.stored = datum.value
  | .counter => datum.IsTotal
  | .tombstone => False

/-- The cell of a name that holds the value. -/
def cell (datum : Datum) (name : Bytes) : Cell :=
  ⟨name, datum.stored, datum.timestamp, datum.kind⟩

/-- The column of a field that may be set. -/
def column (datum : Option Datum) (name : String) : Column :=
  match datum with
  | some datum => .set name datum.value datum.timestamp
  | none => .unset name

/-- What is not a tombstone is stored in a live cell. -/
theorem isLive_cell {datum : Datum} (h : datum.kind ≠ .tombstone) (name : Bytes) :
    (datum.cell name).isLive = true :=
  bne_iff_ne.mpr h

/-- No datum is stored as a tombstone. -/
theorem StoredAs.not_tombstone {datum : Datum} {field : Field} (h : datum.StoredAs field) :
    datum.kind ≠ .tombstone := by
  intro hkind
  unfold StoredAs at h
  rw [hkind] at h
  exact h

/-- A value is read as what it is stored for. -/
theorem column_cell {datum : Datum} {field : Field} (h : datum.StoredAs field)
    (name : Bytes) (display : String) :
    (datum.cell name).column field display = Datum.column (some datum) display := by
  -- A counter shows its total, whether the cell says that it is one or the field does.
  have htotal : datum.IsTotal → (datum.kind = .counter ∨ field.type.isCounter = true) →
      (datum.cell name).column field display = Datum.column (some datum) display := by
    rintro ⟨total, hstored, hvalue⟩ hcounter
    unfold Cell.column
    show (if datum.kind = .counter ∨ field.type.isCounter = true then _ else _) = _
    rw [if_pos hcounter, column, hvalue]
    simp only [cell, hstored]
  unfold StoredAs at h
  split at h
  · next hkind =>
      split at h
      · next hcounter => exact htotal h (.inr hcounter)
      · next hplain =>
          have hneither : ¬ (datum.kind = .counter ∨ field.type.isCounter = true) := by
            rw [hkind]
            rintro (hcounter | hcounter)
            · cases hcounter
            · exact hplain hcounter
          unfold Cell.column
          show (if datum.kind = .counter ∨ field.type.isCounter = true then _ else _) = _
          rw [if_neg hneither, column, ← h]
          rfl
  · next hkind => exact htotal h (.inl hkind)
  · cases h

end Datum

/-- A row as applications see it. -/
inductive LogicalRow where
  /-- A row of a static or sparse table, with a cell for every metadata field that is
  set. -/
  | wide (clustering : List Bytes) (metadata : Field → Option Datum)
  /-- A row of a dynamic or dense table, with one cell. -/
  | compact (clustering : List Bytes) (value : Datum)

namespace Layout

/-- Clustering values in their form inside cell names. -/
def comparables (layout : Layout) (clustering : List Bytes) : List Bytes :=
  List.zipWith (fun decl value => decl.type.toComparable value) layout.clustering clustering

/-- The name of the cell of a metadata field. -/
def wideName (layout : Layout) (clustering : List Bytes) (field : Field) : Bytes :=
  match layout.kind with
  | .sparse => Composite.encode (layout.comparables clustering ++ [field.key])
  | _ => field.key

/-- The name of the one cell of a row. -/
def compactName (layout : Layout) (clustering : List Bytes) : Bytes :=
  match layout.kind with
  | .dense => Composite.encode (layout.comparables clustering)
  | _ => (layout.comparables clustering).headD []

end Layout

namespace LogicalRow

/-- The clustering values. -/
def clustering : LogicalRow → List Bytes
  | wide clustering _ => clustering
  | compact clustering _ => clustering

/-- The row is one of the table's. A row of a sparse table has to have some metadata,
because it would be no cells otherwise. -/
def Fits (layout : Layout) : LogicalRow → Prop
  | wide clustering metadata =>
    layout.kind.isCompact = false ∧ clustering.length = layout.clustering.length ∧
      (∀ field ∈ layout.metadataFields, ∀ datum, metadata field = some datum →
        datum.StoredAs field) ∧
      (layout.kind = .sparse → ∃ field ∈ layout.metadataFields, (metadata field).isSome)
  | compact clustering value =>
    layout.kind.isCompact = true ∧ clustering.length = layout.clustering.length ∧
      value.kind ≠ .tombstone ∧
      ∀ field, layout.valueField? = some field → value.StoredAs field

/-- The cells the row is stored in. -/
def cells (layout : Layout) : LogicalRow → List Cell
  | wide clustering metadata =>
    layout.metadataFields.filterMap fun field =>
      (metadata field).map fun datum => datum.cell (layout.wideName clustering field)
  | compact clustering value => [value.cell (layout.compactName clustering)]

/-- What a reader of all fields sees of the row: the partition key, the clustering values
and the values of the other fields, in schema order. Values that no cell is there for
have no timestamp. -/
def answer (layout : Layout) (key : Bytes) : LogicalRow → Row
  | wide clustering metadata =>
    ⟨key, .set layout.key.name key noTimestamp ::
      (List.zipWith (fun decl value => .set decl.name value noTimestamp)
          layout.clustering clustering ++
        layout.metadataFields.map fun field => Datum.column (metadata field) field.name)⟩
  | compact clustering datum =>
    ⟨key, .set layout.key.name key noTimestamp ::
      (List.zipWith (fun decl value => .set decl.name value datum.timestamp)
          layout.clustering clustering ++
        layout.valueField?.toList.map fun field => Datum.column (some datum) field.name)⟩

/-- A wide row has a cell for every metadata field it has a datum of. -/
theorem mem_cells_wide {layout : Layout} {clustering : List Bytes}
    {metadata : Field → Option Datum} {cell : Cell} :
    cell ∈ (wide clustering metadata).cells layout ↔
      ∃ field ∈ layout.metadataFields, ∃ datum, metadata field = some datum ∧
        datum.cell (layout.wideName clustering field) = cell := by
  unfold cells
  simp only [List.mem_filterMap, Option.map_eq_some_iff]

/-- The cell of one field of a row, found by what tells the cells of its fields apart. -/
theorem mem_cells_of_key {layout : Layout} {clustering : List Bytes}
    {metadata : Field → Option Datum} (keyOf : Cell → Option Bytes)
    (hkey : ∀ field ∈ layout.metadataFields, ∀ datum : Datum,
      keyOf (datum.cell (layout.wideName clustering field)) = some field.key)
    {field : Field} (hfield : field ∈ layout.metadataFields) {cell : Cell} :
    cell ∈ (wide clustering metadata).cells layout ∧ keyOf cell = some field.key ↔
      ∃ datum, metadata field = some datum ∧
        datum.cell (layout.wideName clustering field) = cell := by
  rw [mem_cells_wide]
  constructor
  · rintro ⟨⟨other, hother, datum, hdatum, rfl⟩, hsame⟩
    rw [hkey other hother, Option.some_inj] at hsame
    obtain rfl := Layout.eq_of_key_eq (Layout.metadataFields_subset hother)
      (Layout.metadataFields_subset hfield) hsame
    exact ⟨datum, hdatum, rfl⟩
  · rintro ⟨datum, hdatum, rfl⟩
    exact ⟨⟨field, hfield, datum, hdatum, rfl⟩, hkey field hfield datum⟩

/-- A row that fits the table has all clustering values. -/
theorem Fits.length_clustering {layout : Layout} {row : LogicalRow} (h : row.Fits layout) :
    row.clustering.length = layout.clustering.length := by
  cases row with
  | wide clustering metadata => exact h.2.1
  | compact clustering value => exact h.2.1

/-- The rows of static and sparse tables. -/
theorem Fits.eq_wide {layout : Layout} {row : LogicalRow} (h : row.Fits layout)
    (hkind : layout.kind.isCompact = false) :
    ∃ clustering metadata, row = wide clustering metadata := by
  cases row with
  | wide clustering metadata => exact ⟨clustering, metadata, rfl⟩
  | compact clustering value =>
      have hcompact := h.1
      rw [hkind] at hcompact
      cases hcompact

/-- The rows of dynamic and dense tables. -/
theorem Fits.eq_compact {layout : Layout} {row : LogicalRow} (h : row.Fits layout)
    (hkind : layout.kind.isCompact = true) :
    ∃ clustering value, row = compact clustering value := by
  cases row with
  | wide clustering metadata =>
      have hwide := h.1
      rw [hkind] at hwide
      cases hwide
  | compact clustering value => exact ⟨clustering, value, rfl⟩

/-- A row of a sparse table is stored in some cell. -/
theorem Fits.cells_ne_nil {layout : Layout} {row : LogicalRow} (h : row.Fits layout)
    (hkind : layout.kind = .sparse) : row.cells layout ≠ [] := by
  cases row with
  | wide clustering metadata =>
      obtain ⟨field, hfield, hset⟩ := h.2.2.2 hkind
      obtain ⟨datum, hdatum⟩ := Option.isSome_iff_exists.mp hset
      exact List.ne_nil_of_mem (mem_cells_wide.mpr ⟨field, hfield, datum, hdatum, rfl⟩)
  | compact clustering value => exact List.cons_ne_nil _ _

/-- A row of a dynamic or dense table is stored in one cell, of one name. -/
theorem Fits.cells_eq_singleton {layout : Layout} {row : LogicalRow} (h : row.Fits layout)
    (hkind : layout.kind.isCompact = true) :
    ∃ cell, row.cells layout = [cell] ∧ cell.name = layout.compactName row.clustering := by
  obtain ⟨clustering, value, rfl⟩ := h.eq_compact hkind
  exact ⟨_, rfl, rfl⟩

/-- The cells of a row hold something. -/
theorem isLive_of_mem_cells {layout : Layout} {row : LogicalRow} (h : row.Fits layout)
    {cell : Cell} (hcell : cell ∈ row.cells layout) : cell.isLive = true := by
  cases row with
  | wide clustering metadata =>
      obtain ⟨-, -, hstored, -⟩ := h
      obtain ⟨field, hfield, datum, hdatum, rfl⟩ := mem_cells_wide.mp hcell
      exact Datum.isLive_cell (hstored field hfield datum hdatum).not_tombstone _
  | compact clustering value =>
      obtain ⟨-, -, hkind, -⟩ := h
      obtain rfl := List.mem_singleton.mp hcell
      exact Datum.isLive_cell hkind _

end LogicalRow

namespace Layout

/-- Values in their form inside names are as many as before. -/
theorem length_comparables {layout : Layout} {clustering : List Bytes}
    (h : clustering.length = layout.clustering.length) :
    (layout.comparables clustering).length = layout.clustering.length := by
  rw [comparables, List.length_zipWith, h, Nat.min_self]

/-- The form of clustering values inside cell names tells them apart. -/
theorem comparables_injective {layout : Layout} {clustering other : List Bytes}
    (h : clustering.length = layout.clustering.length)
    (h' : other.length = layout.clustering.length)
    (heq : layout.comparables clustering = layout.comparables other) : clustering = other := by
  unfold comparables at heq
  generalize layout.clustering = decls at h h' heq
  induction decls generalizing clustering other with
  | nil => rw [List.length_eq_zero_iff.mp h, List.length_eq_zero_iff.mp h']
  | cons decl decls ih =>
      obtain ⟨value, clustering, rfl⟩ := List.exists_cons_of_length_eq_add_one h
      obtain ⟨value', other, rfl⟩ := List.exists_cons_of_length_eq_add_one h'
      rw [List.zipWith_cons_cons, List.zipWith_cons_cons, List.cons_eq_cons] at heq
      have hvalue := congrArg decl.type.ofComparable heq.1
      rw [FieldType.ofComparable_toComparable, FieldType.ofComparable_toComparable] at hvalue
      rw [hvalue, ih (Nat.succ.inj h) (Nat.succ.inj h') heq.2]

end Layout

/-- The cells of one partition are what rows are stored in. Where a row can have several
cells, all cells of the partition stand in the order of their names. -/
structure Stores (layout : Layout) (rows : List LogicalRow) (cells : List Cell) : Prop where
  fits : ∀ row ∈ rows, row.Fits layout
  perm : cells.Perm (rows.flatMap (LogicalRow.cells layout))
  sorted : layout.kind.isCompact = false → Sorted cells
  one : layout.kind = .static → rows.length = 1
  distinct : layout.kind = .sparse → (rows.map LogicalRow.clustering).Nodup

end WideColumn
