import WideColumn.Proofs.LogicalRow
import WideColumn.Proofs.Outcome
import WideColumn.Proofs.Runs

/-!
# `WideColumn.Proofs.Entry`: entries that hold logical rows

An entry is a logical row apart from any select clause: it tells, for each role a field can
have, where its value is stored. What an entry tells of a field of another role than rows of
its kind are made of has no meaning, and such a field is not asked for. An entry holds a row
when it tells where to find what the row is stored as, and then it answers the row. The
theorems:

* `Entry.row_eq_answer`: an entry that holds a row answers it, when all fields are
  selected.
* `holds_staticEntry`: the halving search finds the cell of every metadata field.
* `holds_sparseEntry`: in the run of a row's cells, the last cell of a metadata field is
  the only one.
* `holds_compactEntry`: one cell is one row.
-/

set_option autoImplicit false

namespace WideColumn

/-! ### What an entry answers -/

/-- One logical row as it is stored. -/
structure Entry where
  /-- The key of the partition. -/
  key : Bytes
  /-- The clustering values in their form inside cell names. -/
  clustering : List Bytes
  /-- The timestamp of the clustering values. -/
  clusteringTime : Int64
  /-- The cell of the value field. -/
  value : Option Cell
  /-- The cell of a metadata field, by the field's key; absent altogether where
  the partition has no cells to read metadata from. -/
  metadata : Option (Bytes → Option Cell)

/-- The column of a selected field. A metadata field has none in an entry without
metadata. -/
def Entry.column? (entry : Entry) (selected : Selected) : Option Column :=
  let field := selected.field
  match field.role with
  | .partitionKey => some (.set selected.display entry.key noTimestamp)
  | .clustering position =>
    let stored := Composite.componentAt entry.clustering position
    some (.set selected.display (field.type.ofComparable stored) entry.clusteringTime)
  | .value => some (cellColumn entry.value field selected.display)
  | .metadata =>
    entry.metadata.map fun cells => cellColumn (cells field.key) field selected.display

/-- The row of the selected fields. -/
def Entry.row (entry : Entry) (selection : List Selected) : Row :=
  ⟨entry.key, selection.filterMap entry.column?⟩

/-- The one entry of a static partition. -/
def Partition.staticEntry (stored : Partition) : Entry :=
  { key := stored.key
    clustering := []
    clusteringTime := noTimestamp
    value := none
    metadata := stored.cells.map fun _ => stored.liveCell? }

/-- The entry of a run of sparse cells: of several cells for one metadata field
the last counts. -/
def sparseEntry (key : Bytes) (run : List NamedCell) : Entry :=
  { key
    clustering := (run.head?.map NamedCell.leading).getD []
    clusteringTime := noTimestamp
    value := none
    metadata := some fun name =>
      (run.reverse.find? fun named => named.components.getLast? == some name).map
        NamedCell.cell }

/-- The entry of a single cell with these clustering values. -/
def compactEntry (key : Bytes) (clustering : List Bytes) (cell : Cell) : Entry :=
  { key, clustering
    clusteringTime := cell.timestamp
    value := some cell
    metadata := none }

namespace Entry

/-- The column of a field that is selected under its own name. -/
def columnOf (entry : Entry) (field : Field) : Option Column :=
  entry.column? ⟨field, field.name⟩

/-- The entry says where to find what a row was stored as. -/
def Holds (entry : Entry) (layout : Layout) : LogicalRow → Prop
  | .wide clustering metadata =>
    entry.clustering = layout.comparables clustering ∧ entry.clusteringTime = noTimestamp ∧
      ∃ cells, entry.metadata = some cells ∧ ∀ field ∈ layout.metadataFields,
        cells field.key =
          (metadata field).map fun datum => datum.cell (layout.wideName clustering field)
  | .compact clustering value =>
    entry.clustering = layout.comparables clustering ∧ entry.clusteringTime = value.timestamp ∧
      entry.value = some (value.cell (layout.compactName clustering))

variable {entry : Entry} {layout : Layout}

/-- A clustering field is read from the component at its position. -/
theorem columnOf_clustering (decl : FieldDecl) (position : Nat) :
    entry.columnOf (decl.as (.clustering position)) =
      some (.set decl.name
        (decl.type.ofComparable (Composite.componentAt entry.clustering position))
        entry.clusteringTime) :=
  rfl

/-- The value field is read from the entry's cell. -/
theorem columnOf_value {field : Field} (h : field.role = .value) :
    entry.columnOf field = some (cellColumn entry.value field field.name) := by
  simp only [columnOf, column?, h]

/-- A metadata field is read from the cell of its key, where there are cells at all. -/
theorem columnOf_metadata {field : Field} (h : field.role = .metadata) :
    entry.columnOf field =
      entry.metadata.map fun cells => cellColumn (cells field.key) field field.name := by
  simp only [columnOf, column?, h]

/-- The column of a cell has a value, or it has none and is unset. -/
theorem cellColumn_cases (cell : Option Cell) (field : Field) (display : String) :
    cellColumn cell field display = .unset display ∨
      ∃ value timestamp, cellColumn cell field display = .set display value timestamp := by
  cases cell with
  | none => exact .inl rfl
  | some cell =>
      show cell.column field display = _ ∨ ∃ value timestamp, cell.column field display = _
      unfold Cell.column
      split
      · split
        · exact .inr ⟨_, _, rfl⟩
        · exact .inl rfl
      · exact .inr ⟨_, _, rfl⟩

/-- A column that is there has a value, or it is unset. -/
theorem column?_cases {selected : Selected} {column : Column}
    (h : entry.column? selected = some column) :
    column = .unset selected.display ∨
      ∃ value timestamp, column = .set selected.display value timestamp := by
  unfold column? at h
  simp only at h
  split at h
  · cases h
    exact .inr ⟨_, _, rfl⟩
  · cases h
    exact .inr ⟨_, _, rfl⟩
  · cases h
    exact cellColumn_cases _ _ _
  · obtain ⟨cells, -, rfl⟩ := Option.map_eq_some_iff.mp h
    exact cellColumn_cases _ _ _

/-- Columns have the names they are selected under. -/
theorem name_of_column? {selected : Selected} {column : Column}
    (h : entry.column? selected = some column) : column.name = selected.display := by
  rcases column?_cases h with rfl | ⟨value, timestamp, rfl⟩
  · rfl
  · rfl

/-- Under its own name, a field's column has the name of the field. -/
theorem name_of_columnOf {field : Field} {column : Column}
    (h : entry.columnOf field = some column) : column.name = field.name :=
  name_of_column? h

/-- Where all fields are selected, the column of a field is found by the field's name. -/
theorem column?_row {field : Field} (hmem : field ∈ layout.fields) {column : Column}
    (hcolumn : entry.columnOf field = some column) :
    (entry.row (layout.fields.map fun field => ⟨field, field.name⟩)).column? field.name =
      some column := by
  -- The fields have names of their own, and so have their columns.
  have hnamed : ∀ other ∈ layout.fields,
      ((entry.columnOf other).any fun column => column.name == field.name) = true →
        other = field := by
    intro other hother hany
    cases hfound : entry.columnOf other with
    | none => rw [hfound] at hany; cases hany
    | some found =>
        rw [hfound] at hany
        have hname : found.name = field.name := beq_iff_eq.mp hany
        exact Layout.eq_of_name_eq hother hmem ((name_of_columnOf hfound).symm.trans hname)
  have hfind : (layout.fields.find? fun other =>
      (entry.columnOf other).any fun column => column.name == field.name) = some field := by
    refine (find?_eq_some_iff_of_unique fun one hone other hother h h' => ?_).mpr ⟨hmem, ?_⟩
    · rw [hnamed one hone h, hnamed other hother h']
    · rw [hcolumn]
      exact beq_iff_eq.mpr (name_of_columnOf hcolumn)
  show ((layout.fields.map fun field => (⟨field, field.name⟩ : Selected)).filterMap
    entry.column?).find? _ = _
  rw [List.filterMap_map]
  show (layout.fields.filterMap entry.columnOf).find? _ = _
  rw [List.find?_filterMap, hfind]
  exact hcolumn

/-- The columns of clustering fields from a position on. -/
theorem columns_clustering {decls : List FieldDecl} {values : List Bytes} {position : Nat}
    (hlength : values.length = decls.length)
    (hstored : entry.clustering.drop position =
      List.zipWith (fun decl value => decl.type.toComparable value) decls values) :
    (decls.mapIdx fun i decl => decl.as (.clustering (position + i))).filterMap entry.columnOf =
      List.zipWith (fun decl value => .set decl.name value entry.clusteringTime) decls values := by
  -- The position moves on with the declarations.
  induction decls generalizing values position with
  | nil => rfl
  | cons decl decls ih =>
      obtain ⟨value, values, rfl⟩ := List.exists_cons_of_length_eq_add_one hlength
      rw [List.zipWith_cons_cons] at hstored
      have hfirst : Composite.componentAt entry.clustering position =
          decl.type.toComparable value := by
        have hget : (entry.clustering.drop position)[0]? =
            some (decl.type.toComparable value) := by
          rw [hstored]
          rfl
        rw [List.getElem?_drop, Nat.add_zero] at hget
        rw [Composite.componentAt, List.getD_eq_getElem?_getD, hget, Option.getD_some]
      have hnext : entry.clustering.drop (position + 1) =
          List.zipWith (fun decl value => decl.type.toComparable value) decls values := by
        rw [← List.drop_drop, hstored, List.drop_one, List.tail_cons]
      have hcolumn : entry.columnOf (decl.as (.clustering position)) =
          some (.set decl.name value entry.clusteringTime) := by
        rw [columnOf_clustering, hfirst, FieldType.ofComparable_toComparable]
      have hshift : (fun (i : Nat) (decl : FieldDecl) =>
          decl.as (.clustering (position + (i + 1)))) =
          fun i decl => decl.as (.clustering (position + 1 + i)) := by
        funext i decl
        rw [Nat.add_assoc, Nat.add_comm 1]
      rw [List.mapIdx_cons, Nat.add_zero, List.filterMap_cons_some hcolumn,
        List.zipWith_cons_cons, hshift, ih (Nat.succ.inj hlength) hnext]

/-- The columns of metadata fields. -/
theorem columns_metadata {clustering : List Bytes} {metadata : Field → Option Datum}
    {cells : Bytes → Option Cell} (hcells : entry.metadata = some cells)
    (hkey : ∀ field ∈ layout.metadataFields, cells field.key =
      (metadata field).map fun datum => datum.cell (layout.wideName clustering field))
    (hstored : ∀ field ∈ layout.metadataFields, ∀ datum, metadata field = some datum →
      datum.StoredAs field) :
    layout.metadataFields.filterMap entry.columnOf =
      layout.metadataFields.map fun field => Datum.column (metadata field) field.name := by
  rw [← List.filterMap_eq_map]
  refine List.filterMap_congr fun field hfield => ?_
  rw [columnOf_metadata (Layout.role_of_mem_metadataFields hfield), hcells, Option.map_some,
    hkey field hfield]
  cases hdatum : metadata field with
  | none => simp only [Function.comp, hdatum, Option.map_none, cellColumn, Datum.column]
  | some datum =>
      have hread := Datum.column_cell (hstored field hfield datum hdatum)
        (layout.wideName clustering field) field.name
      simp only [Function.comp, hdatum, Option.map_some, cellColumn, hread]

/-- The column of the value field, where there is one. -/
theorem columns_value {datum : Datum} {name : Bytes} (hvalue : entry.value = some (datum.cell name))
    (hstored : ∀ field, layout.valueField? = some field → datum.StoredAs field) :
    layout.valueField?.toList.filterMap entry.columnOf =
      layout.valueField?.toList.map fun field => Datum.column (some datum) field.name := by
  rw [← List.filterMap_eq_map]
  refine List.filterMap_congr fun field hfield => ?_
  have hfield := Option.mem_toList.mp hfield
  rw [columnOf_value (Layout.role_of_mem_valueField? hfield), hvalue]
  exact congrArg some (Datum.column_cell (hstored field hfield) name field.name)

/-- The columns of all fields, role by role. -/
theorem columns_fields (entry : Entry) (layout : Layout) :
    layout.fields.filterMap entry.columnOf =
      .set layout.key.name entry.key noTimestamp ::
        (layout.clusteringFields.filterMap entry.columnOf ++
          layout.valueField?.toList.filterMap entry.columnOf ++
          layout.metadataFields.filterMap entry.columnOf) := by
  have hkey : entry.columnOf layout.keyField =
      some (.set layout.key.name entry.key noTimestamp) := rfl
  rw [Declaration.fields, List.filterMap_cons_some hkey, List.filterMap_append,
    List.filterMap_append]

/-- An entry that holds a row answers it, when all fields are selected. -/
theorem row_eq_answer {row : LogicalRow} (h : entry.Holds layout row)
    (fits : row.Fits layout) :
    entry.row (layout.fields.map fun field => ⟨field, field.name⟩) =
      row.answer layout entry.key := by
  have hcolumns : (layout.fields.map fun field => (⟨field, field.name⟩ : Selected)).filterMap
      entry.column? = layout.fields.filterMap entry.columnOf := List.filterMap_map
  have hclustering : ∀ {values : List Bytes}, values.length = layout.clustering.length →
      entry.clustering = layout.comparables values →
      layout.clusteringFields.filterMap entry.columnOf =
        List.zipWith (fun decl value => .set decl.name value entry.clusteringTime)
          layout.clustering values := by
    intro values hlength hvalues
    have hstored : (layout.clustering.mapIdx fun i decl =>
        decl.as (.clustering (0 + i))).filterMap entry.columnOf = _ :=
      columns_clustering hlength hvalues
    simp only [Nat.zero_add] at hstored
    exact hstored
  unfold Entry.row
  rw [hcolumns, columns_fields]
  -- One of the value field and the metadata is missing, depending on the kind.
  cases row with
  | wide clustering metadata =>
      obtain ⟨hkind, hlength, hstored, -⟩ := fits
      obtain ⟨hvalues, htime, cells, hcells, hkey⟩ := h
      rw [Layout.valueField?_of_wide hkind, hclustering hlength hvalues, htime,
        columns_metadata hcells hkey hstored]
      simp [LogicalRow.answer]
  | compact clustering value =>
      obtain ⟨hkind, hlength, -, hstored⟩ := fits
      obtain ⟨hvalues, htime, hcell⟩ := h
      rw [Layout.metadataFields_of_compact hkind, hclustering hlength hvalues, htime,
        columns_value hcell hstored]
      simp [LogicalRow.answer]

end Entry

/-! ### Entries that hold rows -/

variable {layout : Layout} {rows : List LogicalRow} {cells : List Cell}

/-- The entry of a static partition holds its row. -/
theorem holds_staticEntry {clustering : List Bytes} {metadata : Field → Option Datum}
    (h : Stores layout [.wide clustering metadata] cells) (hkind : layout.kind = .static)
    (key : Bytes) :
    (Partition.staticEntry ⟨key, some cells⟩).Holds layout (.wide clustering metadata) := by
  have hwide : layout.kind.isCompact = false := by rw [hkind]; rfl
  obtain ⟨-, -, hstored, -⟩ := h.fits _ List.mem_cons_self
  have hnone : [] = layout.comparables clustering := by
    rw [Layout.comparables, Layout.clustering_of_static hkind]
    rfl
  refine ⟨hnone, rfl, _, rfl, ?_⟩
  intro field hfield
  have hmem : ∀ cell, cell ∈ (LogicalRow.wide clustering metadata).cells layout ∧
      some cell.name = some field.key ↔
        ∃ datum, metadata field = some datum ∧
          datum.cell (layout.wideName clustering field) = cell := by
    intro cell
    refine LogicalRow.mem_cells_of_key (fun cell => some cell.name) ?_ hfield
    intro field _ datum
    show some (layout.wideName clustering field) = some field.key
    rw [Layout.wideName, hkind]
  have hperm : cells.Perm ((LogicalRow.wide clustering metadata).cells layout) := by
    have hperm := h.perm
    rwa [List.flatMap_singleton] at hperm
  -- The cell of the field's key is the cell the field is stored in.
  ext cell
  rw [Partition.liveCell?_eq_some_iff (h.sorted hwide), Option.map_eq_some_iff, ← hmem cell,
    hperm.mem_iff, Option.some_inj]
  constructor
  · rintro ⟨hcell, hname, -⟩
    exact ⟨hcell, hname⟩
  · rintro ⟨hcell, hname⟩
    exact ⟨hcell, hname, LogicalRow.isLive_of_mem_cells (h.fits _ List.mem_cons_self) hcell⟩

/-- The entry of a cell holds the row that is stored in it. -/
theorem holds_compactEntry {row : LogicalRow} {cell : Cell} {clustering : List Bytes}
    (hcells : row.cells layout = [cell]) (hkind : layout.kind.isCompact = true)
    (fits : row.Fits layout) (hclustering : layout.comparables row.clustering = clustering)
    (key : Bytes) : (compactEntry key clustering cell).Holds layout row := by
  obtain ⟨values, value, rfl⟩ := fits.eq_compact hkind
  obtain rfl : value.cell (layout.compactName values) = cell := (List.cons_eq_cons.mp hcells).1
  exact ⟨hclustering.symm, rfl, rfl⟩

/-! ### Cells with composite names -/

/-- A cell with the components of its name, none where it cannot be read. -/
def Cell.named (cell : Cell) : NamedCell :=
  ⟨(Composite.split cell.name).toOption.getD [], cell⟩

namespace Cell

variable {cell : Cell} {components : List Bytes}

/-- The components of a cell are what its name is split into. -/
theorem named_of_split (h : Composite.split cell.name = .ok components) :
    cell.named = ⟨components, cell⟩ := by
  rw [named, h]
  rfl

/-- And so they are the components that the name is stored for. -/
theorem named_eq (h : cell.name = Composite.encode components) :
    cell.named = ⟨components, cell⟩ :=
  named_of_split (by rw [h, Composite.split_encode])

/-- Reading the name keeps the cell. -/
theorem cell_comp_named : NamedCell.cell ∘ named = id :=
  rfl

/-- A name that has been stored can be read. -/
theorem readName_eq (h : cell.name = Composite.encode components) :
    cell.readName = .ok cell.named := by
  rw [named_eq h, readName, h, Composite.split_encode]

/-- A name of the right number of components passes the check of the number. -/
theorem readNameOf_of_split (h : Composite.split cell.name = .ok components) {arity : Nat}
    (hlength : components.length = arity) : cell.readNameOf arity = .ok cell.named := by
  rw [readNameOf, readName, h, Outcome.ok_bind, named_of_split h, if_pos hlength]
  rfl

end Cell

/-- The names of a sparse row's cells: its clustering values, and a field's key. -/
theorem name_of_mem_cells_sparse {row : LogicalRow} (hkind : layout.kind = .sparse)
    (fits : row.Fits layout) {cell : Cell} (hcell : cell ∈ row.cells layout) :
    ∃ field ∈ layout.metadataFields,
      cell.name = Composite.encode (layout.comparables row.clustering ++ [field.key]) := by
  obtain ⟨clustering, metadata, rfl⟩ := fits.eq_wide (by rw [hkind]; rfl)
  obtain ⟨field, hfield, datum, -, rfl⟩ := LogicalRow.mem_cells_wide.mp hcell
  refine ⟨field, hfield, ?_⟩
  show layout.wideName clustering field = _
  rw [Layout.wideName, hkind]
  rfl

section

variable {clustering : List Bytes} {metadata : Field → Option Datum} {run : List NamedCell}

/-- The cell of a metadata field has the clustering values and the field's key in its name. -/
theorem named_cell_sparse (hkind : layout.kind = .sparse) (field : Field) (datum : Datum) :
    (datum.cell (layout.wideName clustering field)).named =
      ⟨layout.comparables clustering ++ [field.key],
        datum.cell (layout.wideName clustering field)⟩ := by
  refine Cell.named_eq ?_
  show layout.wideName clustering field = _
  rw [Layout.wideName, hkind]

/-- The cell of a field in the run of a row's cells. -/
theorem mem_run_iff (hkind : layout.kind = .sparse)
    (hrun : run.Perm (((LogicalRow.wide clustering metadata).cells layout).map Cell.named))
    {field : Field} (hfield : field ∈ layout.metadataFields) {named : NamedCell} :
    named ∈ run ∧ named.components.getLast? = some field.key ↔
      ∃ datum, metadata field = some datum ∧
        (datum.cell (layout.wideName clustering field)).named = named := by
  have hmem : ∀ cell, cell ∈ (LogicalRow.wide clustering metadata).cells layout ∧
      cell.named.components.getLast? = some field.key ↔
        ∃ datum, metadata field = some datum ∧
          datum.cell (layout.wideName clustering field) = cell := by
    intro cell
    refine LogicalRow.mem_cells_of_key (fun cell => cell.named.components.getLast?) ?_ hfield
    intro field _ datum
    rw [named_cell_sparse hkind]
    exact List.getLast?_concat
  rw [hrun.mem_iff, List.mem_map]
  constructor
  · rintro ⟨⟨cell, hcell, rfl⟩, hkey⟩
    obtain ⟨datum, hdatum, rfl⟩ := (hmem cell).mp ⟨hcell, hkey⟩
    exact ⟨datum, hdatum, rfl⟩
  · rintro ⟨datum, hdatum, rfl⟩
    obtain ⟨hcell, hkey⟩ := (hmem _).mpr ⟨datum, hdatum, rfl⟩
    exact ⟨⟨_, hcell, rfl⟩, hkey⟩

/-- Only one cell of the run has the field's key, so the last one is the one. -/
theorem find?_run (hkind : layout.kind = .sparse)
    (hrun : run.Perm (((LogicalRow.wide clustering metadata).cells layout).map Cell.named))
    {field : Field} (hfield : field ∈ layout.metadataFields) :
    (run.reverse.find? fun named => named.components.getLast? == some field.key).map
        NamedCell.cell =
      (metadata field).map fun datum => datum.cell (layout.wideName clustering field) := by
  have hmem : ∀ named, named ∈ run.reverse ∧
      (named.components.getLast? == some field.key) = true ↔
        ∃ datum, metadata field = some datum ∧
          (datum.cell (layout.wideName clustering field)).named = named := by
    intro named
    rw [List.mem_reverse, beq_iff_eq]
    exact mem_run_iff hkind hrun hfield
  -- A row has one cell at most for a field, so the order of the run does not matter.
  have hfind : ∀ named,
      (run.reverse.find? fun named => named.components.getLast? == some field.key) =
        some named ↔
          ∃ datum, metadata field = some datum ∧
            (datum.cell (layout.wideName clustering field)).named = named := by
    intro named
    refine (find?_eq_some_iff_of_unique fun a ha b hb hakey hbkey => ?_).trans (hmem named)
    obtain ⟨datum, hdatum, rfl⟩ := (hmem a).mp ⟨ha, hakey⟩
    obtain ⟨other, hother, rfl⟩ := (hmem b).mp ⟨hb, hbkey⟩
    rw [Option.some.inj (hdatum.symm.trans hother)]
  ext cell
  simp only [Option.map_eq_some_iff, hfind]
  constructor
  · rintro ⟨_, ⟨datum, hdatum, rfl⟩, rfl⟩
    exact ⟨datum, hdatum, rfl⟩
  · rintro ⟨datum, hdatum, rfl⟩
    exact ⟨_, ⟨datum, hdatum, rfl⟩, rfl⟩

/-- The entry of a run holds the row whose cells the run is. -/
theorem holds_sparseEntry (hkind : layout.kind = .sparse)
    (hrun : run.Perm (((LogicalRow.wide clustering metadata).cells layout).map Cell.named))
    (hne : run ≠ []) (key : Bytes) :
    (sparseEntry key run).Holds layout (.wide clustering metadata) := by
  refine ⟨?_, rfl, _, rfl, fun field hfield => find?_run hkind hrun hfield⟩
  -- All cells of the run start with the row's clustering values.
  obtain ⟨named, rest, rfl⟩ := List.exists_cons_of_ne_nil hne
  obtain ⟨cell, hcell, rfl⟩ := List.mem_map.mp (hrun.subset List.mem_cons_self)
  obtain ⟨field, -, datum, -, rfl⟩ := LogicalRow.mem_cells_wide.mp hcell
  show (datum.cell (layout.wideName clustering field)).named.components.dropLast =
    layout.comparables clustering
  rw [named_cell_sparse hkind]
  exact List.dropLast_concat

end

end WideColumn
