import WideColumn.Proofs.Entry

/-!
# `WideColumn.Proofs.Roles`: which fields rows have columns for

Rows of a kind of table have columns for fields of some roles, and for a field of another role
there is an error in the place of the row. `Kind.hasRole` tells the roles of each kind, and every
kind of row is read off its entry where all selected fields have one of them. The theorems:

* `Layout.hasRole_of_mem`: the fields of a layout have roles that rows of its kind have columns
  for, so a field of the table never is an error.
* `Partition.staticColumn?_eq`, `sparseColumn_eq` and `compactColumn_eq`: a field has a column,
  which is the entry's, or the error tells the field, depending on its role only.
* `Partition.staticRow_eq`, `sparseRow_eq` and `compactRow_eq`: the same for rows.
* `Partition.staticRow_eq_error_iff` and its two siblings: a row fails at the first selected
  field whose role is unexpected.
-/

set_option autoImplicit false

namespace WideColumn

/-! ### The roles of a kind -/

/-- The roles of the fields that a row of a kind of table is made of. -/
def Kind.hasRole : Kind → Role → Bool
  | _, .partitionKey => true
  | .static, .metadata => true
  | .sparse, .clustering _ | .sparse, .metadata => true
  | .dynamic, .clustering _ | .dynamic, .value => true
  | .dense, .clustering _ | .dense, .value => true
  | _, _ => false

/-- There is no metadata in tables with one cell per row. -/
theorem Kind.hasRole_metadata_of_compact {kind : Kind} (h : kind.isCompact = true) :
    kind.hasRole .metadata = false := by
  cases kind with
  | static | sparse => cases h
  | dynamic | dense => rfl

/-- Rows of such tables have columns for all other fields. -/
theorem Kind.hasRole_of_compact {kind : Kind} (h : kind.isCompact = true) {role : Role}
    (hrole : role ≠ .metadata) : kind.hasRole role = true := by
  cases role with
  | metadata => exact absurd rfl hrole
  | partitionKey => cases kind <;> rfl
  | clustering | value =>
      cases kind with
      | static | sparse => cases h
      | dynamic | dense => rfl

/-- The fields of a layout have roles that its kind knows. -/
theorem Layout.hasRole_of_mem {layout : Layout} {field : Field} (h : field ∈ layout.fields) :
    layout.kind.hasRole field.role = true := by
  rcases mem_fields_iff.mp h with rfl | hclustering | hvalue | hmetadata
  · show layout.kind.hasRole .partitionKey = true
    cases layout.kind <;> rfl
  · obtain ⟨position, hrole⟩ := role_of_mem_clusteringFields hclustering
    rw [hrole]
    cases hkind : layout.kind with
    | static =>
        rw [Declaration.clusteringFields, clustering_of_static hkind] at hclustering
        cases hclustering
    | sparse | dynamic | dense => rfl
  · rw [role_of_mem_valueField? hvalue]
    cases hkind : layout.kind with
    | static | sparse =>
        rw [valueField?_of_wide (by rw [hkind]; rfl)] at hvalue
        cases hvalue
    | dynamic | dense => rfl
  · rw [role_of_mem_metadataFields hmetadata]
    cases hkind : layout.kind with
    | static | sparse => rfl
    | dynamic | dense =>
        rw [metadataFields_of_compact (by rw [hkind]; rfl)] at hmetadata
        cases hmetadata

/-- The first of the selected fields that rows of the kind have no column for, as an error. -/
def Kind.FirstUnexpected (kind : Kind) (selection : List Selected) (error : Error) : Prop :=
  ∃ before selected after, selection = before ++ selected :: after ∧
    (∀ earlier ∈ before, kind.hasRole earlier.field.role = true) ∧
    kind.hasRole selected.field.role = false ∧ error = selected.field.unexpected kind

/-! ### Columns -/

section

variable {kind : Kind} {selection : List Selected} {entry : Entry} {error : Error}

/-- Where every selected field has a column of its own, these are the columns of the row. -/
theorem Entry.mapM_columns {column : Selected → Except Error Column}
    (h : ∀ selected ∈ selection,
      (column selected).map some = .ok (entry.column? selected)) :
    selection.mapM column = .ok (entry.row selection).columns := by
  show _ = Except.ok (selection.filterMap entry.column?)
  induction selection with
  | nil => rfl
  | cons selected rest ih =>
      obtain ⟨hfirst, hrest⟩ := List.forall_mem_cons.mp h
      obtain ⟨own, hown, hcolumn⟩ := Outcome.map_eq_ok_iff.mp hfirst
      rw [List.mapM_cons, hown, ih hrest, List.filterMap_cons_some hcolumn.symm]
      rfl

/-- Columns that are errors for unexpected roles, and for these only, are an error together
where some role is unexpected. -/
theorem mapM_columns_eq_error_iff {α : Type} {column : Selected → Except Error α}
    (h : ∀ selected error, column selected = .error error ↔
      kind.hasRole selected.field.role = false ∧ error = selected.field.unexpected kind) :
    selection.mapM column = .error error ↔ kind.FirstUnexpected selection error := by
  have hfine : ∀ selected, (∀ error, column selected ≠ .error error) ↔
      kind.hasRole selected.field.role = true := by
    intro selected
    simp only [ne_eq, h, not_and]
    exact ⟨fun hnone => by_contra fun hrole => hnone _ (Bool.eq_false_iff.mpr hrole) rfl,
      fun hrole _ hunexpected => absurd hrole (Bool.eq_false_iff.mp hunexpected)⟩
  simp only [Outcome.mapM_eq_error_iff, hfine, h, Kind.FirstUnexpected]

end

/-! ### Rows of static partitions -/

namespace Partition

/-- A field of a static table has the column that the partition's entry has for it. One that
is neither the key nor metadata is an error. -/
theorem staticColumn?_eq (stored : Partition) (selected : Selected) :
    stored.staticColumn? selected =
      if Kind.static.hasRole selected.field.role then .ok (stored.staticEntry.column? selected)
      else .error (selected.field.unexpected .static) := by
  cases hrole : selected.field.role with
  | partitionKey => simp only [staticColumn?, Entry.column?, hrole]; rfl
  | clustering position => simp only [staticColumn?, hrole]; rfl
  | value => simp only [staticColumn?, hrole]; rfl
  | metadata =>
      simp only [staticColumn?, Entry.column?, hrole, staticEntry]
      cases stored.cells <;> rfl

/-- Where only fields that static rows have columns for are selected, the row is the entry's. -/
theorem staticRow_eq (stored : Partition) {selection : List Selected}
    (hroles : ∀ selected ∈ selection, Kind.static.hasRole selected.field.role = true) :
    stored.staticRow selection = .ok (stored.staticEntry.row selection) := by
  have hcolumns : selection.mapM stored.staticColumn? =
      .ok (selection.map stored.staticEntry.column?) := by
    refine Outcome.mapM_eq_ok_map fun selected hselected => ?_
    rw [staticColumn?_eq, hroles selected hselected, if_pos rfl]
  rw [staticRow, hcolumns]
  show Except.ok (Row.mk stored.key ((selection.map stored.staticEntry.column?).filterMap id)) = _
  rw [List.filterMap_map]
  rfl

/-- A static row fails at the first selected field that is neither the key nor metadata. -/
theorem staticRow_eq_error_iff {stored : Partition} {selection : List Selected} {error : Error} :
    stored.staticRow selection = .error error ↔ Kind.static.FirstUnexpected selection error := by
  refine Outcome.map_eq_error_iff.trans (mapM_columns_eq_error_iff fun selected error => ?_)
  rw [staticColumn?_eq]
  split
  · next hrole => simp [hrole]
  · next hrole => simp [hrole, eq_comm]

end Partition

/-! ### Rows of groups of sparse cells -/

/-- The entry of a group: `leading` are the components that its cells share, and `cells` has
them by the last component of their names. -/
def groupEntry (key : Bytes) (leading : List Bytes) (cells : List (Bytes × Cell)) : Entry :=
  { key
    clustering := leading
    clusteringTime := noTimestamp
    value := none
    metadata := some fun name => cells.lookup name }

/-- A field of a sparse table has the column that the group's entry has for it. A value field
is an error. -/
theorem sparseColumn_eq (key : Bytes) (leading : List Bytes) (cells : List (Bytes × Cell))
    (selected : Selected) :
    (sparseColumn key leading cells selected).map some =
      if Kind.sparse.hasRole selected.field.role then
        .ok ((groupEntry key leading cells).column? selected)
      else .error (selected.field.unexpected .sparse) := by
  cases hrole : selected.field.role with
  | partitionKey | clustering | metadata =>
      simp only [sparseColumn, Entry.column?, groupEntry, hrole]
      rfl
  | value => simp only [sparseColumn, hrole]; rfl

/-- Where only fields that sparse rows have columns for are selected, the row of a group is that
of its entry. -/
theorem sparseRow_eq (key : Bytes) (leading : List Bytes) (cells : List (Bytes × Cell))
    {selection : List Selected}
    (hroles : ∀ selected ∈ selection, Kind.sparse.hasRole selected.field.role = true) :
    sparseRow key leading cells selection =
      .ok ((groupEntry key leading cells).row selection) := by
  have hcolumns : selection.mapM (sparseColumn key leading cells) =
      .ok ((groupEntry key leading cells).row selection).columns := by
    refine Entry.mapM_columns fun selected hselected => ?_
    rw [sparseColumn_eq, hroles selected hselected, if_pos rfl]
  rw [sparseRow, hcolumns]
  rfl

/-- The row of a group fails at the first selected value field. -/
theorem sparseRow_eq_error_iff {key : Bytes} {leading : List Bytes}
    {cells : List (Bytes × Cell)} {selection : List Selected} {error : Error} :
    sparseRow key leading cells selection = .error error ↔
      Kind.sparse.FirstUnexpected selection error := by
  refine Outcome.map_eq_error_iff.trans (mapM_columns_eq_error_iff fun selected error => ?_)
  rw [← Outcome.map_eq_error_iff (f := some), sparseColumn_eq]
  split
  · next hrole => simp [hrole]
  · next hrole => simp [hrole, eq_comm]

/-! ### Rows of single cells -/

section

variable {kind : Kind} {key : Bytes} {components : Option (List Bytes)} {cell : Cell}
  {selection : List Selected}

/-- The clustering values that the name of a cell tells: its components, or the whole name where
it has none. -/
def clusteringOf (components : Option (List Bytes)) (cell : Cell) : List Bytes :=
  components.getD [cell.name]

/-- A field of a dynamic or dense table has the column that the cell's entry has for it. A
metadata field is an error. A name without components tells one clustering value only, so there
has to be no second clustering field. -/
theorem compactColumn_eq (hkind : kind.isCompact = true) {selected : Selected}
    (hplain : components = none → ∀ position, selected.field.role = .clustering position →
      position = 0) :
    (compactColumn kind key components cell selected).map some =
      if kind.hasRole selected.field.role then
        .ok ((compactEntry key (clusteringOf components cell) cell).column? selected)
      else .error (selected.field.unexpected kind) := by
  cases hrole : selected.field.role with
  | partitionKey | value =>
      simp only [compactColumn, Entry.column?, hrole, Kind.hasRole_of_compact hkind, ne_eq,
        reduceCtorEq, not_false_eq_true, if_true]
      rfl
  | clustering position =>
      simp only [compactColumn, Entry.column?, hrole, Kind.hasRole_of_compact hkind, ne_eq,
        reduceCtorEq, not_false_eq_true, if_true]
      cases components with
      | some components => rfl
      | none =>
          obtain rfl := hplain rfl position hrole
          rfl
  | metadata =>
      simp only [compactColumn, hrole, Kind.hasRole_metadata_of_compact hkind]
      rfl

/-- Where only fields that the table can have are selected, the row of a cell is that of its
entry. -/
theorem compactRow_eq (hkind : kind.isCompact = true)
    (hroles : ∀ selected ∈ selection, kind.hasRole selected.field.role = true)
    (hread : cell.components? kind = .ok components)
    (hplain : components = none → ∀ selected ∈ selection, ∀ position,
      selected.field.role = .clustering position → position = 0) :
    compactRow kind key selection cell =
      .ok ((compactEntry key (clusteringOf components cell) cell).row selection) := by
  have hcolumns : selection.mapM (compactColumn kind key components cell) =
      .ok ((compactEntry key (clusteringOf components cell) cell).row selection).columns := by
    refine Entry.mapM_columns fun selected hselected => ?_
    rw [compactColumn_eq hkind fun hnone => hplain hnone selected hselected,
      hroles selected hselected, if_pos rfl]
  rw [compactRow, hread, Outcome.ok_bind, hcolumns]
  rfl

/-- A field of a dynamic or dense table is an error where it is a metadata field. -/
theorem compactColumn_eq_error_iff (hkind : kind.isCompact = true) {selected : Selected}
    {error : Error} : compactColumn kind key components cell selected = .error error ↔
      kind.hasRole selected.field.role = false ∧ error = selected.field.unexpected kind := by
  cases hrole : selected.field.role with
  | partitionKey | clustering | value =>
      simp only [compactColumn, hrole, Kind.hasRole_of_compact hkind, ne_eq, reduceCtorEq,
        not_false_eq_true, Bool.true_eq_false, false_and]
  | metadata =>
      simp only [compactColumn, hrole, Kind.hasRole_metadata_of_compact hkind,
        Except.error.injEq, true_and]
      exact eq_comm

/-- The row of a cell whose name can be read fails at the first selected metadata field. -/
theorem compactRow_eq_error_iff (hkind : kind.isCompact = true)
    (hread : cell.components? kind = .ok components) {error : Error} :
    compactRow kind key selection cell = .error error ↔ kind.FirstUnexpected selection error := by
  rw [compactRow, hread, Outcome.ok_bind]
  exact Outcome.map_eq_error_iff.trans (mapM_columns_eq_error_iff fun selected error =>
    compactColumn_eq_error_iff hkind)

end

end WideColumn
