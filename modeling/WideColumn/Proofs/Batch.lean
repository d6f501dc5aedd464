import WideColumn.Proofs.Partitions

/-!
# `WideColumn.Proofs.Batch`: rows as columns

A batch has a column for every selected field. Rows of a static partition without a container
lack the columns of metadata fields, and what stands behind them has moved up. A batch
therefore looks for a value at its position first, and then under its display name. A display
name is what the query wrote, and two fields can be written alike, one of them in quotes. The
theorems:

* `Row.valueAt_cases`: what is found is a column of the name, or nothing.
* `Entry.valueAt_of_complete`: a row with all its columns has each at its position.
* `Entry.valueAt_of_bare`: a row without metadata has the key under the names of the key.
* `Compiled.column?_eq_none_iff`: only a static partition without a container lacks columns.
* `toBatch_value_iff`: a batch holds the rows' own values except where a missing column has
  the display name that the key is selected under, and there it holds the key.
-/

set_option autoImplicit false

namespace WideColumn

/-- What the batch has for a row in the column at the position. -/
def Batch.value? (batch : Batch) (row position : Nat) : Option (Option Bytes) :=
  batch.columns[position]?.bind fun column => column.values[row]?

/-- A batch has a column for every column of the header. -/
theorem RowSet.names_toBatch (rowSet : RowSet) :
    rowSet.toBatch.columns.map BatchColumn.name = rowSet.header.columns.map ColumnSpec.name := by
  apply List.ext_getElem?
  intro position
  simp [toBatch, List.getElem?_mapIdx, Function.comp_def]

/-- A place of the batch is the value that the row has for the header's column. -/
theorem RowSet.value?_toBatch (rowSet : RowSet) (index position : Nat) :
    rowSet.toBatch.value? index position =
      rowSet.header.columns[position]?.bind fun spec =>
        rowSet.rows[index]?.map fun row => row.valueAt position spec.name := by
  rw [Batch.value?, toBatch, List.getElem?_mapIdx]
  cases rowSet.header.columns[position]? with
  | none => rfl
  | some spec => exact List.getElem?_map

namespace Row

/-- A value found by name is that of some column of the name, and nothing is found where there
is no such column. -/
theorem value?_cases (row : Row) (name : String) :
    (∃ column ∈ row.columns, column.name = name ∧ row.value? name = column.value) ∨
      ((∀ column ∈ row.columns, column.name ≠ name) ∧ row.value? name = none) := by
  unfold value? column?
  cases hfind : row.columns.find? fun column => column.name == name with
  | none =>
      right
      refine ⟨fun column hcolumn hname => ?_, rfl⟩
      have hother := List.find?_eq_none.mp hfind column hcolumn
      simp [hname] at hother
  | some column =>
      left
      have hname : column.name = name := by simpa using List.find?_some hfind
      exact ⟨column, List.mem_of_find?_eq_some hfind, hname, rfl⟩

/-- The same holds where the column at a position comes first. -/
theorem valueAt_cases (row : Row) (position : Nat) (name : String) :
    (∃ column ∈ row.columns, column.name = name ∧
        row.valueAt position name = column.value) ∨
      ((∀ column ∈ row.columns, column.name ≠ name) ∧ row.valueAt position name = none) := by
  unfold valueAt
  split
  · next column hposition =>
      split
      · next hname => exact .inl ⟨column, List.mem_of_getElem? hposition, hname, rfl⟩
      · exact row.value?_cases name
  · exact row.value?_cases name

end Row

/-! ### The row of an entry -/

namespace Entry

variable {entry : Entry} {selection : List Selected} {selected : Selected} {position : Nat}

/-- The value of the entry's own column for a selected field. -/
def value? (entry : Entry) (selected : Selected) : Option Bytes :=
  (entry.column? selected).bind Column.value

/-- The entry has no column for the selected field, and one for the key that is displayed
under the same name. -/
def Shadowed (entry : Entry) (selection : List Selected) (selected : Selected) : Prop :=
  entry.column? selected = none ∧
    ∃ other ∈ selection, other.field.role = .partitionKey ∧ other.display = selected.display

instance (entry : Entry) (selection : List Selected) (selected : Selected) :
    Decidable (entry.Shadowed selection selected) :=
  inferInstanceAs (Decidable (_ ∧ _))

/-- An entry has no value for a field whose column is unset or missing. -/
theorem value?_eq_none_iff : entry.value? selected = none ↔
    entry.column? selected = some (.unset selected.display) ∨ entry.column? selected = none := by
  unfold value?
  cases hcolumn : entry.column? selected with
  | none => simp
  | some column =>
      rcases column?_cases hcolumn with rfl | ⟨value, timestamp, rfl⟩
      · simp [Column.unset]
      · simp [Column.set, Column.unset]

/-- Where every selected field has a column, the columns stand where the fields do. -/
theorem getElem?_row (h : ∀ other ∈ selection, entry.column? other ≠ none)
    (hselected : selection[position]? = some selected) :
    (entry.row selection).columns[position]? = entry.column? selected := by
  show (selection.filterMap entry.column?)[position]? = _
  induction selection generalizing position with
  | nil => simp at hselected
  | cons first rest ih =>
      obtain ⟨hfirst, hrest⟩ := List.forall_mem_cons.mp h
      obtain ⟨column, hcolumn⟩ := Option.ne_none_iff_exists'.mp hfirst
      rw [List.filterMap_cons_some hcolumn]
      cases position with
      | zero =>
          obtain rfl := Option.some.inj hselected
          exact hcolumn.symm
      | succ position => exact ih hrest hselected

/-- Where every selected field has a column, the row has these columns in their order. -/
theorem columns_row {P : Selected → Column → Prop}
    (h : ∀ selected ∈ selection, ∃ column, entry.column? selected = some column ∧
      P selected column) : List.Forall₂ P selection (entry.row selection).columns := by
  show List.Forall₂ P selection (selection.filterMap entry.column?)
  induction selection with
  | nil => exact .nil
  | cons first rest ih =>
      obtain ⟨⟨column, hcolumn, hfirst⟩, hrest⟩ := List.forall_mem_cons.mp h
      rw [List.filterMap_cons_some hcolumn]
      exact .cons hfirst (ih hrest)

/-- Where every selected field has a column, the columns have the display names. -/
theorem names_row (h : ∀ other ∈ selection, entry.column? other ≠ none) :
    (entry.row selection).columns.map Column.name = selection.map Selected.display := by
  have hnames : List.Forall₂ (fun selected column => selected.display = column.name) selection
      (entry.row selection).columns := by
    refine columns_row fun selected hselected => ?_
    obtain ⟨column, hcolumn⟩ := Option.ne_none_iff_exists'.mp (h selected hselected)
    exact ⟨column, hcolumn, (name_of_column? hcolumn).symm⟩
  rw [eq_comm, ← List.forall₂_eq_eq_eq, List.forall₂_map_left_iff, List.forall₂_map_right_iff]
  exact hnames

/-- In a row that lacks no column, every value is at its own place. -/
theorem valueAt_of_complete (h : ∀ other ∈ selection, entry.column? other ≠ none)
    (hselected : selection[position]? = some selected) :
    (entry.row selection).valueAt position selected.display = entry.value? selected := by
  have hposition := getElem?_row h hselected
  cases hcolumn : entry.column? selected with
  | none => exact absurd hcolumn (h selected (List.mem_of_getElem? hselected))
  | some column =>
      rw [hcolumn] at hposition
      rw [Row.valueAt, hposition, value?, hcolumn]
      exact if_pos (name_of_column? hcolumn)

/-- The key is there in every entry. -/
theorem column?_key (h : selected.field.role = .partitionKey) :
    entry.column? selected = some (.set selected.display entry.key noTimestamp) := by
  simp only [column?, h]

/-- Only metadata fields can lack a column, and they do so all at once. -/
theorem column?_eq_none_iff : entry.column? selected = none ↔
    selected.field.role = .metadata ∧ entry.metadata = none := by
  cases hrole : selected.field.role with
  | metadata => simp [column?, hrole]
  | partitionKey | clustering | value => simp [column?, hrole]

/-- A static entry without metadata has nothing but its key, once for every place where the
key is selected. -/
theorem mem_columns_of_bare (hbare : entry.metadata = none)
    (hroles : ∀ other ∈ selection,
      other.field.role = .partitionKey ∨ other.field.role = .metadata) {column : Column} :
    column ∈ (entry.row selection).columns ↔ ∃ other ∈ selection,
      other.field.role = .partitionKey ∧ column = .set other.display entry.key noTimestamp := by
  show column ∈ selection.filterMap entry.column? ↔ _
  rw [List.mem_filterMap]
  constructor
  · rintro ⟨other, hother, hsome⟩
    rcases hroles other hother with hkey | hmetadata
    · rw [column?_key hkey] at hsome
      exact ⟨other, hother, hkey, (Option.some.inj hsome).symm⟩
    · rw [column?_eq_none_iff.mpr ⟨hmetadata, hbare⟩] at hsome
      cases hsome
  · rintro ⟨other, hother, hkey, rfl⟩
    exact ⟨other, hother, column?_key hkey⟩

/-- There a name that is found stands for the key, whichever field it was asked for. -/
theorem valueAt_of_bare (hbare : entry.metadata = none)
    (hroles : ∀ other ∈ selection,
      other.field.role = .partitionKey ∨ other.field.role = .metadata)
    (hselected : selection[position]? = some selected) :
    (entry.row selection).valueAt position selected.display =
      if entry.Shadowed selection selected then some entry.key else entry.value? selected := by
  have hmem := List.mem_of_getElem? hselected
  rcases (entry.row selection).valueAt_cases position selected.display with
    ⟨column, hcolumn, hname, hvalue⟩ | ⟨hnone, hvalue⟩
  · obtain ⟨other, hother, hkey, rfl⟩ := (mem_columns_of_bare hbare hroles).mp hcolumn
    rw [hvalue]
    show some entry.key = _
    rcases hroles selected hmem with hown | hmetadata
    · -- It is the key that has been asked for.
      have hthere : entry.column? selected ≠ none := by simp [column?_key hown]
      rw [if_neg fun hshadowed => hthere hshadowed.1, value?, column?_key hown]
      rfl
    · rw [if_pos ⟨column?_eq_none_iff.mpr ⟨hmetadata, hbare⟩, other, hother, hkey, hname⟩]
  · -- The key is not selected under the name, so it is not the key that has been asked for.
    have hfree : ∀ other ∈ selection, other.field.role = .partitionKey →
        other.display ≠ selected.display := fun other hother hkey =>
      hnone _ ((mem_columns_of_bare hbare hroles).mpr ⟨other, hother, hkey, rfl⟩)
    have hmetadata := (hroles selected hmem).resolve_left fun hkey => hfree selected hmem hkey rfl
    have hshadowed : ¬ entry.Shadowed selection selected := by
      rintro ⟨-, other, hother, hkey, hname⟩
      exact hfree other hother hkey hname
    rw [hvalue, if_neg hshadowed, value?, column?_eq_none_iff.mpr ⟨hmetadata, hbare⟩]
    rfl

end Entry

/-! ### The entries of a plan -/

namespace Partition

variable {stored : Partition} {layout : Layout} {entries : List Entry} {entry : Entry}

/-- A static partition has a single entry. -/
theorem eq_staticEntry_of_mem (hkind : layout.kind = .static)
    (hentries : stored.entries layout = .ok entries) (hentry : entry ∈ entries) :
    entry = stored.staticEntry := by
  simp only [Partition.entries, hkind, Except.ok.injEq] at hentries
  rw [← hentries] at hentry
  exact List.mem_singleton.mp hentry

/-- A sparse entry comes from some cells, so it has metadata to look at. -/
theorem metadata_ne_none_of_mem (hkind : layout.kind = .sparse)
    (hentries : stored.entries layout = .ok entries) (hentry : entry ∈ entries) :
    entry.metadata ≠ none := by
  simp only [Partition.entries, hkind] at hentries
  obtain ⟨named, -, hentries⟩ := Outcome.bind_eq_ok_iff.mp hentries
  cases hentries
  obtain ⟨run, -, rfl⟩ := List.mem_map.mp hentry
  exact Option.some_ne_none _

end Partition

namespace Plan

variable {plan : Plan} {settings : Settings} {query : Query} {layout : Layout}
  {indexed : List String} {bound : Restrictions} {stored : List Partition}
  {entries : List Entry} {entry : Entry} {selected : Selected}

/-- Every entry is of one of the partitions. -/
theorem exists_of_mem_entries (hentries : plan.entries stored = .ok entries)
    (hentry : entry ∈ entries) :
    ∃ partition ∈ stored, ∃ part, partition.entries plan.layout = .ok part ∧ entry ∈ part := by
  obtain ⟨parts, hparts, rfl⟩ := Outcome.map_eq_ok_iff.mp hentries
  obtain ⟨part, hpart, hentry⟩ := List.mem_flatten.mp hentry
  obtain ⟨partition, hstored, hpartition⟩ :=
    Outcome.exists_of_forall₂ (Outcome.mapM_eq_ok_iff.mp hparts).flip hpart
  exact ⟨partition, hstored, part, hpartition, hentry⟩

/-- Arranging entries adds none. -/
theorem mem_of_mem_arrange (h : entry ∈ plan.arrange entries) : entry ∈ entries := by
  have htake := List.mem_of_mem_take h
  split at htake
  · exact List.mem_reverse.mp htake
  · exact htake

namespace Compiled

/-- Only static partitions without a container lack columns, those of their metadata. -/
theorem column?_eq_none_iff (h : Compiled settings query layout indexed plan bound)
    (hentries : plan.entries stored = .ok entries) (hentry : entry ∈ entries)
    (hselected : selected ∈ plan.columns) :
    entry.column? selected = none ↔ selected.field.role = .metadata ∧ layout.kind = .static ∧
      ∃ partition ∈ stored, partition.cells = none ∧ entry = partition.staticEntry := by
  rw [Entry.column?_eq_none_iff]
  refine and_congr_right fun hrole => ?_
  constructor
  · intro hbare
    have hfield : selected.field ∈ layout.metadataFields :=
      Layout.mem_metadataFields_iff.mpr ⟨h.field_mem hselected, hrole⟩
    obtain ⟨partition, hstored, part, hpart, hmem⟩ := exists_of_mem_entries hentries hentry
    rw [h.layout_eq] at hpart
    -- Compact entries have no metadata either, but there is no metadata field to select.
    cases hkind : layout.kind with
    | static =>
        have hstatic := Partition.eq_staticEntry_of_mem hkind hpart hmem
        rw [hstatic] at hbare
        exact ⟨rfl, partition, hstored, Option.map_eq_none_iff.mp hbare, hstatic⟩
    | sparse => exact absurd hbare (Partition.metadata_ne_none_of_mem hkind hpart hmem)
    | dynamic | dense =>
        rw [Layout.metadataFields_of_compact (by rw [hkind]; rfl)] at hfield
        cases hfield
  · rintro ⟨-, partition, -, hnone, rfl⟩
    rw [Partition.staticEntry, hnone]
    rfl

/-- A row has its own value for every selected field, unless the value is missing and the
key has taken the name. -/
theorem valueAt_row (h : Compiled settings query layout indexed plan bound)
    (hentries : plan.entries stored = .ok entries) (hentry : entry ∈ entries) {position : Nat}
    (hselected : plan.columns[position]? = some selected) :
    (entry.row plan.columns).valueAt position selected.display =
      if entry.Shadowed plan.columns selected then some entry.key
      else entry.value? selected := by
  by_cases hcomplete : ∀ other ∈ plan.columns, entry.column? other ≠ none
  · have hthere := hcomplete selected (List.mem_of_getElem? hselected)
    rw [Entry.valueAt_of_complete hcomplete hselected,
      if_neg fun hshadowed => hthere hshadowed.1]
  · -- One missing column is enough to know that the table is static and the entry bare.
    push Not at hcomplete
    obtain ⟨other, hother, hlacking⟩ := hcomplete
    have hbare := (Entry.column?_eq_none_iff.mp hlacking).2
    have hkind := ((h.column?_eq_none_iff hentries hentry hother).mp hlacking).2.1
    refine Entry.valueAt_of_bare hbare (fun field hfield => ?_) hselected
    exact Layout.role_of_static hkind (h.field_mem hfield)

/-- What a batch has in the row of an entry and the column of a selected field. -/
theorem value?_toBatch (h : Compiled settings query layout indexed plan bound)
    (hentries : plan.entries stored = .ok entries) {index position : Nat}
    (hindex : (plan.arrange entries)[index]? = some entry)
    (hselected : plan.columns[position]? = some selected) :
    (RowSet.mk plan.header ((plan.arrange entries).map fun entry =>
        entry.row plan.columns)).toBatch.value? index position =
      some (if entry.Shadowed plan.columns selected then some entry.key
        else entry.value? selected) := by
  have hentry := mem_of_mem_arrange (List.mem_of_getElem? hindex)
  rw [RowSet.value?_toBatch, header, List.getElem?_map, hselected, List.getElem?_map, hindex]
  exact congrArg some (h.valueAt_row hentries hentry hselected)

end Compiled

/-- A batch has the values of the rows it is made of. For every row and every selected field
it holds the value that the row has for the field, or nothing where the row has none, with
one exception: where a static partition without a container lacks the column and the key is
selected under the same display name, it holds the key. -/
theorem toBatch_value_iff (h : compile settings query layout indexed = .ok plan)
    (hcount : query.count = false) {rowSet : RowSet}
    (hprocess : plan.process stored = .ok rowSet) :
    rowSet.toBatch.rowCount = rowSet.rows.length ∧
    rowSet.toBatch.columns.map BatchColumn.name = plan.columns.map Selected.display ∧
    ∃ entries, plan.entries stored = .ok entries ∧
      rowSet.rows = ((plan.arrange entries).map fun entry => entry.row plan.columns) ∧
      ∀ index entry, (plan.arrange entries)[index]? = some entry →
        ∀ position selected, plan.columns[position]? = some selected →
          (rowSet.toBatch.value? index position = some (entry.value? selected) ↔
            ¬ entry.Shadowed plan.columns selected) ∧
          (rowSet.toBatch.value? index position = some none ↔
            (entry.column? selected = some (.unset selected.display) ∨
              entry.column? selected = none) ∧ ¬ entry.Shadowed plan.columns selected) ∧
          (entry.column? selected = none ↔
            selected.field.role = .metadata ∧ layout.kind = .static ∧
              ∃ partition ∈ stored, partition.cells = none ∧ entry = partition.staticEntry) ∧
          (entry.Shadowed plan.columns selected →
            rowSet.toBatch.value? index position = some (some entry.key)) := by
  obtain ⟨bound, hcompiled⟩ := compile_eq_ok h
  obtain ⟨entries, hentries, rfl⟩ :=
    (process_eq_ok_iff hcompiled.selectsFields (hcompiled.count_eq.trans hcount)).mp hprocess
  refine ⟨rfl, ?_, entries, hentries, rfl, ?_⟩
  · rw [RowSet.names_toBatch]
    exact List.map_map
  intro index entry hindex position selected hselected
  have hentry := mem_of_mem_arrange (List.mem_of_getElem? hindex)
  have hlacking := hcompiled.column?_eq_none_iff hentries hentry (List.mem_of_getElem? hselected)
  rw [hcompiled.value?_toBatch hentries hindex hselected]
  by_cases hshadowed : entry.Shadowed plan.columns selected
  · -- The key is not nothing, which is all that the row has itself.
    have hown : entry.value? selected = none := Entry.value?_eq_none_iff.mpr (.inr hshadowed.1)
    simp [hshadowed, hown, hlacking]
  · simp [hshadowed, hlacking, Entry.value?_eq_none_iff]

/-- People, each of whom has a `Name` to be known by and a `name` to be called by. -/
def people : Layout :=
  { name := "people", kind := .static, key := ⟨"Name", .utf8⟩, metadata := [⟨"name", .utf8⟩]
    fits_kind := by decide, names_nodup := by decide }

/-- Both names, of which the first is not in quotes and so is the second field's. -/
def bothNames : Query :=
  { table := "people", selection := [⟨"Name", false⟩, ⟨"Name", true⟩] }

/-- A person nothing is stored of has no name to be called by, and the batch has the key in
its place. -/
theorem toBatch_shadowed_people :
    ∃ plan rowSet entry selected, compile {} bothNames people [] = .ok plan ∧
      plan.process [⟨[0x61], none⟩] = .ok rowSet ∧
      plan.entries [⟨[0x61], none⟩] = .ok [entry] ∧ plan.columns[0]? = some selected ∧
      selected.field = ⟨"name", .metadata, .utf8⟩ ∧ entry.column? selected = none ∧
      rowSet.toBatch.value? 0 0 = some (some [0x61]) :=
  ⟨_, _, _, _, rfl, rfl, rfl, rfl, rfl, rfl, rfl⟩

/-- The batch has the key where the first person's row has it, and there is nothing for the
name of the second, who has a container. -/
theorem toBatch_value_iff_people :
    ∃ plan rowSet, compile {} bothNames people [] = .ok plan ∧
      plan.process [⟨[0x61], none⟩, ⟨[0x62], some []⟩] = .ok rowSet ∧
      rowSet.toBatch.value? 0 1 = some (some [0x61]) ∧
      rowSet.toBatch.value? 1 0 = some none := by
  refine ⟨_, _, rfl, rfl, ?_⟩
  obtain ⟨-, -, entries, hentries, -, hall⟩ := @toBatch_value_iff _ {} bothNames people []
    [⟨[0x61], none⟩, ⟨[0x62], some []⟩] rfl rfl _ rfl
  obtain rfl := Except.ok.inj hentries
  have hunset : Partition.liveCell? ⟨[0x62], some []⟩ [0x6E, 0x61, 0x6D, 0x65] = none := by
    simp [Partition.liveCell?, Partition.search]
  refine ⟨(hall 0 _ rfl 1 _ rfl).1.mpr (by decide), (hall 1 _ rfl 0 _ rfl).2.1.mpr ⟨.inl ?_, ?_⟩⟩
  · show some (cellColumn (Partition.liveCell? ⟨[0x62], some []⟩ [0x6E, 0x61, 0x6D, 0x65]) _ _) = _
    rw [hunset]
    rfl
  · rintro ⟨hlacking, -⟩
    cases hlacking

end Plan

end WideColumn
