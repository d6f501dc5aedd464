import WideColumn.Proofs.Batch
import WideColumn.Proofs.RowOrder

/-!
# `WideColumn.Proofs.Projection`: the select clause

Which rows there are is decided before anything is selected. So the answer to a query is
the answer to the same query for all fields, with the columns of the selected fields taken
out of every row and renamed. The theorems:

* `Entry.column?_eq_map`: a column does not depend on the name it is selected under.
* `Entry.column?_fields`: where all fields are selected, the column found by a field's name
  is the field's, and none is found where the entry has none.
* `Entry.row_eq_project`: the row of some fields is cut out of the row of all fields.
* `Compiled.forAllFields`: a query that is accepted is accepted without its select clause.
* `rows_eq_project`: the rows of a plan and those of the plan for all fields.
-/

set_option autoImplicit false

namespace WideColumn

/-- The column under another name. -/
def Column.renamed (column : Column) (name : String) : Column :=
  { column with name }

/-- The columns of the selected fields, from a row that has them under their own names. A
field is taken as often as it is selected, each time under the name it is selected under,
and left out where the row has no column of it. -/
def Row.project (selection : List Selected) (row : Row) : Row :=
  ⟨row.key, selection.filterMap fun selected =>
    (row.column? selected.field.name).map fun column => column.renamed selected.display⟩

/-! ### One entry -/

/-- Only the name of a cell's column depends on what the field is selected as. -/
theorem Cell.column_renamed (cell : Cell) (field : Field) (name other : String) :
    (cell.column field name).renamed other = cell.column field other := by
  unfold Cell.column
  split
  · cases Counter.total cell.value <;> rfl
  · rfl

/-- The same where there may be no cell. -/
theorem cellColumn_renamed (cell : Option Cell) (field : Field) (name other : String) :
    (cellColumn cell field name).renamed other = cellColumn cell field other := by
  cases cell with
  | none => rfl
  | some cell => exact cell.column_renamed field name other

namespace Entry

variable {entry : Entry} {layout : Layout} {selection : List Selected}

/-- A field has the same column under every name. -/
theorem column?_eq_map (entry : Entry) (selected : Selected) :
    entry.column? selected =
      (entry.columnOf selected.field).map fun column => column.renamed selected.display := by
  cases hrole : selected.field.role with
  | partitionKey | clustering => simp only [columnOf, column?, hrole]; rfl
  | value =>
      simp only [columnOf, column?, hrole, Option.map_some, cellColumn_renamed]
  | metadata =>
      simp only [columnOf, column?, hrole, Option.map_map, Function.comp_def, cellColumn_renamed]

/-- Where all fields are selected, what is found by the name of a field is its column. -/
theorem column?_fields {field : Field} (hmem : field ∈ layout.fields) :
    (entry.row (layout.fields.map fun field => ⟨field, field.name⟩)).column? field.name =
      entry.columnOf field := by
  cases hcolumn : entry.columnOf field with
  | some column => exact column?_row hmem hcolumn
  | none =>
      -- A column of the name would be the column of a field of the name, and so of this one.
      rw [Row.column?, List.find?_eq_none]
      intro column hfound hname
      obtain ⟨selected, hselected, hother⟩ := List.mem_filterMap.mp hfound
      obtain ⟨other, hfield, rfl⟩ := List.mem_map.mp hselected
      have hsame : other.name = field.name :=
        (name_of_columnOf hother).symm.trans (beq_iff_eq.mp hname)
      obtain rfl := Layout.eq_of_name_eq hfield hmem hsame
      have hthere : entry.columnOf other = some column := hother
      rw [hcolumn] at hthere
      cases hthere

/-- The row of some fields is cut out of the row of all fields. -/
theorem row_eq_project (h : ∀ selected ∈ selection, selected.field ∈ layout.fields) :
    entry.row selection =
      (entry.row (layout.fields.map fun field => ⟨field, field.name⟩)).project selection := by
  show Row.mk entry.key (selection.filterMap entry.column?) = Row.mk entry.key _
  congr 1
  refine List.filterMap_congr fun selected hselected => ?_
  rw [column?_fields (h selected hselected), column?_eq_map]

end Entry

/-! ### Plans for all fields -/

namespace Plan

variable {plan : Plan} {settings : Settings} {query : Query} {layout : Layout}
  {indexed : List String} {bound : Restrictions}

/-- The checks of a query without its select clause. -/
theorem Compiled.forAllFields (h : Compiled settings query layout indexed plan bound)
    (hcount : query.count = false) :
    Compiled settings { query with selection := [] } layout indexed
      { plan with selection := [] } bound where
  limit := h.limit
  table := h.table
  selection := by
    show (if query.count = true then _ else _) = _
    rw [hcount]
    rfl
  conditions := h.conditions
  clustering := h.clustering
  index := h.index
  reversal := h.reversal
  layout_eq := h.layout_eq
  reversed_eq := h.reversed_eq
  count_eq := h.count_eq
  consistency_eq := h.consistency_eq
  countColumn_eq := h.countColumn_eq

/-- The select clause names the columns, one after the other. -/
theorem Compiled.columns_named (h : Compiled settings query layout indexed plan bound)
    (hcount : query.count = false) (hselection : query.selection ≠ []) :
    List.Forall₂ (fun name selected =>
      layout.lookup (settings.normalize name) = some selected.field ∧
        selected.display = name.text) query.selection plan.columns := by
  have hbind := h.selection
  rw [bindSelection, hcount, if_neg Bool.false_ne_true, Outcome.mapM_eq_ok_iff] at hbind
  have hsome : plan.isWildcard = false := by
    rw [isWildcard, List.isEmpty_eq_false_iff]
    intro hnone
    rw [hnone] at hbind
    cases hclause : query.selection with
    | nil => exact hselection hclause
    | cons name rest => rw [hclause] at hbind; cases hbind
  rw [columns, hsome, if_neg Bool.false_ne_true]
  refine hbind.imp fun name selected hname => ?_
  obtain ⟨field, hfield, hselected⟩ := Outcome.bind_eq_ok_iff.mp hname
  cases hselected
  exact ⟨resolve_eq_ok hfield, rfl⟩

/-- The rows of a plan are cut out of those of the plan for all fields, from the same
partitions. -/
theorem rows_eq_project (hfields : plan.SelectsFields) (stored : List Partition) :
    plan.rows stored =
      ({ plan with selection := [] }.rows stored).map (List.map (Row.project plan.columns)) := by
  have hall : { plan with selection := [] }.SelectsFields := by
    intro selected hselected
    obtain ⟨field, hfield, rfl⟩ := List.mem_map.mp hselected
    exact hfield
  -- Both have the rows of the same entries: none of their fields has a role that is an error.
  rw [rows_eq hfields, rows_eq hall]
  show (plan.entries stored).map _ = ((plan.entries stored).map _).map _
  cases plan.entries stored with
  | error error => rfl
  | ok entries =>
      show Except.ok (entries.map fun entry => entry.row plan.columns) =
        .ok ((entries.map fun entry =>
          entry.row (plan.layout.fields.map fun field => ⟨field, field.name⟩)).map
            (Row.project plan.columns))
      rw [List.map_map]
      congr 1
      exact List.map_congr_left fun entry _ => entry.row_eq_project hfields

/-- What is done to every row can be done before or after the rows are brought in order. -/
theorem ordered_map (f : Row → Row) (rows : List Row) :
    plan.ordered (rows.map f) = (plan.ordered rows).map f :=
  (map_ordered rows f).symm

/-- The select clause only projects. A query with one is accepted without it too, which
selects all fields. Both fail with the same error, or both have an answer, and then each
row of the first one is the row of the second one at its place, cut down to the columns of
the select clause, in its order, and renamed as it says. The header tells the same names,
and the types of the fields. -/
theorem process_projects (h : compile settings query layout indexed = .ok plan)
    (hcount : query.count = false) (hselection : query.selection ≠ []) :
    List.Forall₂ (fun name selected =>
      layout.lookup (settings.normalize name) = some selected.field ∧
        selected.display = name.text) query.selection plan.columns ∧
    ∃ whole, compile settings { query with selection := [] } layout indexed = .ok whole ∧
      whole.columns = (layout.fields.map fun field => ⟨field, field.name⟩) ∧
      ∀ stored, Outcome.Alike Eq
        (fun answer all =>
          answer.rows = all.rows.map (Row.project plan.columns) ∧
          answer.header = { all.header with
            columns := plan.columns.map fun selected =>
              ⟨selected.display, selected.field.type.shortName⟩ })
        (plan.process stored) (whole.process stored) := by
  obtain ⟨bound, hcompiled⟩ := compile_eq_ok h
  have hwhole := hcompiled.forAllFields hcount
  refine ⟨hcompiled.columns_named hcount hselection, _, hwhole.compile_eq,
    columns_wildcard hwhole.compile_eq rfl hcount, fun stored => ?_⟩
  obtain rfl := hcompiled.layout_eq
  rw [process_eq_map (hcompiled.count_eq.trans hcount),
    process_eq_map (hwhole.count_eq.trans hcount),
    rows_eq_project hcompiled.selectsFields]
  cases { plan with selection := [] }.rows stored with
  | error error => exact .error rfl
  | ok rows =>
      refine .ok ⟨?_, rfl⟩
      show (plan.ordered (rows.map (Row.project plan.columns))).take plan.limit =
        ((plan.ordered rows).take plan.limit).map (Row.project plan.columns)
      rw [ordered_map, List.map_take]

/-- The kind of events, before their number and after it. -/
def eventKinds : Query :=
  { table := "events", selection := [⟨"Kind", false⟩, ⟨"seq", false⟩, ⟨"Kind", false⟩] }

/-- The kind is there twice, spelled as it has been asked for, and the note is not there. -/
theorem process_projects_events :
    ∃ (plan whole : Plan) (answer all : RowSet),
      compile {} eventKinds events [] = .ok plan ∧
      compile {} { eventKinds with selection := [] } events [] = .ok whole ∧
      plan.process [⟨[0x75], some (eventCells.take 1)⟩] = .ok answer ∧
      whole.process [⟨[0x75], some (eventCells.take 1)⟩] = .ok all ∧
      answer.rows = all.rows.map (Row.project plan.columns) ∧
      answer.rows = [⟨[0x75], [.set "Kind" [0x61] 7,
        .set "seq" [0xFF, 0xFF, 0xFF, 0xFF] noTimestamp, .set "Kind" [0x61] 7]⟩] := by
  obtain ⟨-, whole, hwhole, -, halike⟩ :=
    @process_projects _ {} eventKinds events [] rfl rfl (by decide)
  have hanswer := halike [⟨[0x75], some (eventCells.take 1)⟩]
  obtain ⟨all, hall, hrows, -⟩ := hanswer.exists_ok
  exact ⟨_, whole, _, all, rfl, hwhole, rfl, hall, hrows, rfl⟩

end Plan

end WideColumn
