import WideColumn.Proofs.RowOrder
import WideColumn.Proofs.Tombstones

/-!
# `WideColumn.Proofs.SelectedFields`: asking for the selected fields of a static table

A static table is read by the names of the selected metadata fields. A static partition is a
row whatever cells it has, so nothing is lost with the cells of all other names: neither the
row nor the answer to a field, also where the field's cell is deleted or is a counter. The
theorems:

* `liveCell?_keeping`: the halving search ends at the same cell when cells of other names
  are left out.
* `row_staticEntry_ofNames`: the row of a partition is told by the cells of its selected
  fields.
* `rows_static`: the rows of static partitions, one for each.
* `process_ofFieldNames`: the answer from the cells that are asked for is the answer from
  all cells.
-/

set_option autoImplicit false

namespace WideColumn

/-! ### One partition -/

namespace Partition

variable {stored : Partition}

/-- Among sorted cells the search for a name ends alike when cells of other names are left
out, though it takes other steps. -/
theorem liveCell?_keeping (sorted : Sorted (stored.cells.getD [])) {keep : Cell → Bool}
    {name : Bytes} (h : ∀ cell : Cell, cell.name = name → keep cell = true) :
    (stored.keeping keep).liveCell? name = stored.liveCell? name := by
  have hkept : Sorted ((stored.keeping keep).cells.getD []) :=
    sorted.sublist (cells_keeping_sublist keep stored)
  -- Both searches are walks over the live cells, and one walk skips what is left out.
  rw [liveCell?_eq_find? hkept, liveCell?_eq_find? sorted, liveCells_keeping,
    List.find?_filter]
  congr 1
  funext cell
  by_cases hname : cell.name = name
  · simp [hname, h cell hname]
  · simp [hname]

/-- A static partition has a column for a metadata field where it has a container. -/
theorem column?_staticEntry {selected : Selected} (hrole : selected.field.role = .metadata) :
    stored.staticEntry.column? selected = stored.cells.map fun _ =>
      cellColumn (stored.liveCell? selected.field.key) selected.field selected.display := by
  simp only [Entry.column?, hrole, staticEntry, Option.map_map]
  rfl

/-- The row of a static partition is told by the cells of these names, if the names of the
selected metadata fields are among them. -/
theorem row_staticEntry_ofNames (sorted : Sorted (stored.cells.getD []))
    {selection : List Selected} {names : List Bytes}
    (h : ∀ selected ∈ selection, selected.field.role = .metadata →
      selected.field.key ∈ names) :
    (stored.ofNames names).staticEntry.row selection = stored.staticEntry.row selection := by
  apply congrArg (Row.mk stored.key)
  apply List.filterMap_congr
  intro selected hselected
  cases hrole : selected.field.role with
  | partitionKey | clustering position | value =>
      simp only [Entry.column?, hrole, staticEntry, ofNames, keeping]
  | metadata =>
      have hsearch : (stored.ofNames names).liveCell? selected.field.key =
          stored.liveCell? selected.field.key := by
        apply liveCell?_keeping sorted
        intro cell hname
        rw [hname]
        exact decide_eq_true (h selected hselected hrole)
      -- A container whose cells are all left out is still there.
      have hcontainer : (stored.ofNames names).cells =
          stored.cells.map fun cells => cells.filter fun cell => cell.name ∈ names := rfl
      rw [column?_staticEntry hrole, column?_staticEntry hrole, hsearch, hcontainer,
        Option.map_map]
      rfl

end Partition

/-! ### All partitions -/

namespace Plan

variable {plan : Plan} {settings : Settings} {query : Query} {layout : Layout}
  {indexed : List String}

/-- Static partitions are a row each. -/
theorem rows_static (hfields : plan.SelectsFields) (hkind : plan.layout.kind = .static)
    (stored : List Partition) :
    plan.rows stored =
      .ok (stored.map fun partition => partition.staticEntry.row plan.columns) := by
  have hentries : ∀ partition ∈ stored,
      partition.entries plan.layout = .ok [partition.staticEntry] := by
    intro partition _
    rw [Partition.entries, hkind]
  rw [rows_eq hfields, entries, Outcome.mapM_eq_ok_map hentries]
  show Except.ok (((stored.map fun partition => [partition.staticEntry]).flatten).map _) = _
  rw [← List.flatMap_def, ← List.map_eq_flatMap, List.map_map]
  rfl

/-- The names a static table is read by are those of the selected metadata fields. -/
theorem cellNames_static (hkind : plan.layout.kind = .static) (vars : List Bytes) :
    plan.cellNames vars = .ok (plan.metadataColumns.map Field.key) := by
  have hslice : plan.isCellSlice = false := by
    rw [isCellSlice, hkind]
    rfl
  rw [cellNames, hslice, hkind]
  rfl

/-- Reading the cells that are asked for, of static partitions whose cells stand in the
order of their names. There are names to ask for whatever the variables are, and the answer
is the one from all cells. -/
theorem process_ofFieldNames (h : compile settings query layout indexed = .ok plan)
    (hkind : layout.kind = .static) (vars : List Bytes) {stored : List Partition}
    (sorted : ∀ partition ∈ stored, Sorted (partition.cells.getD [])) :
    ∃ names rowSet, plan.cellNames vars = .ok names ∧
      plan.process (stored.map (Partition.ofNames names)) = .ok rowSet ∧
      plan.process stored = .ok rowSet := by
  obtain ⟨bound, hcompiled⟩ := compile_eq_ok h
  have hfields := hcompiled.selectsFields
  rw [← hcompiled.layout_eq] at hkind
  refine ⟨plan.metadataColumns.map Field.key, ?_⟩
  simp only [cellNames_static hkind, true_and]
  cases hcount : plan.count with
  | true =>
      -- A count reads no cell.
      refine ⟨.ofCount plan.countColumn stored.length, ?_, ?_⟩
      · rw [process, hcount, List.length_map]
        rfl
      · rw [process, hcount]
        rfl
  | false =>
      have hrows : plan.rows (stored.map (Partition.ofNames
          (plan.metadataColumns.map Field.key))) = plan.rows stored := by
        rw [rows_static hfields hkind, rows_static hfields hkind, List.map_map]
        apply congrArg
        apply List.map_congr_left
        intro partition hpartition
        apply Partition.row_staticEntry_ofNames (sorted partition hpartition)
        intro selected hselected hrole
        exact List.mem_map_of_mem (mem_metadataColumns hselected hrole)
      rw [process_eq_map hcount, process_eq_map hcount, hrows, rows_static hfields hkind]
      exact ⟨_, rfl, rfl⟩

/-- An account of which an age, a zip code and a deleted city are stored, and one without a
container. Only the city is asked for. -/
theorem process_ofFieldNames_movedAccount :
    ∃ plan names rowSet,
      compile { identifierCase := .preserve } { table := "accounts" } accounts [] = .ok plan ∧
      names = [[0x63, 0x69, 0x74, 0x79]] ∧ plan.cellNames [] = .ok names ∧
      ([movedAccount, ⟨[0x62], none⟩].map (Partition.ofNames names)).map Partition.cells =
        [some [⟨[0x63, 0x69, 0x74, 0x79], [], 2, .tombstone⟩], none] ∧
      plan.process ([movedAccount, ⟨[0x62], none⟩].map (Partition.ofNames names)) =
        .ok rowSet ∧
      plan.process [movedAccount, ⟨[0x62], none⟩] = .ok rowSet := by
  obtain ⟨names, rowSet, hnames, hasked, hall⟩ := @process_ofFieldNames
    _ { identifierCase := .preserve } { table := "accounts" } accounts [] rfl rfl []
    [movedAccount, ⟨[0x62], none⟩] (by
      intro partition hpartition
      rcases List.mem_cons.mp hpartition with rfl | hlast
      · show List.Pairwise _ _
        decide
      · obtain rfl := List.mem_singleton.mp hlast
        exact .nil)
  have hcity : names = [[0x63, 0x69, 0x74, 0x79]] := (Except.ok.inj hnames).symm
  refine ⟨_, names, rowSet, rfl, hcity, hnames, ?_, hasked, hall⟩
  rw [hcity]
  rfl

end Plan

end WideColumn
