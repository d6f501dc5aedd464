import WideColumn.Proofs.Failure

/-!
# `WideColumn.Proofs.Grouping`: how the cells of a sparse table become rows

A walk over the live cells of a sparse partition makes the present group a row whenever the
leading components change, and once more at the end, and of several cells for one metadata field
it keeps the last. Storage keeps cells in order, but the walk does not rely on it: whatever the
order, and however often a name occurs, the rows are those of the maximal runs of cells with the
same leading components. The theorems:

* `maximalRuns_iff`: there is one way to cut cells into maximal runs.
* `Compiled.rows_sparse`: the walk over a partition makes each of these runs a row.
* `Entry.column?_sparseEntry`: what a run answers for a selected field.
* `process_groups`: the rows of sparse partitions.

Runs that are apart are rows of their own, even if their leading components are the same.
-/

set_option autoImplicit false

namespace WideColumn

/-- The cells are cut into runs: no run is empty, the cells of a run have the same leading
components, and those of two runs side by side have not. -/
structure MaximalRuns (cells : List NamedCell) (blocks : List (List NamedCell)) : Prop where
  flatten : blocks.flatten = cells
  some_cell : ∀ run ∈ blocks, run ≠ []
  same : ∀ run ∈ blocks, ∀ cell ∈ run, ∀ other ∈ run, cell.leading = other.leading
  maximal : blocks.IsChain fun run next =>
    ∀ cell ∈ run, ∀ other ∈ next, cell.leading ≠ other.leading

/-- Cells can be cut into maximal runs in one way only. -/
theorem maximalRuns_iff {cells : List NamedCell} {blocks : List (List NamedCell)} :
    MaximalRuns cells blocks ↔ blocks = runs cells := by
  constructor
  · intro h
    rw [runs_eq_splitBy, eq_comm]
    refine List.splitBy_eq_iff.mpr ⟨h.flatten.symm, fun hnil => h.some_cell [] hnil rfl,
      fun run hrun => isChain_of_same (h.same run hrun), ?_⟩
    refine h.maximal.imp_of_mem_imp fun run next hrun hnext hne => ?_
    refine ⟨h.some_cell run hrun, h.some_cell next hnext, decide_eq_false ?_⟩
    exact hne _ (List.getLast_mem _) _ (List.head_mem _)
  · rintro rfl
    refine ⟨flatten_runs cells, fun run => ne_nil_of_mem_runs,
      fun run hrun cell hcell other hother => leading_eq_of_mem_run hrun hcell hother, ?_⟩
    -- It is enough to look at the cells at the seam.
    refine (isChain_runs cells).imp_of_mem_imp fun run next hrun hnext hseam => ?_
    obtain ⟨hlast, hhead, hne⟩ := hseam
    intro cell hcell other hother heq
    refine of_decide_eq_false hne ?_
    rw [leading_eq_of_mem_run hrun (List.getLast_mem hlast) hcell, heq,
      leading_eq_of_mem_run hnext hother (List.head_mem hhead)]

/-! ### What a run answers -/

/-- The column that the run of a partition with this key answers for a selected field. -/
inductive Column.OfRun (key : Bytes) (run : List NamedCell) (selected : Selected) : Column → Prop
  | key (hrole : selected.field.role = .partitionKey) :
      OfRun key run selected (.set selected.display key noTimestamp)
  /-- All cells of the run have the same component at the position. -/
  | clustering {position : Nat} {component : Bytes}
      (hrole : selected.field.role = .clustering position)
      (hcells : ∀ named ∈ run, named.components[position]? = some component) :
      OfRun key run selected
        (.set selected.display (selected.field.type.ofComparable component) noTimestamp)
  /-- There is a cell of the metadata field in the run, and no later one. -/
  | last {before after : List NamedCell} {named : NamedCell}
      (hrole : selected.field.role = .metadata) (hrun : run = before ++ named :: after)
      (hnamed : named.components.getLast? = some selected.field.key)
      (hlater : ∀ later ∈ after, later.components.getLast? ≠ some selected.field.key) :
      OfRun key run selected (named.cell.column selected.field selected.display)
  /-- There is no cell of the metadata field in the run. -/
  | missing (hrole : selected.field.role = .metadata)
      (hnone : ∀ named ∈ run, named.components.getLast? ≠ some selected.field.key) :
      OfRun key run selected (.unset selected.display)

/-- The row that the run of a partition with this key answers. -/
structure Row.OfRun (selection : List Selected) (key : Bytes) (run : List NamedCell) (row : Row) :
    Prop where
  key_eq : row.key = key
  columns : List.Forall₂ (Column.OfRun key run) selection row.columns

section

variable {run : List NamedCell} {selected : Selected} {clustering : Nat}

/-- The last cell of a run for which a test holds. -/
theorem find?_reverse_eq_some {test : NamedCell → Bool} {named : NamedCell}
    (h : run.reverse.find? test = some named) :
    ∃ before after, run = before ++ named :: after ∧ test named = true ∧
      ∀ later ∈ after, test later = false := by
  obtain ⟨htest, front, back, hsplit, hfront⟩ := List.find?_eq_some_iff_append.mp h
  refine ⟨back.reverse, front.reverse, ?_, htest, fun later hlater => ?_⟩
  · rw [← List.reverse_reverse run, hsplit]
    simp
  · simpa using hfront later (List.mem_reverse.mp hlater)

/-- All cells of a run have the clustering values of its first one in their names. -/
theorem getElem?_components_of_same {first : NamedCell}
    (same : ∀ named ∈ run, named.leading = first.leading)
    (harity : ∀ named ∈ run, named.components.length = clustering + 1) {position : Nat}
    (hposition : position < clustering) : ∀ named ∈ run, named.components[position]? =
      some (Composite.componentAt first.leading position) := by
  intro named hnamed
  have hlength := harity named hnamed
  have hleading : named.components[position]? = first.leading[position]? := by
    rw [← same named hnamed, NamedCell.leading, List.getElem?_dropLast, if_pos (by omega)]
  have hroom : position < first.leading.length := by
    rw [← same named hnamed, NamedCell.leading, List.length_dropLast]
    omega
  rw [hleading, Composite.componentAt, List.getD_eq_getElem?_getD, List.getElem?_eq_getElem hroom,
    Option.getD_some]

/-- The entry of a run has a column for every field that a sparse table can have. -/
theorem Entry.column?_sparseEntry (key : Bytes) (hrun : run ≠ [])
    (same : ∀ cell ∈ run, ∀ other ∈ run, cell.leading = other.leading)
    (harity : ∀ named ∈ run, named.components.length = clustering + 1)
    (hposition : ∀ position, selected.field.role = .clustering position → position < clustering)
    (hvalue : selected.field.role ≠ .value) :
    ∃ column, (sparseEntry key run).column? selected = some column ∧
      Column.OfRun key run selected column := by
  cases hrole : selected.field.role with
  | partitionKey => exact ⟨_, column?_key hrole, .key hrole⟩
  | clustering position =>
      obtain ⟨first, rest, rfl⟩ := List.exists_cons_of_ne_nil hrun
      refine ⟨_, by simp only [column?, hrole]; rfl, .clustering hrole ?_⟩
      exact getElem?_components_of_same
        (fun named hnamed => same named hnamed first List.mem_cons_self) harity
        (hposition position hrole)
  | value => exact absurd hrole hvalue
  | metadata =>
      have hcolumn : (sparseEntry key run).column? selected = some (cellColumn
          ((run.reverse.find? fun named => named.components.getLast? == some selected.field.key).map
            NamedCell.cell) selected.field selected.display) := by
        simp only [column?, hrole]
        rfl
      -- The search from the end stops at the last cell that has the field in its name.
      cases hfind : run.reverse.find? fun named =>
          named.components.getLast? == some selected.field.key with
      | none =>
          rw [hfind] at hcolumn
          refine ⟨_, hcolumn, .missing hrole fun named hnamed heq => ?_⟩
          have hother := List.find?_eq_none.mp hfind named (List.mem_reverse.mpr hnamed)
          exact hother (beq_iff_eq.mpr heq)
      | some named =>
          rw [hfind] at hcolumn
          obtain ⟨before, after, hsplit, hnamed, hlater⟩ := find?_reverse_eq_some hfind
          refine ⟨_, hcolumn, .last hrole hsplit (beq_iff_eq.mp hnamed) fun later hmem heq => ?_⟩
          have hother := hlater later hmem
          rw [beq_iff_eq.mpr heq] at hother
          cases hother

end

/-! ### Partitions and answers -/

namespace Plan

variable {plan : Plan} {settings : Settings} {query : Query} {layout : Layout}
  {indexed : List String} {bound : Restrictions} {stored : Partition}

/-- The runs of a sparse partition and their rows. -/
theorem Compiled.rows_of_runs (h : Compiled settings query layout indexed plan bound)
    (hkind : layout.kind = .sparse)
    (hnames : ∀ cell ∈ stored.liveCells, Composite.ReadsAs layout.arity cell.name) :
    List.Forall₂ (Row.OfRun plan.columns stored.key) (runs (stored.liveCells.map Cell.named))
      ((runs (stored.liveCells.map Cell.named)).map fun run =>
        (sparseEntry stored.key run).row plan.columns) := by
  rw [List.forall₂_map_right_iff, List.forall₂_same]
  intro run hrun
  have harity : ∀ named ∈ run, named.components.length = layout.clustering.length + 1 := by
    intro named hnamed
    obtain ⟨cell, hcell, rfl⟩ := List.mem_map.mp (exists_run_iff.mp ⟨run, hrun, hnamed⟩)
    rw [Cell.length_components_named (hnames cell hcell), Layout.arity_of_sparse hkind]
  -- The layout settles which fields can be selected: no value field, and clustering fields
  -- whose positions come before the last component.
  refine ⟨rfl, Entry.columns_row fun selected hselected => ?_⟩
  refine Entry.column?_sparseEntry stored.key (ne_nil_of_mem_runs hrun)
    (fun cell hcell other hother => leading_eq_of_mem_run hrun hcell hother) harity ?_ ?_
  · intro position hrole
    have hfield := Layout.getElem?_clusteringFields_iff.mpr ⟨h.field_mem hselected, hrole⟩
    rw [← Layout.length_clusteringFields]
    exact (List.getElem?_eq_some_iff.mp hfield).1
  · intro hvalue
    have hrole := h.hasRole hselected
    rw [hkind, hvalue] at hrole
    cases hrole

/-- The walk over a sparse partition makes every run a row. -/
theorem Compiled.rows_sparse (h : Compiled settings query layout indexed plan bound)
    (hkind : layout.kind = .sparse)
    (hnames : ∀ cell ∈ stored.liveCells, Composite.ReadsAs layout.arity cell.name) :
    stored.rows layout plan.columns =
      .ok ((runs (stored.liveCells.map Cell.named)).map fun run =>
        (sparseEntry stored.key run).row plan.columns) := by
  have hroles : ∀ selected ∈ plan.columns, Kind.sparse.hasRole selected.field.role = true := by
    intro selected hselected
    rw [← hkind]
    exact h.hasRole hselected
  rw [Partition.rows, hkind]
  simp only [Partition.sparseRows_eq stored hroles, mapM_readNameOf hnames, Outcome.map_ok]

/-- Sparse partitions become rows run by run. Whatever the order of the cells, and however often
a name occurs, as long as the name of every live cell is read as as many components as the table
has, a query that does not count answers the first rows, or the first from the back, of all
partitions together. The live cells of each partition are cut into maximal runs, which can be
done in one way only, and every run has one row, in the order of the runs: its clustering
columns are the components in the names of the run's cells, and a metadata column is read from
the last cell of the run that has the field in its name. -/
theorem process_groups (h : compile settings query layout indexed = .ok plan)
    (hkind : layout.kind = .sparse) (hcount : query.count = false) {stored : List Partition}
    (hnames : ∀ partition ∈ stored, ∀ cell ∈ partition.liveCells,
      Composite.ReadsAs layout.arity cell.name) :
    ∃ parts : List (List Row),
      plan.process stored = .ok ⟨plan.header,
        (if query.reversed then parts.flatten.reverse else parts.flatten).take
          query.limit.toInt.toNat⟩ ∧
      List.Forall₂ (fun partition rows => ∃ blocks,
          MaximalRuns (partition.liveCells.map Cell.named) blocks ∧
          (∀ others, MaximalRuns (partition.liveCells.map Cell.named) others → others = blocks) ∧
          List.Forall₂ (Row.OfRun plan.columns partition.key) blocks rows)
        stored parts := by
  obtain ⟨bound, hcompiled⟩ := compile_eq_ok h
  -- What the walk over the cells of a partition makes of them is one row a run.
  have hrows : plan.rows stored = .ok (stored.map fun partition =>
      (runs (partition.liveCells.map Cell.named)).map fun run =>
        (sparseEntry partition.key run).row plan.columns).flatten := by
    refine Outcome.map_eq_ok_iff.mpr ⟨_, Outcome.mapM_eq_ok_map fun partition hmem => ?_, rfl⟩
    rw [hcompiled.layout_eq]
    exact hcompiled.rows_sparse hkind (hnames partition hmem)
  refine ⟨stored.map fun partition => (runs (partition.liveCells.map Cell.named)).map fun run =>
    (sparseEntry partition.key run).row plan.columns, ?_, ?_⟩
  · have hlimit : query.limit.toInt.toNat = plan.limit := by
      rw [← hcompiled.limit_eq.1, Int.toNat_natCast]
    rw [process_eq_map (hcompiled.count_eq.trans hcount), hrows, Outcome.map_ok, ordered,
      hcompiled.reversed_eq, hlimit]
  · rw [List.forall₂_map_right_iff, List.forall₂_same]
    intro partition hmem
    exact ⟨_, maximalRuns_iff.mpr rfl, fun others => maximalRuns_iff.mp,
      hcompiled.rows_of_runs hkind (hnames partition hmem)⟩

/-- The kind of the event with this number. -/
def kindCell (seq kind : Bytes) : Cell :=
  ⟨Composite.encode [seq, Text.Utf8.ofString "kind"], kind, 7, .live⟩

/-- Cells in no order: two for the kind of one event, one for that of the event before it, and
one more for the first. Between the first two there is a deleted one. -/
def shuffledCells : List Cell :=
  [kindCell [0x80, 0, 0, 1] [0x61], { kindCell [0x80, 0, 0, 0] [0x61] with kind := .tombstone },
    kindCell [0x80, 0, 0, 1] [0x62], kindCell [0x80, 0, 0, 0] [0x63],
    kindCell [0x80, 0, 0, 1] [0x64]]

/-- Every live one of the shuffled cells is for the kind of some event. -/
theorem exists_kindCell_of_mem {key : Bytes} {cell : Cell}
    (h : cell ∈ Partition.liveCells ⟨key, some shuffledCells⟩) :
    ∃ seq kind, cell = kindCell seq kind := by
  have hlive : cell ∈ [kindCell [0x80, 0, 0, 1] [0x61], kindCell [0x80, 0, 0, 1] [0x62],
      kindCell [0x80, 0, 0, 0] [0x63], kindCell [0x80, 0, 0, 1] [0x64]] := h
  simp only [List.mem_cons, List.not_mem_nil, or_false] at hlive
  rcases hlive with rfl | rfl | rfl | rfl
  · exact ⟨_, _, rfl⟩
  · exact ⟨_, _, rfl⟩
  · exact ⟨_, _, rfl⟩
  · exact ⟨_, _, rfl⟩

/-- There are three runs, as the deleted cell does not part the first two cells. The later of
these counts, and the last cell is a row of its own. -/
theorem process_groups_shuffledCells :
    ∃ plan answer parts, compile { identifierCase := .preserve } { table := "events" } events [] =
        .ok plan ∧
      plan.process [⟨[0x75], some shuffledCells⟩] = .ok answer ∧
      answer.rows.map (fun row => row.value? "kind") = [some [0x62], some [0x63], some [0x64]] ∧
      answer.rows = (List.flatten parts).take plan.limit ∧
      List.Forall₂ (fun (partition : Partition) rows => ∃ blocks,
          MaximalRuns (partition.liveCells.map Cell.named) blocks ∧
          List.Forall₂ (Row.OfRun plan.columns partition.key) blocks rows)
        [⟨[0x75], some shuffledCells⟩] parts := by
  have hnames : ∀ partition ∈ [(⟨[0x75], some shuffledCells⟩ : Partition)],
      ∀ cell ∈ partition.liveCells, Composite.ReadsAs events.arity cell.name := by
    intro partition hpartition cell hcell
    rw [List.mem_singleton.mp hpartition] at hcell
    obtain ⟨seq, kind, rfl⟩ := exists_kindCell_of_mem hcell
    exact ⟨_, Composite.split_encode _, rfl⟩
  obtain ⟨parts, hprocess, hparts⟩ := @process_groups _ { identifierCase := .preserve }
    { table := "events" } events [] rfl rfl rfl _ hnames
  refine ⟨_, _, parts, rfl, rfl, rfl, ?_, ?_⟩
  · exact congrArg RowSet.rows (Except.ok.inj hprocess)
  · refine hparts.imp fun partition rows h => ?_
    obtain ⟨blocks, hruns, -, hrows⟩ := h
    exact ⟨blocks, hruns, hrows⟩

end Plan

end WideColumn
