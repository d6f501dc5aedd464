import WideColumn.Proofs.Comparisons
import WideColumn.Proofs.Pushdown

/-!
# `WideColumn.Proofs.ExactNames`: asking for selected cells only

Where every clustering field of a sparse table has a value, a plan asks for the cells of the
selected metadata fields, and not for the other cells of the logical row. That is enough to
answer the row, but not to tell that there is one: a row all of whose live cells are of other
fields is not seen. The theorems:

* `mem_names_iff`: the cells that are asked for, among those of the row.
* `Entry.row_filter`: a row is told by the cells of its selected fields.
* `Partition.entries_of_same`: cells with the same clustering values are one row.
* `rows_ofNames`: the cells that are asked for and all cells of the row, in all partitions.
* `Compiled.binds_of_exactComponents`: the clustering values are those of the where clause.

A partition where no cell that is asked for is live has no row, whatever else it holds.
-/

set_option autoImplicit false

namespace WideColumn

open Composite (HasArity encode encode_injective)

/-- The where clause has the field equal a term with this component. -/
def Query.Binds (query : Query) (settings : Settings) (vars : List Bytes) (field : Field)
    (component : Bytes) : Prop :=
  ∃ term, query.Compares settings field .eq term ∧ term.component field vars = .ok component

/-! ### Some of a partition's cells -/

namespace Partition

variable {stored : Partition} {isName : Bytes → Prop} {keep : Cell → Bool}

/-- The partition with the cells that are kept. -/
def keeping (keep : Cell → Bool) (stored : Partition) : Partition :=
  { stored with cells := stored.cells.map fun cells => cells.filter keep }

/-- The partition with the cells of these names. -/
def ofNames (names : List Bytes) : Partition → Partition :=
  keeping fun cell => cell.name ∈ names

/-- The partition with all cells that have these clustering values. -/
def ofClustering (values : List Bytes) : Partition → Partition :=
  keeping fun cell => cell.named.leading = values

/-- Some cell holds something. -/
def HasLive (stored : Partition) : Prop :=
  stored.liveCells ≠ []

instance (stored : Partition) : Decidable stored.HasLive :=
  inferInstanceAs (Decidable (stored.liveCells ≠ []))

/-- Of the cells that are kept the live ones are live. -/
theorem liveCells_keeping (keep : Cell → Bool) (stored : Partition) :
    (stored.keeping keep).liveCells = stored.liveCells.filter keep := by
  unfold liveCells keeping
  cases stored.cells with
  | none => rfl
  | some cells => exact List.filter_comm _ _ _

/-- Keeping some cells adds none and leaves their order. -/
theorem cells_keeping_sublist (keep : Cell → Bool) (stored : Partition) :
    ((stored.keeping keep).cells.getD []).Sublist (stored.cells.getD []) := by
  unfold keeping
  cases stored.cells with
  | none => exact .refl _
  | some cells => exact List.filter_sublist

/-- So it leaves a partition in order. -/
theorem InOrder.keeping (h : stored.InOrder isName) (keep : Cell → Bool) :
    (stored.keeping keep).InOrder isName :=
  ⟨h.sorted.sublist (cells_keeping_sublist keep stored),
    fun cell hcell => h.names cell ((cells_keeping_sublist keep stored).subset hcell)⟩

end Partition

/-! ### The row of the selected cells -/

namespace Entry

variable {values : List Bytes} {cells : List NamedCell} {keep : NamedCell → Bool}

/-- The clustering values of an entry of cells that all have them. -/
theorem clustering_of_same (same : ∀ cell ∈ cells, cell.leading = values)
    (some_cell : cells ≠ []) (key : Bytes) : (sparseEntry key cells).clustering = values := by
  obtain ⟨first, rest, rfl⟩ := List.exists_cons_of_ne_nil some_cell
  exact same first List.mem_cons_self

/-- A row is told by some of its cells, if those of the selected fields are among them. -/
theorem row_filter (same : ∀ cell ∈ cells, cell.leading = values)
    (some_kept : cells.filter keep ≠ []) {selection : List Selected}
    (hkeep : ∀ selected ∈ selection, selected.field.role = .metadata →
      ∀ cell : NamedCell, cell.components.getLast? = some selected.field.key →
        keep cell = true) (key : Bytes) :
    (sparseEntry key (cells.filter keep)).row selection =
      (sparseEntry key cells).row selection := by
  have some_cell : cells ≠ [] := fun hnil => some_kept (by rw [hnil]; rfl)
  have hclustering : (sparseEntry key (cells.filter keep)).clustering =
      (sparseEntry key cells).clustering := by
    rw [clustering_of_same same some_cell, clustering_of_same (fun cell hcell =>
      same cell (List.mem_of_mem_filter hcell)) some_kept]
  refine congrArg (Row.mk key) (List.filterMap_congr fun selected hselected => ?_)
  -- Only a metadata field is looked up among the cells.
  cases hrole : selected.field.role with
  | partitionKey => simp only [column?, hrole, sparseEntry]
  | clustering position =>
      simp only [column?, hrole, hclustering]
      rfl
  | value => simp only [column?, hrole, sparseEntry]
  | metadata =>
      -- The search for a cell of the field passes over the cells that are left out.
      have hfind : ((cells.filter keep).reverse.find? fun cell =>
            cell.components.getLast? == some selected.field.key) =
          cells.reverse.find? fun cell =>
            cell.components.getLast? == some selected.field.key := by
        rw [← List.filter_reverse, List.find?_filter]
        congr 1
        funext cell
        rw [Bool.eq_iff_iff, decide_eq_true_iff, beq_iff_eq]
        exact and_iff_right_of_imp (hkeep selected hselected hrole cell)
      simp only [column?, hrole, sparseEntry, Option.map_some, hfind]

end Entry

/-! ### The names that are asked for -/

namespace Plan

variable {plan : Plan} {values names : List Bytes}

/-- The cell is of a selected metadata field. -/
def IsSelected (plan : Plan) (cell : NamedCell) : Prop :=
  ∃ field ∈ plan.metadataColumns, cell.components.getLast? = some field.key

instance (plan : Plan) (cell : NamedCell) : Decidable (plan.IsSelected cell) :=
  inferInstanceAs (Decidable (∃ field ∈ plan.metadataColumns, _ = _))

/-- A cell is asked for where it has the clustering values and is of a selected field. -/
theorem mem_names_iff {cell : Cell}
    (hnames : names = plan.metadataColumns.map fun field => encode (values ++ [field.key]))
    (hcell : HasArity (values.length + 1) cell.name) :
    cell.name ∈ names ↔ cell.named.leading = values ∧ plan.IsSelected cell.named := by
  obtain ⟨components, hlength, hname⟩ := hcell
  rw [hnames, Cell.named_eq hname, hname, List.mem_map]
  constructor
  · rintro ⟨field, hfield, hencode⟩
    -- No other components have this name.
    obtain rfl := encode_injective hencode
    exact ⟨List.dropLast_concat, field, hfield, List.getLast?_concat⟩
  · rintro ⟨hleading, field, hfield, hlast⟩
    refine ⟨field, hfield, congrArg encode ?_⟩
    rw [← hleading]
    exact List.dropLast_append_getLast? _ hlast

/-- A selected metadata field is one of those asked for. -/
theorem mem_metadataColumns {selected : Selected} (h : selected ∈ plan.columns)
    (hrole : selected.field.role = .metadata) : selected.field ∈ plan.metadataColumns :=
  List.mem_filter.mpr ⟨List.mem_map.mpr ⟨selected, h, rfl⟩, decide_eq_true hrole⟩

end Plan

/-! ### One partition -/

namespace Partition

variable {stored : Partition} {layout : Layout} {plan : Plan} {values names : List Bytes}

/-- Live cells with the same clustering values are one entry, if there are any. -/
theorem entries_of_same (hkind : layout.kind = .sparse)
    (h : stored.InOrder (HasArity layout.arity))
    (same : ∀ cell ∈ stored.liveCells, cell.named.leading = values) :
    stored.entries layout =
      .ok (if stored.HasLive then [sparseEntry stored.key (stored.liveCells.map Cell.named)]
        else []) := by
  rw [entries_sparse hkind h.names_live]
  by_cases hlive : stored.HasLive
  · have some_cell : stored.liveCells.map Cell.named ≠ [] :=
      fun hnil => hlive (List.map_eq_nil_iff.mp hnil)
    rw [if_pos hlive, runs_of_same (List.forall_mem_map.mpr same) some_cell]
    rfl
  · rw [if_neg hlive, not_not.mp hlive]
    rfl

/-- The cells with some clustering values have these values in front of their names. -/
theorem leading_ofClustering :
    ∀ cell ∈ (stored.ofClustering values).liveCells, cell.named.leading = values := by
  intro cell hcell
  rw [ofClustering, liveCells_keeping] at hcell
  exact of_decide_eq_true (List.mem_filter.mp hcell).2

/-- The live cells that are asked for are those of the row that are of a selected field. -/
theorem liveCells_ofNames (h : stored.InOrder (HasArity (values.length + 1)))
    (hnames : names = plan.metadataColumns.map fun field => encode (values ++ [field.key])) :
    (stored.ofNames names).liveCells.map Cell.named =
      ((stored.ofClustering values).liveCells.map Cell.named).filter fun cell =>
        plan.IsSelected cell := by
  rw [ofNames, ofClustering, liveCells_keeping, liveCells_keeping, List.filter_map,
    List.filter_filter]
  refine congrArg _ (List.filter_congr fun cell hcell => ?_)
  have hname := Plan.mem_names_iff hnames (h.names_live cell hcell)
  rw [Bool.eq_iff_iff, decide_eq_true_iff, Bool.and_eq_true, Function.comp_apply,
    decide_eq_true_iff, decide_eq_true_iff, hname, and_comm]

/-- The names asked for start with the clustering values, and so do those of their cells. -/
theorem leading_ofNames (h : stored.InOrder (HasArity (values.length + 1)))
    (hnames : names = plan.metadataColumns.map fun field => encode (values ++ [field.key])) :
    ∀ cell ∈ (stored.ofNames names).liveCells, cell.named.leading = values := by
  intro cell hcell
  rw [ofNames, liveCells_keeping] at hcell
  obtain ⟨hlive, hname⟩ := List.mem_filter.mp hcell
  have hselected := (Plan.mem_names_iff hnames (h.names_live cell hlive)).mp
  exact (hselected (of_decide_eq_true hname)).1

/-- Where a cell that is asked for is live, the cells that are asked for tell the row. -/
theorem row_ofNames (h : stored.InOrder (HasArity (values.length + 1)))
    (hnames : names = plan.metadataColumns.map fun field => encode (values ++ [field.key]))
    (hlive : (stored.ofNames names).HasLive) :
    (stored.ofClustering values).HasLive ∧
      (sparseEntry stored.key ((stored.ofNames names).liveCells.map Cell.named)).row
          plan.columns =
        (sparseEntry stored.key ((stored.ofClustering values).liveCells.map Cell.named)).row
          plan.columns := by
  have hcells := liveCells_ofNames h hnames
  have some_kept : ((stored.ofClustering values).liveCells.map Cell.named).filter
      (fun cell => plan.IsSelected cell) ≠ [] := by
    rw [← hcells]
    exact fun hnil => hlive (List.map_eq_nil_iff.mp hnil)
  refine ⟨fun hnil => some_kept (by rw [hnil]; rfl), ?_⟩
  rw [hcells]
  refine Entry.row_filter (List.forall_mem_map.mpr leading_ofClustering) some_kept
    (fun selected hselected hrole cell hkey => ?_) stored.key
  exact decide_eq_true ⟨_, Plan.mem_metadataColumns hselected hrole, hkey⟩

end Partition

/-! ### All partitions -/

namespace Plan

variable {settings : Settings} {query : Query} {layout : Layout} {indexed : List String}
  {plan : Plan} {bound : Restrictions} {vars values names : List Bytes}

/-- Two readings of partitions have the same rows, where every partition has the same rows
in both, and those that are left out of the second one have none in the first. -/
theorem entries_map_filter {turn other : Partition → Partition} {keep : Partition → Bool}
    {toRow : Entry → Row} {stored : List Partition}
    (h : ∀ partition ∈ stored, ∃ entries entries',
      (turn partition).entries plan.layout = .ok entries ∧
        (other partition).entries plan.layout = .ok entries' ∧
        entries.map toRow = if keep partition then entries'.map toRow else []) :
    ∃ entries entries', plan.entries (stored.map turn) = .ok entries ∧
      plan.entries ((stored.filter keep).map other) = .ok entries' ∧
      entries.map toRow = entries'.map toRow := by
  induction stored with
  | nil => exact ⟨[], [], rfl, rfl, rfl⟩
  | cons partition rest ih =>
      obtain ⟨first, first', hfirst, hfirst', hrows⟩ := h partition List.mem_cons_self
      obtain ⟨others, others', hothers, hothers', hrest⟩ :=
        ih fun stored hstored => h stored (List.mem_cons_of_mem _ hstored)
      have hentries := entries_cons hfirst hothers
      rw [List.map_cons, List.filter_cons]
      -- A partition that is left out has no rows either.
      cases hkeep : keep partition with
      | true =>
          rw [hkeep, if_pos rfl] at hrows
          refine ⟨_, _, hentries, entries_cons hfirst' hothers', ?_⟩
          rw [List.map_append, List.map_append, hrows, hrest]
      | false =>
          rw [hkeep] at hrows
          refine ⟨_, _, hentries, hothers', ?_⟩
          rw [List.map_append, hrows, hrest]
          rfl

/-- The rows of the cells that are asked for are those of the whole rows, of the partitions
where one of these cells is live. -/
theorem rows_ofNames (hkind : plan.layout.kind = .sparse)
    (harity : plan.layout.arity = values.length + 1)
    (hnames : names = plan.metadataColumns.map fun field => encode (values ++ [field.key]))
    {stored : List Partition}
    (hstored : ∀ partition ∈ stored, partition.InOrder (HasArity plan.layout.arity))
    (keep : Partition → Bool) (hkeep : ∀ partition ∈ stored,
      (partition.ofNames names).HasLive ∨ (partition.ofClustering values).HasLive →
        (keep partition = true ↔ (partition.ofNames names).HasLive)) :
    ∃ entries entries', plan.entries (stored.map (Partition.ofNames names)) = .ok entries ∧
      plan.entries ((stored.filter keep).map (Partition.ofClustering values)) = .ok entries' ∧
      entries.map (fun entry => entry.row plan.columns) =
        entries'.map fun entry => entry.row plan.columns := by
  refine entries_map_filter fun partition hmem => ?_
  have horder := hstored partition hmem
  have hexact := horder
  rw [harity] at hexact
  refine ⟨_, _, Partition.entries_of_same hkind (horder.keeping _)
    (Partition.leading_ofNames hexact hnames),
    Partition.entries_of_same hkind (horder.keeping _) Partition.leading_ofClustering, ?_⟩
  by_cases hlive : (partition.ofNames names).HasLive
  · obtain ⟨hwhole, hrow⟩ := Partition.row_ofNames hexact hnames hlive
    rw [if_pos hlive, if_pos hwhole, if_pos ((hkeep partition hmem (.inl hlive)).mpr hlive)]
    exact congrArg (fun row => [row]) hrow
  · -- Without such a cell there is no row, and the one of all cells is left out.
    rw [if_neg hlive]
    by_cases hwhole : (partition.ofClustering values).HasLive
    · rw [if_neg fun hkept => hlive ((hkeep partition hmem (.inr hwhole)).mp hkept)]
      rfl
    · rw [if_neg hwhole]
      exact (ite_self _).symm

/-! ### Accepted queries -/

/-- The component of an exact name is the value of a relation of the where clause. -/
theorem Compiled.binds_of_exactComponent
    (h : Compiled settings query layout indexed plan bound) {field : Field}
    (hfield : field ∈ layout.clusteringFields) {component : Bytes}
    (hcomponent : plan.exactComponent vars field = .ok component) :
    query.Binds settings vars field component := by
  obtain ⟨position, hrole⟩ := Layout.role_of_mem_clusteringFields hfield
  have hmem := Layout.clusteringFields_subset hfield
  obtain ⟨term, hterm, hvalue⟩ := exactComponent_eq_ok hcomponent
  rw [h.restriction?_eq hmem (by rw [hrole]; nofun)] at hterm
  refine ⟨term, (compares_iff h.conditions hmem).mpr ?_, hvalue⟩
  rw [hterm]
  exact List.mem_singleton.mpr rfl

/-- The clustering values that exact names start with are those of the where clause. -/
theorem Compiled.binds_of_exactComponents
    (h : Compiled settings query layout indexed plan bound)
    (hvalues : plan.exactComponents vars = .ok values) :
    List.Forall₂ (query.Binds settings vars) layout.clusteringFields values := by
  have hpairs := Outcome.mapM_eq_ok_iff.mp hvalues
  rw [h.layout_eq] at hpairs
  exact Outcome.forall₂_imp_of_mem hpairs fun field hfield component _ hcomponent =>
    h.binds_of_exactComponent hfield hcomponent

/-- Reading the cells that are asked for, of partitions whose cells have the names of the
table in their order. The answer is the one to all cells that have the clustering values
of the where clause, of those partitions where one of the cells that are asked for is live. -/
theorem process_ofNames (h : compile settings query layout indexed = .ok plan)
    (hkind : layout.kind = .sparse) (hcount : query.count = false)
    (hslice : plan.isCellSlice = false) (hnames : plan.cellNames vars = .ok names)
    {stored : List Partition}
    (hstored : ∀ partition ∈ stored, partition.InOrder (HasArity layout.arity)) :
    ∃ values rowSet,
      List.Forall₂ (query.Binds settings vars) layout.clusteringFields values ∧
      plan.process (stored.map (Partition.ofNames names)) = .ok rowSet ∧
      plan.process ((stored.filter fun partition => (partition.ofNames names).HasLive).map
        (Partition.ofClustering values)) = .ok rowSet ∧
      ((∀ partition ∈ stored, (partition.ofClustering values).HasLive →
          (partition.ofNames names).HasLive) →
        plan.process (stored.map (Partition.ofClustering values)) = .ok rowSet) := by
  obtain ⟨bound, hcompiled⟩ := compile_eq_ok h
  have hnone : plan.count = false := hcompiled.count_eq.trans hcount
  obtain rfl := hcompiled.layout_eq
  rw [cellNames_sparse hslice hkind] at hnames
  obtain ⟨values, hvalues, rfl⟩ := Outcome.map_eq_ok_iff.mp hnames
  have harity : plan.layout.arity = values.length + 1 := by
    rw [Layout.arity_of_sparse hkind, length_exactComponents hvalues]
  obtain ⟨entries, kept, hentries, hkept, hrows⟩ := rows_ofNames hkind harity rfl hstored
    (fun partition => (partition.ofNames _).HasLive) fun _ _ _ => decide_eq_true_iff
  have hfields := hcompiled.selectsFields
  refine ⟨values, _, hcompiled.binds_of_exactComponents hvalues,
    process_eq_rows hfields hnone hentries, ?_, fun hall => ?_⟩
  · rw [process_eq_rows hfields hnone hkept, hrows]
  · -- No partition is left out that has a live cell of the row.
    obtain ⟨others, all, hothers, hentire, hrows'⟩ := rows_ofNames hkind harity rfl hstored
      (fun _ => true) fun partition hmem hlive =>
        iff_of_true rfl (hlive.elim id (hall partition hmem))
    obtain rfl : entries = others := Except.ok.inj (hentries.symm.trans hothers)
    rw [List.filter_true] at hentire
    rw [process_eq_rows hfields hnone hentire, hrows']

/-- The kind of one event of a user. -/
def eventKind : Query :=
  { table := "events", selection := [⟨"kind", true⟩]
    conditions := [.compare ⟨"user", true⟩ .eq (.literal "u"),
      .compare ⟨"seq", true⟩ .eq (.bind 0)] }

/-- Of two events one is asked for, and its kind is live. -/
theorem process_ofNames_events :
    ∃ plan names values rowSet,
      compile { identifierCase := .preserve } eventKind events [] = .ok plan ∧
      plan.cellNames [[0, 0, 0, 0]] = .ok names ∧
      List.Forall₂ (eventKind.Binds { identifierCase := .preserve } [[0, 0, 0, 0]])
        events.clusteringFields values ∧
      plan.process ([⟨[0x75], some eventCells⟩].map (Partition.ofNames names)) = .ok rowSet ∧
      plan.process ([⟨[0x75], some eventCells⟩].map (Partition.ofClustering values)) =
        .ok rowSet := by
  obtain ⟨values, rowSet, hvalues, hnames, -, hall⟩ := @process_ofNames
    { identifierCase := .preserve } eventKind events [] _ [[0, 0, 0, 0]] _ rfl rfl rfl rfl rfl
    [⟨[0x75], some eventCells⟩] (by
      intro partition hpartition
      obtain rfl := List.mem_singleton.mp hpartition
      exact inOrder_eventCells _)
  refine ⟨_, _, values, rowSet, rfl, rfl, hvalues, hnames, hall fun partition hpartition _ => ?_⟩
  obtain rfl := List.mem_singleton.mp hpartition
  decide

/-- An event of which only a note is stored. -/
def notedCell : Cell :=
  ⟨Composite.encode [[0x80, 0, 0, 0], [0x6E, 0x6F, 0x74, 0x65]], [0x63], 7, .live⟩

/-- The event is a row of the cells with its number, and none of the cells that are asked
for, because its kind is not stored. -/
theorem process_ofNames_noted :
    ∃ plan names rowSet other,
      compile { identifierCase := .preserve } eventKind events [] = .ok plan ∧
      plan.isCellSlice = false ∧ plan.cellNames [[0, 0, 0, 0]] = .ok names ∧
      Partition.InOrder (HasArity events.arity) ⟨[0x75], some [notedCell]⟩ ∧
      List.Forall₂ (eventKind.Binds { identifierCase := .preserve } [[0, 0, 0, 0]])
        events.clusteringFields [[0x80, 0, 0, 0]] ∧
      plan.process ([⟨[0x75], some [notedCell]⟩].map (Partition.ofNames names)) = .ok rowSet ∧
      plan.process ([⟨[0x75], some [notedCell]⟩].map
        (Partition.ofClustering [[0x80, 0, 0, 0]])) = .ok other ∧
      rowSet.rows = [] ∧ other.rows = [⟨[0x75], [.unset "kind"]⟩] := by
  refine ⟨_, _, _, _, rfl, rfl, rfl, ⟨List.pairwise_singleton _ _, fun cell hcell => ?_⟩,
    .cons ⟨.bind 0, ⟨_, .tail _ (.head _), rfl, .head _⟩, rfl⟩ .nil, rfl, rfl, ?_, ?_⟩
  · obtain rfl := List.mem_singleton.mp hcell
    exact ⟨_, rfl, rfl⟩
  · decide
  · decide

end Plan

end WideColumn
