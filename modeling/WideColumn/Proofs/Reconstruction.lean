import WideColumn.Proofs.Partitions

/-!
# `WideColumn.Proofs.Reconstruction`: reading back what has been stored

Reconstruction undoes the storage of logical rows: for every row an entry is cut out of
the cells that holds it. The theorems:

* `Stores.recovers_static` / `Stores.recovers_sparse` / `Stores.recovers_compact`: the
  entries of a partition, for each way of cutting cells into entries.
* `Plan.process_singleton` / `Plan.columns_wildcard`: from entries to the rows answered to
  a query for all fields.
-/

set_option autoImplicit false

namespace WideColumn

/-! ### Partitions as entries -/

variable {layout : Layout} {rows : List LogicalRow} {cells : List Cell}

/-- The cells are those of one row after the other. -/
def InCellOrder (layout : Layout) (rows : List LogicalRow) (cells : List Cell) : Prop :=
  ∃ blocks : List (List Cell),
    List.Forall₂ (fun row block => block.Perm (row.cells layout)) rows blocks ∧
      cells = blocks.flatten

/-- The entry of a partition with the key holds the row. -/
def EntryOf (layout : Layout) (key : Bytes) (row : LogicalRow) (entry : Entry) : Prop :=
  entry.key = key ∧ entry.Holds layout row

/-- The entries of the partition of the key hold the rows, each its own, in the order of
the rows' cells. -/
def Recovers (layout : Layout) (rows : List LogicalRow) (cells : List Cell) (key : Bytes) :
    Prop :=
  ∃ (ordered : List LogicalRow) (entries : List Entry), ordered.Perm rows ∧
    InCellOrder layout ordered cells ∧
    Partition.entries ⟨key, some cells⟩ layout = .ok entries ∧
    List.Forall₂ (EntryOf layout key) ordered entries

/-- The cells of rows with one cell each, side by side with the rows. -/
theorem forall₂_cells_of_compact (hkind : layout.kind.isCompact = true)
    (hfits : ∀ row ∈ rows, row.Fits layout) :
    List.Forall₂ (fun cell row => LogicalRow.cells layout row = [cell])
      (rows.flatMap (LogicalRow.cells layout)) rows := by
  induction rows with
  | nil => exact .nil
  | cons row rows ih =>
      have hrest := ih fun other hother => hfits other (List.mem_cons_of_mem _ hother)
      obtain ⟨cell, hcell, -⟩ := (hfits row List.mem_cons_self).cells_eq_singleton hkind
      rw [List.flatMap_cons, hcell]
      exact .cons hcell hrest

namespace Stores

/-- All cells hold something. -/
theorem liveCells_eq (h : Stores layout rows cells) (key : Bytes) :
    Partition.liveCells ⟨key, some cells⟩ = cells := by
  show cells.filter Cell.isLive = cells
  rw [List.filter_eq_self]
  intro cell hcell
  obtain ⟨row, hrow, hmem⟩ := List.mem_flatMap.mp (h.perm.subset hcell)
  exact LogicalRow.isLive_of_mem_cells (h.fits row hrow) hmem

/-- Where every row has one cell, the cells give the order of the rows. -/
theorem exists_rows_of_cells (h : Stores layout rows cells)
    (hkind : layout.kind.isCompact = true) :
    ∃ ordered : List LogicalRow, ordered.Perm rows ∧
      List.Forall₂ (fun cell row => row.cells layout = [cell]) cells ordered := by
  have hsingle := forall₂_cells_of_compact hkind h.fits
  obtain ⟨ordered, hpairs, hperm⟩ := List.perm_comp_forall₂ h.perm hsingle
  exact ⟨ordered, hperm, hpairs⟩

/-- A static partition is one entry. -/
theorem recovers_static (h : Stores layout rows cells) (hkind : layout.kind = .static)
    (key : Bytes) : Recovers layout rows cells key := by
  obtain ⟨row, rfl⟩ := List.length_eq_one_iff.mp (h.one hkind)
  have hperm : cells.Perm (row.cells layout) := by
    have hperm := h.perm
    rwa [List.flatMap_singleton] at hperm
  refine ⟨[row], [Partition.staticEntry ⟨key, some cells⟩], .refl _,
    ⟨[cells], .cons hperm .nil, by simp⟩, ?_, .cons ⟨rfl, ?_⟩ .nil⟩
  · rw [Partition.entries, hkind]
  · obtain ⟨clustering, metadata, rfl⟩ :=
      (h.fits row List.mem_cons_self).eq_wide (by rw [hkind]; rfl)
    exact holds_staticEntry h hkind key

/-- The name of a sparse cell has as many components as the table has. -/
theorem hasArity_sparse (h : Stores layout rows cells) (hkind : layout.kind = .sparse) :
    ∀ cell ∈ cells, Composite.HasArity layout.arity cell.name := by
  intro cell hcell
  obtain ⟨row, hrow, hmem⟩ := List.mem_flatMap.mp (h.perm.subset hcell)
  obtain ⟨field, -, hname⟩ := name_of_mem_cells_sparse hkind (h.fits row hrow) hmem
  refine ⟨_, ?_, hname⟩
  rw [List.length_append, Layout.length_comparables (h.fits row hrow).length_clustering,
    Layout.arity_of_sparse hkind]
  rfl

/-- The name of a dense cell has as many components as there are clustering fields. -/
theorem hasArity_dense (h : Stores layout rows cells) (hkind : layout.kind = .dense) :
    ∀ cell ∈ cells, Composite.HasArity layout.arity cell.name := by
  intro cell hcell
  obtain ⟨row, hrow, hmem⟩ := List.mem_flatMap.mp (h.perm.subset hcell)
  obtain ⟨only, honly, hname⟩ := (h.fits row hrow).cells_eq_singleton (by rw [hkind]; rfl)
  rw [honly, List.mem_singleton] at hmem
  refine ⟨layout.comparables row.clustering, ?_, ?_⟩
  · rw [Layout.length_comparables (h.fits row hrow).length_clustering,
      Layout.arity_of_dense hkind]
  · rw [hmem, hname, Layout.compactName, hkind]

/-- Rows of a sparse table have different names to start their cells' names with. -/
theorem sparse_distinct (h : Stores layout rows cells) (hkind : layout.kind = .sparse) :
    (rows.map fun row => layout.comparables row.clustering).Nodup := by
  have hdistinct := h.distinct hkind
  rw [List.Nodup, List.pairwise_map] at hdistinct ⊢
  refine List.Pairwise.imp_of_mem (fun {row other} hrow hother hne heq => hne ?_) hdistinct
  exact Layout.comparables_injective (h.fits row hrow).length_clustering
    (h.fits other hother).length_clustering heq

/-- A sparse partition is an entry a run. -/
theorem recovers_sparse (h : Stores layout rows cells) (hkind : layout.kind = .sparse)
    (key : Bytes) : Recovers layout rows cells key := by
  have hperm : (cells.map Cell.named).Perm
      (rows.flatMap fun row => (row.cells layout).map Cell.named) := by
    have hmap := h.perm.map Cell.named
    rwa [List.map_flatMap] at hmap
  have hstored : ∀ row ∈ rows, (row.cells layout).map Cell.named ≠ [] := by
    intro row hrow hnone
    exact (h.fits row hrow).cells_ne_nil hkind (List.map_eq_nil_iff.mp hnone)
  have hleading : ∀ row ∈ rows, ∀ named ∈ (row.cells layout).map Cell.named,
      named.leading = layout.comparables row.clustering := by
    intro row hrow named hnamed
    obtain ⟨cell, hcell, rfl⟩ := List.mem_map.mp hnamed
    obtain ⟨field, -, hname⟩ := name_of_mem_cells_sparse hkind (h.fits row hrow) hcell
    rw [Cell.named_eq hname]
    exact List.dropLast_concat
  -- The rows in the order of their runs.
  have hnames := h.hasArity_sparse hkind
  have hsorted := pairwise_leading (h.sorted (by rw [hkind]; rfl)) hnames
  obtain ⟨ordered, hordered, hpairs⟩ := exists_rows_of_runs hsorted hstored hleading
    (h.sparse_distinct hkind) hperm
  refine ⟨ordered, (runs (cells.map Cell.named)).map (sparseEntry key), hordered,
    ⟨(runs (cells.map Cell.named)).map (List.map NamedCell.cell), ?_, ?_⟩, ?_, ?_⟩
  · -- Without the components a run is the cells of its row again.
    rw [List.forall₂_map_right_iff]
    refine hpairs.imp fun row run hrun => ?_
    have hcells := hrun.map NamedCell.cell
    rwa [List.map_map, Cell.cell_comp_named, List.map_id] at hcells
  · rw [← List.map_flatten, flatten_runs, List.map_map, Cell.cell_comp_named, List.map_id]
  · have hlive := h.liveCells_eq key
    rw [Partition.entries_sparse hkind (by rwa [hlive]), hlive]
  · rw [List.forall₂_map_right_iff]
    refine Outcome.forall₂_imp_of_mem hpairs fun row hrow run hrun hcells => ⟨rfl, ?_⟩
    obtain ⟨clustering, metadata, rfl⟩ :=
      (h.fits row (hordered.subset hrow)).eq_wide (by rw [hkind]; rfl)
    exact holds_sparseEntry hkind hcells (ne_nil_of_mem_runs hrun) key

/-- The entries of single cells, whose names tell the clustering values. -/
theorem recovers_compact (h : Stores layout rows cells) (hkind : layout.kind.isCompact = true)
    (key : Bytes) (clusteringOf : Cell → List Bytes)
    (hclustering : ∀ row ∈ rows, ∀ cell : Cell,
      cell.name = layout.compactName row.clustering →
        layout.comparables row.clustering = clusteringOf cell)
    (hentries : Partition.entries ⟨key, some cells⟩ layout =
      .ok (cells.map fun cell => compactEntry key (clusteringOf cell) cell)) :
    Recovers layout rows cells key := by
  obtain ⟨ordered, hordered, hpairs⟩ := h.exists_rows_of_cells hkind
  have hpairs : List.Forall₂ (fun row cell => row.cells layout = [cell]) ordered cells :=
    hpairs.flip
  refine ⟨ordered, _, hordered, ⟨cells.map fun cell => [cell], ?_, ?_⟩, hentries, ?_⟩
  · rw [List.forall₂_map_right_iff]
    exact hpairs.imp fun row cell hcell => .of_eq hcell.symm
  · rw [← List.flatMap_def, List.flatMap_singleton']
  · rw [List.forall₂_map_right_iff]
    refine Outcome.forall₂_imp_of_mem hpairs fun row hrow cell _ hcell => ⟨rfl, ?_⟩
    have hmem := hordered.subset hrow
    obtain ⟨only, honly, hname⟩ := (h.fits row hmem).cells_eq_singleton hkind
    obtain rfl : only = cell := (List.cons_eq_cons.mp (honly.symm.trans hcell)).1
    exact holds_compactEntry hcell hkind (h.fits row hmem) (hclustering row hmem only hname) key

/-- A dynamic partition is an entry a cell, whose name is the clustering value. -/
theorem recovers_dynamic (h : Stores layout rows cells) (hkind : layout.kind = .dynamic)
    (key : Bytes) : Recovers layout rows cells key := by
  have hcompact : layout.kind.isCompact = true := by rw [hkind]; rfl
  refine h.recovers_compact hcompact key (fun cell => [cell.name]) ?_ ?_
  · intro row hrow cell hname
    have hlength := Layout.length_comparables (h.fits row hrow).length_clustering
    rw [Layout.length_clustering_of_dynamic hkind] at hlength
    obtain ⟨component, hcomponent⟩ := List.length_eq_one_iff.mp hlength
    rw [hname, Layout.compactName, hkind, hcomponent]
    rfl
  · rw [Partition.entries, hkind]
    simp only [h.liveCells_eq]

/-- A dense partition is an entry a cell, whose name has the clustering values. -/
theorem recovers_dense (h : Stores layout rows cells) (hkind : layout.kind = .dense)
    (key : Bytes) : Recovers layout rows cells key := by
  have hcompact : layout.kind.isCompact = true := by rw [hkind]; rfl
  refine h.recovers_compact hcompact key (fun cell => cell.named.components) ?_ ?_
  · intro row hrow cell hname
    rw [Layout.compactName, hkind] at hname
    rw [Cell.named_eq hname]
  · have hlive := h.liveCells_eq key
    rw [Partition.entries_dense hkind (by rw [hlive]; exact h.hasArity_dense hkind), hlive]

/-- The entries of a partition hold its rows, in the order of their cells. -/
theorem recovers (h : Stores layout rows cells) (key : Bytes) :
    Recovers layout rows cells key := by
  cases hkind : layout.kind with
  | static => exact h.recovers_static hkind key
  | sparse => exact h.recovers_sparse hkind key
  | dynamic => exact h.recovers_dynamic hkind key
  | dense => exact h.recovers_dense hkind key

end Stores

/-! ### Rows -/

namespace Plan

variable {plan : Plan} {settings : Settings} {query : Query} {indexed : List String}

/-- The rows of one partition, where there is nothing to reverse or to leave out. -/
theorem process_singleton (hfields : plan.SelectsFields) (hcount : plan.count = false)
    (hreversed : plan.reversed = false) {stored : Partition} {entries : List Entry}
    (hentries : stored.entries plan.layout = .ok entries)
    (hlimit : entries.length ≤ plan.limit) :
    plan.process [stored] =
      .ok ⟨plan.header, entries.map fun entry => entry.row plan.columns⟩ := by
  have hall : plan.entries [stored] = .ok (entries ++ []) := entries_cons hentries rfl
  have harrange : plan.arrange (entries ++ []) = entries := by
    rw [arrange, hreversed, List.append_nil]
    exact List.take_of_length_le hlimit
  rw [process_eq hfields hcount hall, harrange]

/-- Without a select clause all fields are selected. -/
theorem columns_wildcard (h : compile settings query layout indexed = .ok plan)
    (hselection : query.selection = []) (hcount : query.count = false) :
    plan.columns = layout.fields.map fun field => ⟨field, field.name⟩ := by
  obtain ⟨bound, hcompiled⟩ := compile_eq_ok h
  have hnone : plan.selection = [] := by
    have hbind := hcompiled.selection
    rw [bindSelection, hcount, hselection] at hbind
    simp only [Bool.false_eq_true, if_false, List.mapM_nil, Outcome.pure_eq_ok,
      Except.ok.injEq] at hbind
    exact hbind.symm
  rw [columns, isWildcard, hnone, hcompiled.layout_eq]
  rfl

/-- Reconstruction undoes storage. When the cells of a partition are what some rows are
stored in, a query for all fields that neither counts nor reverses, and whose limit
there are no more rows than, answers the rows, in the order of their cells. -/
theorem process_stores (h : compile settings query layout indexed = .ok plan)
    (hselection : query.selection = []) (hcount : query.count = false)
    (hreversed : query.reversed = false) (hstores : Stores layout rows cells)
    (hlimit : rows.length ≤ plan.limit) (key : Bytes) :
    ∃ ordered : List LogicalRow, ordered.Perm rows ∧ InCellOrder layout ordered cells ∧
      plan.process [⟨key, some cells⟩] =
        .ok ⟨plan.header, ordered.map (LogicalRow.answer layout key)⟩ := by
  obtain ⟨bound, hcompiled⟩ := compile_eq_ok h
  obtain ⟨ordered, entries, hordered, horder, hentries, hpairs⟩ := hstores.recovers key
  refine ⟨ordered, hordered, horder, ?_⟩
  have hfit : entries.length ≤ plan.limit := by
    rw [← hpairs.length_eq, hordered.length_eq]
    exact hlimit
  rw [← hcompiled.layout_eq] at hentries
  rw [process_singleton hcompiled.selectsFields (hcompiled.count_eq.trans hcount)
    (hcompiled.reversed_eq.trans hreversed) hentries hfit, columns_wildcard h hselection hcount]
  -- Every entry answers the row it holds.
  have hrows : ordered.map (LogicalRow.answer layout key) =
      entries.map fun entry => entry.row (layout.fields.map fun field => ⟨field, field.name⟩) := by
    rw [← List.forall₂_eq_eq_eq, List.forall₂_map_left_iff, List.forall₂_map_right_iff]
    refine Outcome.forall₂_imp_of_mem hpairs fun row hrow entry _ hentry => ?_
    obtain ⟨rfl, hholds⟩ := hentry
    exact (Entry.row_eq_answer hholds (hstores.fits row (hordered.subset hrow))).symm
  rw [hrows]

/-- A table of events, with their kind and a note. -/
def events : Layout :=
  { name := "events", kind := .sparse, key := ⟨"user", .utf8⟩
    clustering := [⟨"seq", .int32⟩], metadata := [⟨"kind", .utf8⟩, ⟨"note", .utf8⟩]
    fits_kind := by decide, names_nodup := by decide }

/-- An event without a note. -/
def event (seq kind : Bytes) : LogicalRow :=
  .wide [seq] fun field => if field.name = "kind" then some ⟨kind, 7, kind, .live⟩ else none

/-- An event is a row of the table of events, whatever its number and kind. -/
theorem event_fits (seq kind : Bytes) : (event seq kind).Fits events := by
  refine ⟨rfl, rfl, ?_, fun _ => ⟨⟨"kind", .metadata, .utf8⟩, by decide, rfl⟩⟩
  intro field hfield datum hdatum
  have htype : field.type = .utf8 := by
    have hdecls : field ∈ [⟨"kind", .metadata, .utf8⟩, ⟨"note", .metadata, .utf8⟩] := hfield
    rcases List.mem_cons.mp hdecls with rfl | hnote
    · rfl
    · rw [List.mem_singleton.mp hnote]
  simp only at hdatum
  split at hdatum
  · cases hdatum
    show (if field.type.isCounter = true then _ else kind = kind)
    rw [htype]
    rfl
  · cases hdatum

/-- Two events, the one before number zero first. -/
def eventCells : List Cell :=
  [⟨Composite.encode [[0x7F, 0xFF, 0xFF, 0xFF], [0x6B, 0x69, 0x6E, 0x64]], [0x61], 7, .live⟩,
    ⟨Composite.encode [[0x80, 0, 0, 0], [0x6B, 0x69, 0x6E, 0x64]], [0x62], 7, .live⟩]

/-- The cells are what the two events are stored in, the one before number zero first. -/
theorem stores_eventCells :
    Stores events [event [0, 0, 0, 0] [0x62], event [0xFF, 0xFF, 0xFF, 0xFF] [0x61]]
      eventCells where
  fits row hrow := by
    rcases List.mem_cons.mp hrow with rfl | hrest
    · exact event_fits _ _
    · rw [List.mem_singleton.mp hrest]
      exact event_fits _ _
  perm := by decide
  sorted _ := by unfold Sorted; decide
  one h := by cases h
  distinct _ := by decide

/-- The two events come back, and nothing else does. -/
theorem process_stores_events :
    ∃ (plan : Plan) (ordered : List LogicalRow),
      compile { identifierCase := .preserve } { table := "events" } events [] = .ok plan ∧
      ordered.Perm [event [0, 0, 0, 0] [0x62], event [0xFF, 0xFF, 0xFF, 0xFF] [0x61]] ∧
      plan.process [⟨[0x75], some eventCells⟩] =
        .ok ⟨plan.header, ordered.map (LogicalRow.answer events [0x75])⟩ := by
  obtain ⟨ordered, hordered, -, hprocess⟩ := @process_stores _ _ _ _
    { identifierCase := .preserve } { table := "events" } [] rfl rfl rfl rfl stores_eventCells
    (by decide) [0x75]
  exact ⟨_, ordered, rfl, hordered, hprocess⟩

end Plan

end WideColumn
