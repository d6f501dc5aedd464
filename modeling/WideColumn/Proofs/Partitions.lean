import WideColumn.Proofs.Compile
import WideColumn.Proofs.SparseWalk

/-!
# `WideColumn.Proofs.Partitions`: the entries of partitions

The rows of a partition are made while its cells are walked over. Apart from any select clause,
they are the rows of its entries, which can be told without a walk: the runs of a sparse
partition, the live cells of a dynamic or dense one. Storage keeps cells in the order of their
names, and where all names have as many components, so that none is refused, the entries have a
closed form. The theorems:

* `Partition.rows_eq` / `Plan.rows_eq`: where fields of the table are selected, the rows are
  those of the entries.
* `pairwise_leading`: cells in the order of their names are in the order of their leading
  components.
* `Partition.entries_sparse` / `Partition.entries_dense`: the entries of a partition.
* `length_clustering_of_mem_entries`: an entry has all clustering values.
* `Plan.entries_related`: what relates the entries of every partition to those of another
  one relates the entries of all partitions.
* `Plan.process_eq_map`: an answer is made of the rows, and an error is one of the rows.
* `Plan.process_eq_rows` / `Plan.process_eq`: the answer by the rows and by the entries.
-/

set_option autoImplicit false

namespace WideColumn

open Outcome (mapM_eq_ok_map)

/-! ### Entries and rows -/

namespace Partition

/-- The entries of a partition. -/
def entries (stored : Partition) (layout : Layout) : Except Error (List Entry) :=
  match layout.kind with
  | .static => .ok [stored.staticEntry]
  | .sparse => do
    let named ← stored.liveCells.mapM (Cell.readNameOf layout.arity)
    return (runs named).map (sparseEntry stored.key)
  | .dynamic =>
    .ok (stored.liveCells.map fun cell => compactEntry stored.key [cell.name] cell)
  | .dense => do
    let named ← stored.liveCells.mapM Cell.readName
    return named.map fun n => compactEntry stored.key n.components n.cell

variable {layout : Layout} {selection : List Selected}

/-- The rows of a dynamic partition. The table has a single clustering field, so every
clustering value is the whole name of a cell. -/
theorem compactRows_dynamic (stored : Partition) (hkind : layout.kind = .dynamic)
    (hfields : ∀ selected ∈ selection, selected.field ∈ layout.fields) :
    stored.compactRows .dynamic selection = .ok (stored.liveCells.map fun cell =>
      (compactEntry stored.key [cell.name] cell).row selection) := by
  refine Outcome.mapM_eq_ok_map fun cell _ => ?_
  have hplain : cell.components? .dynamic = .ok none := rfl
  refine compactRow_eq rfl (fun selected hselected => ?_) hplain
    fun _ selected hselected position hrole => ?_
  · rw [← hkind]
    exact Layout.hasRole_of_mem (hfields selected hselected)
  · have hfield := Layout.getElem?_clusteringFields_iff.mpr ⟨hfields selected hselected, hrole⟩
    obtain ⟨hposition, -⟩ := List.getElem?_eq_some_iff.mp hfield
    rw [Layout.length_clusteringFields, Layout.length_clustering_of_dynamic hkind] at hposition
    omega

/-- The row of a cell of a dense partition, if its name can be read. -/
theorem compactRow_dense (key : Bytes) (cell : Cell)
    (hroles : ∀ selected ∈ selection, Kind.dense.hasRole selected.field.role = true) :
    compactRow .dense key selection cell = cell.readName.map fun named =>
      (compactEntry key named.components named.cell).row selection := by
  cases hsplit : Composite.split cell.name with
  | error fault =>
      have hread : cell.readName = .error (.violation (.unreadableName fault)) := by
        rw [Cell.readName, hsplit]
      have hcomponents : cell.components? .dense = .error (.violation (.unreadableName fault)) := by
        rw [Cell.components?, if_pos rfl, hread]
        rfl
      rw [compactRow, hcomponents, hread]
      rfl
  | ok components =>
      have hread : cell.readName = .ok ⟨components, cell⟩ := by
        rw [Cell.readName, hsplit]
      have hcomponents : cell.components? .dense = .ok (some components) := by
        rw [Cell.components?, if_pos rfl, hread]
        rfl
      rw [compactRow_eq rfl hroles hcomponents fun hnone => absurd hnone (Option.some_ne_none _),
        hread]
      rfl

/-- The rows of a partition are those of its entries, where fields of the table are selected. -/
theorem rows_eq (stored : Partition)
    (hfields : ∀ selected ∈ selection, selected.field ∈ layout.fields) :
    stored.rows layout selection =
      (stored.entries layout).map fun entries => entries.map fun entry => entry.row selection := by
  have hroles : ∀ selected ∈ selection, layout.kind.hasRole selected.field.role = true :=
    fun selected hselected => Layout.hasRole_of_mem (hfields selected hselected)
  -- Every kind has its own lemma, and each needs that no role is unexpected.
  unfold rows entries
  cases hkind : layout.kind with
  | static =>
      rw [hkind] at hroles
      simp only [staticRow_eq stored hroles]
      rfl
  | sparse =>
      rw [hkind] at hroles
      simp only [sparseRows_eq stored hroles]
      cases stored.liveCells.mapM (Cell.readNameOf layout.arity) with
      | error error => rfl
      | ok named =>
          show Except.ok _ = Except.ok (List.map _ (List.map _ _))
          rw [List.map_map]
          rfl
  | dynamic =>
      simp only [compactRows_dynamic stored hkind hfields, Outcome.map_ok, List.map_map]
      rfl
  | dense =>
      rw [hkind] at hroles
      have hrow : compactRow .dense stored.key selection = fun cell =>
          cell.readName.map fun named =>
            (compactEntry stored.key named.components named.cell).row selection :=
        funext fun cell => compactRow_dense stored.key cell hroles
      simp only [compactRows, hrow, Outcome.mapM_comp_map]
      cases stored.liveCells.mapM Cell.readName with
      | error error => rfl
      | ok named =>
          show Except.ok _ = Except.ok (List.map _ (List.map _ _))
          rw [List.map_map]
          rfl

end Partition

namespace Plan

variable {plan : Plan}

/-- Every column of the plan is that of a field of its table. -/
def SelectsFields (plan : Plan) : Prop :=
  ∀ selected ∈ plan.columns, selected.field ∈ plan.layout.fields

/-- An accepted query selects fields of its table. -/
theorem Compiled.selectsFields {settings : Settings} {query : Query} {layout : Layout}
    {indexed : List String} {bound : Restrictions}
    (h : Compiled settings query layout indexed plan bound) : plan.SelectsFields := by
  intro selected hselected
  rw [h.layout_eq]
  exact h.field_mem hselected

/-- The entries of all partitions, in order. -/
def entries (plan : Plan) (stored : List Partition) : Except Error (List Entry) :=
  List.flatten <$> stored.mapM fun partition => partition.entries plan.layout

/-- The entries in the order asked for, as many as asked for. -/
def arrange (plan : Plan) (entries : List Entry) : List Entry :=
  (if plan.reversed then entries.reverse else entries).take plan.limit

/-- The rows of all partitions are those of their entries. -/
theorem rows_eq (hfields : plan.SelectsFields) (stored : List Partition) :
    plan.rows stored = (plan.entries stored).map fun entries =>
      entries.map fun entry => entry.row plan.columns := by
  have hrows : (fun partition : Partition => partition.rows plan.layout plan.columns) =
      fun partition => (partition.entries plan.layout).map
        (List.map fun entry => entry.row plan.columns) :=
    funext fun partition => partition.rows_eq hfields
  rw [rows, entries, hrows, Outcome.mapM_comp_map]
  cases stored.mapM fun partition => partition.entries plan.layout with
  | error error => rfl
  | ok parts => exact congrArg Except.ok (List.map_flatten).symm

end Plan

/-! ### Names -/

/-- The name is the stored one of so many components. -/
def Composite.HasArity (arity : Nat) (name : Bytes) : Prop :=
  ∃ components : List Bytes, components.length = arity ∧ name = encode components

/-- The name is read as so many components. It need not be the one they are stored under, as a
component that is read can end in any marker. -/
def Composite.ReadsAs (arity : Nat) (name : Bytes) : Prop :=
  ∃ components, split name = .ok components ∧ components.length = arity

/-- The name is read as components of which this is the last. -/
def Composite.EndsIn (name last : Bytes) : Prop :=
  ∃ components, split name = .ok components ∧ components.getLast? = some last

/-- A stored name is read as the components it is stored for. -/
theorem Composite.HasArity.readsAs {arity : Nat} {name : Bytes} (h : HasArity arity name) :
    ReadsAs arity name := by
  obtain ⟨components, hlength, rfl⟩ := h
  exact ⟨components, split_encode components, hlength⟩

section

variable {arity : Nat} {cells : List Cell}

/-- A cell whose name is read as so many components has so many. -/
theorem Cell.length_components_named {cell : Cell} (h : Composite.ReadsAs arity cell.name) :
    cell.named.components.length = arity := by
  obtain ⟨components, hsplit, hlength⟩ := h
  rw [Cell.named_of_split hsplit]
  exact hlength

/-- The leading components are all but the last. -/
theorem Cell.take_components_named {count : Nat} {cell : Cell}
    (h : Composite.HasArity (count + 1) cell.name) :
    cell.named.components.take count = cell.named.leading := by
  rw [NamedCell.leading, List.dropLast_eq_take, Cell.length_components_named h.readsAs,
    Nat.add_sub_cancel]

/-- Stored names can all be read. -/
theorem mapM_readName (h : ∀ cell ∈ cells, Composite.HasArity arity cell.name) :
    cells.mapM Cell.readName = .ok (cells.map Cell.named) := by
  refine mapM_eq_ok_map fun cell hcell => ?_
  obtain ⟨components, -, hname⟩ := h cell hcell
  exact Cell.readName_eq hname

/-- So can all names with the right number of components, where that is checked. -/
theorem mapM_readNameOf (h : ∀ cell ∈ cells, Composite.ReadsAs arity cell.name) :
    cells.mapM (Cell.readNameOf arity) = .ok (cells.map Cell.named) := by
  refine mapM_eq_ok_map fun cell hcell => ?_
  obtain ⟨components, hsplit, hlength⟩ := h cell hcell
  exact Cell.readNameOf_of_split hsplit hlength

/-- Cells in the order of their names are in the order of their leading components. -/
theorem pairwise_leading (sorted : Sorted cells)
    (h : ∀ cell ∈ cells, Composite.HasArity arity cell.name) :
    (cells.map Cell.named).Pairwise fun cell later =>
      (compare cell.leading later.leading).isLE := by
  rw [List.pairwise_map]
  refine List.Pairwise.imp_of_mem (fun {cell later} hcell hlater hlt => ?_) sorted
  obtain ⟨components, hlength, hname⟩ := h cell hcell
  obtain ⟨others, hlength', hname'⟩ := h later hlater
  rw [hname, hname', ← Bytes.compare_eq_lt, Composite.compare_encode] at hlt
  rw [Cell.named_eq hname, Cell.named_eq hname']
  refine compare_dropLast_isLE (hlength.trans hlength'.symm) ?_
  rw [hlt]
  rfl

end

/-- The clustering values of a run's entry are the leading components of every cell. -/
theorem clustering_sparseEntry {cells run : List NamedCell} (h : run ∈ runs cells)
    {cell : NamedCell} (hcell : cell ∈ run) (key : Bytes) :
    (sparseEntry key run).clustering = cell.leading := by
  obtain ⟨first, rest, rfl⟩ := List.exists_cons_of_ne_nil (ne_nil_of_mem_runs h)
  exact leading_eq_of_mem_run h List.mem_cons_self hcell

/-! ### One partition -/

namespace Partition

variable {stored : Partition} {layout : Layout} {isName : Bytes → Prop}

/-- The cells of the partition, if it has any, have names of a form and stand in the strict
order of their names. -/
structure InOrder (isName : Bytes → Prop) (stored : Partition) : Prop where
  sorted : Sorted (stored.cells.getD [])
  names : ∀ cell ∈ stored.cells.getD [], isName cell.name

namespace InOrder

/-- The live cells are in the order of all cells. -/
theorem sorted_live (h : stored.InOrder isName) : Sorted stored.liveCells :=
  List.Pairwise.sublist List.filter_sublist h.sorted

/-- Live cells have names like all cells. -/
theorem names_live (h : stored.InOrder isName) : ∀ cell ∈ stored.liveCells, isName cell.name :=
  fun cell hcell => h.names cell (List.mem_of_mem_filter hcell)

end InOrder

/-- A sparse partition is an entry a run. -/
theorem entries_sparse_of_reads (hkind : layout.kind = .sparse)
    (h : ∀ cell ∈ stored.liveCells, Composite.ReadsAs layout.arity cell.name) :
    stored.entries layout =
      .ok ((runs (stored.liveCells.map Cell.named)).map (sparseEntry stored.key)) := by
  rw [entries, hkind]
  simp only [mapM_readNameOf h, Outcome.ok_bind, Outcome.pure_eq_ok]

/-- The same where the names are stored ones. -/
theorem entries_sparse (hkind : layout.kind = .sparse)
    (h : ∀ cell ∈ stored.liveCells, Composite.HasArity layout.arity cell.name) :
    stored.entries layout =
      .ok ((runs (stored.liveCells.map Cell.named)).map (sparseEntry stored.key)) :=
  entries_sparse_of_reads hkind fun cell hcell => (h cell hcell).readsAs

/-- A dense partition is an entry a live cell. -/
theorem entries_dense (hkind : layout.kind = .dense)
    (h : ∀ cell ∈ stored.liveCells, Composite.HasArity layout.arity cell.name) :
    stored.entries layout = .ok (stored.liveCells.map fun cell =>
      compactEntry stored.key cell.named.components cell) := by
  rw [entries, hkind]
  simp only [mapM_readName h, Outcome.ok_bind, Outcome.pure_eq_ok, List.map_map]
  rfl

/-- The cells of a table with composite names are all read. -/
theorem exists_entries (hkind : layout.kind.isComposite = true)
    (h : ∀ cell ∈ stored.liveCells, Composite.HasArity layout.arity cell.name) :
    ∃ entries, stored.entries layout = .ok entries := by
  rcases Kind.isComposite_eq_true_iff.mp hkind with hsparse | hdense
  · exact ⟨_, entries_sparse hsparse h⟩
  · exact ⟨_, entries_dense hdense h⟩

/-- An entry of a table with composite names has all clustering values. -/
theorem length_clustering_of_mem_entries (hkind : layout.kind.isComposite = true)
    (h : ∀ cell ∈ stored.liveCells, Composite.HasArity layout.arity cell.name)
    {entries : List Entry} (hentries : stored.entries layout = .ok entries) {entry : Entry}
    (hentry : entry ∈ entries) : entry.clustering.length = layout.clustering.length := by
  rcases Kind.isComposite_eq_true_iff.mp hkind with hsparse | hdense
  · rw [entries_sparse hsparse h] at hentries
    cases hentries
    obtain ⟨run, hrun, rfl⟩ := List.mem_map.mp hentry
    obtain ⟨named, hnamed⟩ := List.exists_mem_of_ne_nil run (ne_nil_of_mem_runs hrun)
    rw [clustering_sparseEntry hrun hnamed]
    -- The run is some of the cells, and each has one component more.
    obtain ⟨cell, hlive, rfl⟩ := List.mem_map.mp (exists_run_iff.mp ⟨run, hrun, hnamed⟩)
    rw [NamedCell.leading, List.length_dropLast,
      Cell.length_components_named (h cell hlive).readsAs, Layout.arity_of_sparse hsparse]
    rfl
  · rw [entries_dense hdense h] at hentries
    cases hentries
    obtain ⟨cell, hlive, rfl⟩ := List.mem_map.mp hentry
    rw [← Layout.arity_of_dense hdense]
    exact Cell.length_components_named (h cell hlive).readsAs

end Partition

/-! ### All partitions -/

namespace Plan

variable {plan : Plan}

/-- The entries of the first partition come before those of the others. -/
theorem entries_cons {stored : Partition} {rest : List Partition} {first others : List Entry}
    (hfirst : stored.entries plan.layout = .ok first) (hothers : plan.entries rest = .ok others) :
    plan.entries (stored :: rest) = .ok (first ++ others) := by
  obtain ⟨parts, hparts, rfl⟩ := Outcome.map_eq_ok_iff.mp hothers
  rw [entries, List.mapM_cons, hfirst, hparts]
  rfl

/-- A relation that putting entries together keeps, and that relates the entries of every
partition to those of what the partition is turned into. -/
theorem entries_related {motive : List Entry → List Entry → Prop} (nil : motive [] [])
    (append : ∀ {first others first' others' : List Entry}, motive first first' →
      motive others others' → motive (first ++ others) (first' ++ others'))
    {turn : Partition → Partition} {stored : List Partition}
    (h : ∀ partition ∈ stored, ∃ entries entries',
      partition.entries plan.layout = .ok entries ∧
        (turn partition).entries plan.layout = .ok entries' ∧ motive entries entries') :
    ∃ entries entries', plan.entries stored = .ok entries ∧
      plan.entries (stored.map turn) = .ok entries' ∧ motive entries entries' := by
  induction stored with
  | nil => exact ⟨[], [], rfl, rfl, nil⟩
  | cons partition rest ih =>
      obtain ⟨first, first', hfirst, hfirst', hrelated⟩ := h partition List.mem_cons_self
      obtain ⟨others, others', hothers, hothers', hrelated'⟩ :=
        ih fun other hother => h other (List.mem_cons_of_mem _ hother)
      exact ⟨_, _, entries_cons hfirst hothers, entries_cons hfirst' hothers',
        append hrelated hrelated'⟩

/-- The rows are brought in order and cut off where there are rows, and there is nothing
else that could fail. -/
theorem process_eq_map (hcount : plan.count = false) (stored : List Partition) :
    plan.process stored = (plan.rows stored).map fun rows =>
      ⟨plan.header, (plan.ordered rows).take plan.limit⟩ := by
  rw [process, hcount]
  cases plan.rows stored <;> rfl

/-- Where partitions have entries, they have rows. -/
theorem rows_of_entries (hfields : plan.SelectsFields) {stored : List Partition}
    {entries : List Entry} (hentries : plan.entries stored = .ok entries) :
    plan.rows stored = .ok (entries.map fun entry => entry.row plan.columns) := by
  rw [rows_eq hfields, hentries, Outcome.map_ok]

/-- The answer to a plan that does not count, by the rows of its entries. -/
theorem process_eq_rows (hfields : plan.SelectsFields) (hcount : plan.count = false)
    {stored : List Partition} {entries : List Entry}
    (hentries : plan.entries stored = .ok entries) :
    plan.process stored = .ok ⟨plan.header,
      (plan.ordered (entries.map fun entry => entry.row plan.columns)).take plan.limit⟩ := by
  rw [process_eq_map hcount, rows_of_entries hfields hentries, Outcome.map_ok]

/-- Rows are reversed and cut off like their entries. -/
theorem take_ordered (entries : List Entry) :
    (plan.ordered (entries.map fun entry => entry.row plan.columns)).take plan.limit =
      (plan.arrange entries).map fun entry => entry.row plan.columns := by
  rw [arrange, ordered, List.map_take]
  cases plan.reversed with
  | false => rfl
  | true => exact congrArg (List.take plan.limit) (List.map_reverse).symm

/-- The answer to a plan that does not count, by its entries. -/
theorem process_eq (hfields : plan.SelectsFields) (hcount : plan.count = false)
    {stored : List Partition} {entries : List Entry}
    (hentries : plan.entries stored = .ok entries) :
    plan.process stored =
      .ok ⟨plan.header, (plan.arrange entries).map fun entry => entry.row plan.columns⟩ := by
  rw [process_eq_rows hfields hcount hentries, take_ordered]

/-- A plan that does not count has an answer where its partitions have entries. -/
theorem process_eq_ok_iff (hfields : plan.SelectsFields) (hcount : plan.count = false)
    {stored : List Partition} {rowSet : RowSet} : plan.process stored = .ok rowSet ↔
      ∃ entries, plan.entries stored = .ok entries ∧
        rowSet = ⟨plan.header, (plan.arrange entries).map fun entry => entry.row plan.columns⟩ := by
  constructor
  · intro h
    rw [process_eq_map hcount, rows_eq hfields] at h
    obtain ⟨rows, hrows, rfl⟩ := Outcome.map_eq_ok_iff.mp h
    obtain ⟨entries, hentries, rfl⟩ := Outcome.map_eq_ok_iff.mp hrows
    exact ⟨entries, hentries, by rw [take_ordered]⟩
  · rintro ⟨entries, hentries, rfl⟩
    exact process_eq hfields hcount hentries

end Plan

end WideColumn
