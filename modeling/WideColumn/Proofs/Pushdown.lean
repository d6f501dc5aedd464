import WideColumn.Proofs.CellScan
import WideColumn.Proofs.Reconstruction

/-!
# `WideColumn.Proofs.Pushdown`: reading a slice of cells, or leaving out rows

A plan that reads a slice of cells could as well read all cells and leave out, from the
rows it reconstructs, those the where clause does not ask for. The slice keeps or drops
whole rows, and no two rows become one where the rows between them are dropped. The
theorems:

* `satisfies_iff`: what the where clause says of a row's clustering columns is what the
  restrictions say of the clustering values of its entry.
* `sliceKeeps`: the bounds of a plan enclose the names whose clustering values are what the
  restrictions say.
* `Partition.entries_within` / `entries_map_within`: the entries of a slice are the entries
  with the clustering values it keeps.
-/

set_option autoImplicit false

namespace WideColumn

open Composite (HasArity encode componentAt)

/-! ### The rows a where clause asks for -/

/-- The value a row has for a field compares with a term's as the operator says, both in
their form inside cell names. -/
def Row.Compares (row : Row) (field : Field) (vars : List Bytes) (operator : Operator)
    (term : Term) : Prop :=
  ∃ value ∈ row.value? field.name, ∃ bytes ∈ (term.value field vars).toOption,
    operator.Holds (field.type.toComparable value) (field.type.toComparable bytes)

instance (row : Row) (field : Field) (vars : List Bytes) (operator : Operator) (term : Term) :
    Decidable (row.Compares field vars operator term) :=
  inferInstanceAs (Decidable (∃ value ∈ row.value? field.name,
    ∃ bytes ∈ (term.value field vars).toOption,
      operator.Holds (field.type.toComparable value) (field.type.toComparable bytes)))

/-- The relations on clustering fields hold of the row's columns. -/
def Row.Satisfies (settings : Settings) (query : Query) (layout : Layout) (vars : List Bytes)
    (row : Row) : Prop :=
  ∀ relation ∈ query.conditions, ∀ field ∈ layout.clusteringFields,
    settings.normalize relation.field = field.name →
      relation.Admits (row.Compares field vars)

instance (settings : Settings) (query : Query) (layout : Layout) (vars : List Bytes)
    (row : Row) : Decidable (row.Satisfies settings query layout vars) :=
  inferInstanceAs (Decidable (∀ relation ∈ query.conditions, ∀ field ∈ layout.clusteringFields,
    settings.normalize relation.field = field.name →
      relation.Admits (row.Compares field vars)))

/-- A value that a cell name is the source of compares as the component it has there. -/
theorem Row.compares_eq {row : Row} {field : Field} {component : Bytes}
    (hvalue : row.value? field.name = some (field.type.ofComparable component))
    (vars : List Bytes) :
    row.Compares field vars = fun operator term =>
      ∃ bytes, term.component field vars = .ok bytes ∧ operator.Holds component bytes := by
  funext operator term
  unfold Row.Compares Term.component
  simp only [hvalue, Option.mem_some_iff, exists_eq_left', FieldType.toComparable_ofComparable]
  cases term.value field vars with
  | error error => simp [Except.toOption, Except.map]
  | ok bytes => simp [Except.toOption]

namespace Entry

variable {entry : Entry} {layout : Layout}

/-- Where all fields are selected, a clustering field's value is its component. -/
theorem value?_clustering {field : Field} {position : Nat}
    (hfield : layout.clusteringFields[position]? = some field) :
    (entry.row (layout.fields.map fun field => ⟨field, field.name⟩)).value? field.name =
      some (field.type.ofComparable (componentAt entry.clustering position)) := by
  obtain ⟨hmem, hrole⟩ := Layout.getElem?_clusteringFields_iff.mp hfield
  have hcolumn : entry.columnOf field = some (.set field.name
      (field.type.ofComparable (componentAt entry.clustering position))
      entry.clusteringTime) := by
    simp only [columnOf, column?, hrole]
  rw [Row.value?, column?_row hmem hcolumn]
  rfl

end Entry

namespace Plan

variable {plan : Plan} {settings : Settings} {query : Query} {layout : Layout}
  {indexed : List String} {bound : Restrictions} {vars : List Bytes}

/-- The where clause asks for the row of an entry where the restrictions say so of the
entry's clustering values. -/
theorem satisfies_iff (h : Compiled settings query layout indexed plan bound) {entry : Entry}
    (hlength : entry.clustering.length = layout.clustering.length) :
    (entry.row (layout.fields.map fun field => ⟨field, field.name⟩)).Satisfies settings query
        layout vars ↔
      plan.AllSatisfied vars layout.clusteringFields entry.clustering := by
  have hroom : layout.clusteringFields.length ≤ entry.clustering.length := by
    rw [hlength, Layout.length_clusteringFields]
  rw [← clusteringHolds_iff h hroom]
  constructor
  · intro hrow relation hrelation field position hlookup hrole
    obtain ⟨hmem, hname⟩ := Layout.lookup_eq_some_iff.mp hlookup
    have hfield := Layout.getElem?_clusteringFields_iff.mpr ⟨hmem, hrole⟩
    have hadmits := hrow relation hrelation field (List.mem_of_getElem? hfield) hname.symm
    rwa [Row.compares_eq (Entry.value?_clustering hfield)] at hadmits
  · intro hholds relation hrelation field hmem hname
    obtain ⟨position, hfield⟩ := List.getElem?_of_mem hmem
    obtain ⟨hfields, hrole⟩ := Layout.getElem?_clusteringFields_iff.mp hfield
    have hlookup := Layout.lookup_eq_some_iff.mpr ⟨hfields, hname.symm⟩
    rw [Row.compares_eq (Entry.value?_clustering hfield)]
    exact hholds relation hrelation field position hlookup hrole

end Plan

/-! ### Slices of cells -/

/-- The name lies between the two, an empty finish being open. -/
def Within (start finish name : Bytes) : Prop :=
  start ≤ name ∧ (finish = [] ∨ name ≤ finish)

instance (start finish name : Bytes) : Decidable (Within start finish name) :=
  inferInstanceAs (Decidable (start ≤ name ∧ (finish = [] ∨ name ≤ finish)))

namespace Partition

/-- The partition with the cells of a slice. -/
def within (start finish : Bytes) (stored : Partition) : Partition :=
  { stored with cells := stored.cells.map fun cells =>
      cells.filter fun cell => Within start finish cell.name }

variable {stored : Partition} {layout : Layout} {start finish : Bytes}
  {keep : List Bytes → Bool}

/-- The live cells of a slice are the live ones between its bounds. -/
theorem liveCells_within (start finish : Bytes) (stored : Partition) :
    (stored.within start finish).liveCells =
      stored.liveCells.filter fun cell => Within start finish cell.name := by
  unfold liveCells within
  cases stored.cells with
  | none => rfl
  | some cells => exact List.filter_comm _ _ _

/-- And so they have names like all cells. -/
theorem InOrder.names_within {isName : Bytes → Prop} (h : stored.InOrder isName)
    (start finish : Bytes) :
    ∀ cell ∈ (stored.within start finish).liveCells, isName cell.name := by
  intro cell hcell
  rw [liveCells_within] at hcell
  exact h.names_live cell (List.mem_of_mem_filter hcell)

/-- The slice holds the names of so many components whose first ones, the clustering values,
are kept. -/
def SliceKeeps (layout : Layout) (start finish : Bytes) (keep : List Bytes → Bool) : Prop :=
  ∀ components : List Bytes, components.length = layout.arity →
    (Within start finish (encode components) ↔
      keep (components.take layout.clustering.length) = true)

/-- The cells of a slice, by the components of their names. -/
theorem filter_within (hkeep : SliceKeeps layout start finish keep) {cells : List Cell}
    (h : ∀ cell ∈ cells, HasArity layout.arity cell.name) :
    (cells.filter fun cell => Within start finish cell.name) =
      cells.filter fun cell => keep (cell.named.components.take layout.clustering.length) := by
  refine List.filter_congr fun cell hcell => ?_
  obtain ⟨components, hlength, hname⟩ := h cell hcell
  rw [Cell.named_eq hname, hname]
  by_cases hkept : keep (components.take layout.clustering.length) = true
  · rw [hkept]
    exact decide_eq_true ((hkeep components hlength).mpr hkept)
  · rw [Bool.eq_false_iff.mpr hkept]
    exact decide_eq_false fun hwithin => hkept ((hkeep components hlength).mp hwithin)

/-- The entries of a slice of a sparse partition: the slice keeps or drops whole runs, and
joins none. -/
theorem entries_within_sparse (hkind : layout.kind = .sparse)
    (h : stored.InOrder (HasArity layout.arity)) (hkeep : SliceKeeps layout start finish keep)
    {entries : List Entry} (hentries : stored.entries layout = .ok entries) :
    (stored.within start finish).entries layout =
      .ok (entries.filter fun entry => keep entry.clustering) := by
  -- The clustering values are all components but the last.
  have hleading : ∀ cell ∈ stored.liveCells,
      keep (cell.named.components.take layout.clustering.length) = keep cell.named.leading := by
    intro cell hcell
    have hname := h.names_live cell hcell
    rw [Layout.arity_of_sparse hkind] at hname
    rw [Cell.take_components_named hname]
  have hcells : (stored.within start finish).liveCells.map Cell.named =
      (stored.liveCells.map Cell.named).filter fun named => keep named.leading := by
    rw [liveCells_within, filter_within hkeep h.names_live, List.filter_map,
      List.filter_congr hleading]
    rfl
  -- All cells of a run have the clustering values of its entry.
  have hruns : ∀ run ∈ runs (stored.liveCells.map Cell.named),
      (run.all fun cell => keep cell.leading) =
        keep (sparseEntry stored.key run).clustering := by
    intro run hrun
    have hsame : ∀ cell ∈ run, cell.leading = (sparseEntry stored.key run).clustering :=
      fun cell hcell => (clustering_sparseEntry hrun hcell stored.key).symm
    rw [Bool.eq_iff_iff, List.all_eq_true]
    constructor
    · intro hall
      obtain ⟨cell, hcell⟩ := List.exists_mem_of_ne_nil run (ne_nil_of_mem_runs hrun)
      rw [← hsame cell hcell]
      exact hall cell hcell
    · intro hentry cell hcell
      rwa [hsame cell hcell]
  rw [entries_sparse hkind h.names_live] at hentries
  cases hentries
  rw [entries_sparse hkind (h.names_within start finish), hcells,
    runs_filter (pairwise_leading h.sorted_live h.names_live), List.filter_congr hruns,
    List.filter_map]
  rfl

/-- The entries of a slice of a dense partition. -/
theorem entries_within_dense (hkind : layout.kind = .dense)
    (h : stored.InOrder (HasArity layout.arity)) (hkeep : SliceKeeps layout start finish keep)
    {entries : List Entry} (hentries : stored.entries layout = .ok entries) :
    (stored.within start finish).entries layout =
      .ok (entries.filter fun entry => keep entry.clustering) := by
  -- The clustering values are all components.
  have hall : ∀ cell ∈ stored.liveCells,
      keep (cell.named.components.take layout.clustering.length) =
        keep cell.named.components := by
    intro cell hcell
    have hlength : cell.named.components.length = layout.clustering.length := by
      rw [Cell.length_components_named (h.names_live cell hcell).readsAs,
        Layout.arity_of_dense hkind]
    rw [List.take_of_length_le (Nat.le_of_eq hlength)]
  rw [entries_dense hkind h.names_live] at hentries
  cases hentries
  rw [entries_dense hkind (h.names_within start finish), liveCells_within,
    filter_within hkeep h.names_live, List.filter_congr hall, List.filter_map]
  rfl

/-- The entries of a slice that keeps some clustering values are the entries with them. -/
theorem entries_within (hkind : layout.kind.isComposite = true)
    (h : stored.InOrder (HasArity layout.arity)) (hkeep : SliceKeeps layout start finish keep)
    {entries : List Entry} (hentries : stored.entries layout = .ok entries) :
    (stored.within start finish).entries layout =
      .ok (entries.filter fun entry => keep entry.clustering) := by
  rcases Kind.isComposite_eq_true_iff.mp hkind with hsparse | hdense
  · exact entries_within_sparse hsparse h hkeep hentries
  · exact entries_within_dense hdense h hkeep hentries

end Partition

namespace Plan

variable {plan : Plan} {settings : Settings} {query : Query} {layout : Layout}
  {indexed : List String} {bound : Restrictions} {vars : List Bytes}

/-- Whether fields are satisfied is decided by as many components. -/
theorem allSatisfied_take (fields : List Field) (components : List Bytes) :
    plan.AllSatisfied vars fields (components.take fields.length) ↔
      plan.AllSatisfied vars fields components := by
  have hzip : fields.zip (components.take fields.length) = fields.zip components := by
    have hlength : (fields.zip components).length ≤ fields.length := by
      rw [List.length_zip]
      exact Nat.min_le_left _ _
    rw [← List.take_of_length_le hlength, List.zip, List.take_zipWith, List.take_length]
  unfold AllSatisfied
  rw [hzip]

open Classical in
/-- The slice between the bounds of a plan holds the clustering values that are what the
restrictions say. -/
theorem sliceKeeps (h : Compiled settings query layout indexed plan bound)
    (hkind : layout.kind.isComposite = true) (hslice : plan.isCellSlice = true)
    {start finish : Bytes} (hstart : plan.cellBound .lower vars = .ok start)
    (hfinish : plan.cellBound .upper vars = .ok finish) :
    Partition.SliceKeeps layout start finish fun clustering =>
      plan.AllSatisfied vars layout.clusteringFields clustering := by
  obtain rfl := h.layout_eq
  intro components hlength
  have hroom : plan.layout.clusteringFields.length ≤ components.length := by
    rw [hlength, Layout.length_clusteringFields]
    exact Layout.length_clustering_le_arity hkind
  rw [decide_eq_true_iff, ← Layout.length_clusteringFields, allSatisfied_take]
  exact between_cellBounds_iff h.equalityRun hslice hkind hstart hfinish hroom

/-- What is computed from each row comes in the order of the rows. -/
theorem map_ordered {α : Type} (rows : List Row) (of : Row → α) :
    (plan.ordered rows).map of = if plan.reversed then (rows.map of).reverse else rows.map of := by
  unfold ordered
  cases plan.reversed with
  | true => exact List.map_reverse
  | false => rfl

/-- Leaving rows out does not change the order of the others. -/
theorem ordered_filter (keep : Row → Bool) (rows : List Row) :
    plan.ordered (rows.filter keep) = (plan.ordered rows).filter keep := by
  unfold ordered
  cases plan.reversed with
  | true => exact List.filter_reverse.symm
  | false => rfl

/-- The entries of the slices of all partitions. -/
theorem entries_map_within {start finish : Bytes} {keep : List Bytes → Bool}
    (hkind : plan.layout.kind.isComposite = true)
    (hkeep : Partition.SliceKeeps plan.layout start finish keep) {stored : List Partition}
    (hstored : ∀ partition ∈ stored, partition.InOrder (HasArity plan.layout.arity)) :
    ∃ entries, plan.entries stored = .ok entries ∧
      plan.entries (stored.map (Partition.within start finish)) =
        .ok (entries.filter fun entry => keep entry.clustering) ∧
      ∀ entry ∈ entries, entry.clustering.length = plan.layout.clustering.length := by
  have hpartition : ∀ partition ∈ stored, ∃ entries kept,
      partition.entries plan.layout = .ok entries ∧
        (partition.within start finish).entries plan.layout = .ok kept ∧
        kept = (entries.filter fun entry => keep entry.clustering) ∧
        ∀ entry ∈ entries, entry.clustering.length = plan.layout.clustering.length := by
    intro partition hmem
    have hnames := (hstored partition hmem).names_live
    obtain ⟨entries, hentries⟩ := Partition.exists_entries hkind hnames
    exact ⟨entries, _, hentries,
      Partition.entries_within hkind (hstored partition hmem) hkeep hentries, rfl,
      fun entry => Partition.length_clustering_of_mem_entries hkind hnames hentries⟩
  -- What relates the entries of each partition to those of its slice is kept by appending.
  have hall : ∃ entries kept, plan.entries stored = .ok entries ∧
      plan.entries (stored.map (Partition.within start finish)) = .ok kept ∧
      kept = (entries.filter fun entry => keep entry.clustering) ∧
      ∀ entry ∈ entries, entry.clustering.length = plan.layout.clustering.length := by
    refine entries_related ⟨rfl, by simp⟩ ?_ hpartition
    rintro first others _ _ ⟨rfl, hfirst⟩ ⟨rfl, hothers⟩
    refine ⟨(List.filter_append _ _).symm, fun entry hentry => ?_⟩
    rcases List.mem_append.mp hentry with hmem | hmem
    · exact hfirst entry hmem
    · exact hothers entry hmem
  obtain ⟨entries, _, hentries, hkept, rfl, hlength⟩ := hall
  exact ⟨entries, hentries, hkept, hlength⟩

/-- Reading a slice of the cells answers the rows the where clause asks for. Of partitions
whose cells have the names of the table in their order, a plan for all fields reconstructs
some rows, and from the cells between its bounds alone it answers those of the rows whose
clustering columns satisfy the where clause, in the order and up to the number asked
for. -/
theorem process_within (h : compile settings query layout indexed = .ok plan)
    (hkind : layout.kind.isComposite = true) (hselection : query.selection = [])
    (hcount : query.count = false) (hslice : plan.isCellSlice = true) {start finish : Bytes}
    (hstart : plan.cellBound .lower vars = .ok start)
    (hfinish : plan.cellBound .upper vars = .ok finish) {stored : List Partition}
    (hstored : ∀ partition ∈ stored, partition.InOrder (HasArity layout.arity)) :
    ∃ rows, plan.rows stored = .ok rows ∧
      plan.process stored = .ok ⟨plan.header, (plan.ordered rows).take plan.limit⟩ ∧
      plan.process (stored.map (Partition.within start finish)) =
        .ok ⟨plan.header, ((plan.ordered rows).filter fun row =>
          row.Satisfies settings query layout vars).take plan.limit⟩ := by
  classical
  have hcolumns := columns_wildcard h hselection hcount
  obtain ⟨bound, hcompiled⟩ := compile_eq_ok h
  have hnone : plan.count = false := hcompiled.count_eq.trans hcount
  -- The slice keeps the entries with the clustering values that are asked for.
  have hkeep := sliceKeeps hcompiled hkind hslice hstart hfinish
  obtain rfl := hcompiled.layout_eq
  obtain ⟨entries, hentries, hkept, hlength⟩ := entries_map_within hkind hkeep hstored
  have hfields := hcompiled.selectsFields
  refine ⟨entries.map fun entry => entry.row plan.columns, rows_of_entries hfields hentries,
    process_eq_rows hfields hnone hentries, ?_⟩
  have hrows : (entries.filter fun entry =>
      plan.AllSatisfied vars plan.layout.clusteringFields entry.clustering).map
        (fun entry => entry.row plan.columns) =
      (entries.map fun entry => entry.row plan.columns).filter fun row =>
        row.Satisfies settings query plan.layout vars := by
    rw [List.filter_map]
    refine congrArg _ (List.filter_congr fun entry hentry => decide_eq_decide.mpr ?_)
    rw [hcolumns]
    exact (satisfies_iff hcompiled (hlength entry hentry)).symm
  rw [process_eq_rows hfields hnone hkept, hrows, ordered_filter]

/-- The events of a user before some number, the latest first. -/
def eventsBefore : Query :=
  { table := "events"
    conditions := [.compare ⟨"user", true⟩ .eq (.literal "u"), .compare ⟨"seq", true⟩ .lt (.bind 0)]
    reversed := true }

/-- The cells of the two events have names of the table, in their order. -/
theorem inOrder_eventCells (key : Bytes) :
    Partition.InOrder (HasArity events.arity) ⟨key, some eventCells⟩ where
  sorted := by
    show Sorted eventCells
    unfold Sorted
    decide
  names cell hcell := by
    rcases List.mem_cons.mp hcell with rfl | hrest
    · exact ⟨_, rfl, rfl⟩
    · obtain rfl := List.mem_singleton.mp hrest
      exact ⟨_, rfl, rfl⟩

/-- Of two events the one before number zero is asked for, and it is what is read. -/
theorem process_within_events :
    ∃ (plan : Plan) (start finish : Bytes) (rows : List Row),
      compile { identifierCase := .preserve } eventsBefore events [] = .ok plan ∧
      plan.cellBound .lower [[0, 0, 0, 0]] = .ok start ∧
      plan.cellBound .upper [[0, 0, 0, 0]] = .ok finish ∧
      plan.rows [⟨[0x75], some eventCells⟩] = .ok rows ∧
      rows.map (fun row => decide (row.Satisfies { identifierCase := .preserve } eventsBefore
        events [[0, 0, 0, 0]])) = [true, false] ∧
      plan.process ([⟨[0x75], some eventCells⟩].map (Partition.within start finish)) =
        .ok ⟨plan.header, ((plan.ordered rows).filter fun row =>
          row.Satisfies { identifierCase := .preserve } eventsBefore events
            [[0, 0, 0, 0]]).take plan.limit⟩ := by
  obtain ⟨rows, hrows, -, hprocess⟩ := @process_within _ { identifierCase := .preserve }
    eventsBefore events [] [[0, 0, 0, 0]] rfl rfl rfl rfl rfl _ _ rfl rfl
    [⟨[0x75], some eventCells⟩] (by
      intro partition hpartition
      obtain rfl := List.mem_singleton.mp hpartition
      exact inOrder_eventCells _)
  refine ⟨_, _, _, rows, rfl, rfl, rfl, hrows, ?_, hprocess⟩
  cases hrows
  decide

end Plan

end WideColumn
