import WideColumn.Proofs.Pushdown
import WideColumn.Proofs.ValueOrder

/-!
# `WideColumn.Proofs.ClusteringOrder`: rows in the order of their clustering values

Storage keeps cells in the byte order of their names, and that is the order of the clustering
values at the start of the names. So the rows of a partition stand in the strict order of
their clustering values, and each clustering value there is a live cell for is that of one
row. The theorems:

* `Layout.comparables_clusteringValues`: the values in a name, and the form they have there.
* `Entry.clustering_row`: the clustering values a row shows are those of its entry.
* `Partition.pairwise_clustering`: the entries of a partition are in strict order.
* `Partition.mem_clustering_iff`: they have the clustering values of the live cells, and no
  others.
-/

set_option autoImplicit false

namespace WideColumn

open Composite (HasArity encode componentAt)

/-- The values a row has for the clustering fields, in the order of the fields. -/
def Row.clustering (layout : Layout) (row : Row) : List (Option Bytes) :=
  layout.clusteringFields.map fun field => row.value? field.name

namespace Layout

/-- The clustering values at the start of a name of these components. -/
def clusteringValues (layout : Layout) (components : List Bytes) : List Bytes :=
  List.zipWith (fun decl component => decl.type.ofComparable component)
    layout.clustering components

/-- The clustering values come before others: they do in the form that they have inside cell
names, where the first place at which they differ decides. -/
def Precedes (layout : Layout) (values others : List Bytes) : Prop :=
  compare (layout.comparables values) (layout.comparables others) = .lt

/-- The clustering values of entries. -/
def tuples (layout : Layout) (entries : List Entry) : List (List Bytes) :=
  entries.map fun entry => layout.clusteringValues entry.clustering

variable {layout : Layout}

/-- In their form inside cell names the clustering values are the components again. -/
theorem comparables_clusteringValues {components : List Bytes}
    (h : components.length = layout.clustering.length) :
    layout.comparables (layout.clusteringValues components) = components := by
  unfold comparables clusteringValues
  generalize layout.clustering = decls at h
  induction decls generalizing components with
  | nil => rw [List.length_eq_zero_iff.mp h]; rfl
  | cons decl decls ih =>
      obtain ⟨component, rest, rfl⟩ := List.exists_cons_of_length_eq_add_one h
      rw [List.zipWith_cons_cons, List.zipWith_cons_cons, FieldType.toComparable_ofComparable,
        ih (Nat.succ.inj h)]

/-- What follows the clustering values in a name is no part of them. -/
theorem clusteringValues_take (layout : Layout) (components : List Bytes) :
    layout.clusteringValues (components.take layout.clustering.length) =
      layout.clusteringValues components := by
  have hlength : (layout.clusteringValues components).length ≤ layout.clustering.length := by
    rw [clusteringValues, List.length_zipWith]
    exact Nat.min_le_left _ _
  rw [← List.take_of_length_le hlength, clusteringValues, clusteringValues, List.take_zipWith,
    List.take_length]

end Layout

/-! ### The clustering values of a row -/

/-- The clustering values that a row of all fields shows are those of its entry. -/
theorem Entry.clustering_row {entry : Entry} {layout : Layout}
    (h : entry.clustering.length = layout.clustering.length) :
    (entry.row (layout.fields.map fun field => ⟨field, field.name⟩)).clustering layout =
      (layout.clusteringValues entry.clustering).map some := by
  refine List.ext_getElem ?_ fun position hposition _ => ?_
  · rw [Row.clustering, List.length_map, Layout.length_clusteringFields, List.length_map,
      Layout.clusteringValues, List.length_zipWith, h, Nat.min_self]
  · have hfield : position < layout.clusteringFields.length := by
      rwa [Row.clustering, List.length_map] at hposition
    have hroom : position < entry.clustering.length := by
      rwa [h, ← Layout.length_clusteringFields]
    have hcomponent : componentAt entry.clustering position = entry.clustering[position] :=
      (List.getElem_eq_getD []).symm
    have hvalue := @Entry.value?_clustering entry layout _ _ (List.getElem?_eq_getElem hfield)
    rw [hcomponent] at hvalue
    simp only [Declaration.clusteringFields, List.getElem_mapIdx] at hvalue
    simp only [Row.clustering, Layout.clusteringValues, Declaration.clusteringFields,
      List.getElem_map, List.getElem_mapIdx, List.getElem_zipWith]
    exact hvalue

/-! ### The entries of a partition -/

namespace Partition

variable {stored : Partition} {layout : Layout} {entries : List Entry}

/-- Entries of cells in the order of their names are in the strict order of their clustering
values: no two of them have the same. -/
theorem pairwise_clustering (hkind : layout.kind.isComposite = true)
    (sorted : Sorted stored.liveCells)
    (names : ∀ cell ∈ stored.liveCells, HasArity layout.arity cell.name)
    (hentries : stored.entries layout = .ok entries) :
    entries.Pairwise fun entry later => compare entry.clustering later.clustering = .lt := by
  rcases Kind.isComposite_eq_true_iff.mp hkind with hsparse | hdense
  · -- An entry is a run, and a later run has greater leading components.
    rw [entries_sparse hsparse names] at hentries
    cases hentries
    rw [List.pairwise_map]
    refine List.Pairwise.imp_of_mem ?_ (runs_apart (pairwise_leading sorted names))
    intro run later hrun hlater hapart
    obtain ⟨cell, hcell⟩ := List.exists_mem_of_ne_nil run (ne_nil_of_mem_runs hrun)
    obtain ⟨other, hother⟩ := List.exists_mem_of_ne_nil later (ne_nil_of_mem_runs hlater)
    rw [clustering_sparseEntry hrun hcell, clustering_sparseEntry hlater hother]
    exact hapart cell hcell other hother
  · -- An entry is a cell, and its clustering values are the components of the name.
    rw [entries_dense hdense names] at hentries
    cases hentries
    rw [List.pairwise_map]
    refine List.Pairwise.imp_of_mem ?_ sorted
    intro cell later hcell hlater hlt
    obtain ⟨components, -, hname⟩ := names cell hcell
    obtain ⟨others, -, hname'⟩ := names later hlater
    rw [hname, hname', ← Bytes.compare_eq_lt, Composite.compare_encode] at hlt
    show compare cell.named.components later.named.components = .lt
    rwa [Cell.named_eq hname, Cell.named_eq hname']

/-- The clustering values of the entries are those at the start of the names of live
cells. -/
theorem mem_clustering_iff (hkind : layout.kind.isComposite = true)
    (names : ∀ cell ∈ stored.liveCells, HasArity layout.arity cell.name)
    (hentries : stored.entries layout = .ok entries) {clustering : List Bytes} :
    clustering ∈ entries.map Entry.clustering ↔
      ∃ cell ∈ stored.liveCells,
        cell.named.components.take layout.clustering.length = clustering := by
  rcases Kind.isComposite_eq_true_iff.mp hkind with hsparse | hdense
  · have hleading : ∀ cell ∈ stored.liveCells,
        cell.named.components.take layout.clustering.length = cell.named.leading := by
      intro cell hcell
      have hname := names cell hcell
      rw [Layout.arity_of_sparse hsparse] at hname
      exact Cell.take_components_named hname
    rw [entries_sparse hsparse names] at hentries
    cases hentries
    simp only [List.map_map, List.mem_map, Function.comp_apply]
    constructor
    · rintro ⟨run, hrun, rfl⟩
      -- Any cell of the run will do.
      obtain ⟨named, hnamed⟩ := List.exists_mem_of_ne_nil run (ne_nil_of_mem_runs hrun)
      obtain ⟨cell, hcell, rfl⟩ := List.mem_map.mp (exists_run_iff.mp ⟨run, hrun, hnamed⟩)
      exact ⟨cell, hcell, (hleading cell hcell).trans (clustering_sparseEntry hrun hnamed _).symm⟩
    · rintro ⟨cell, hcell, rfl⟩
      obtain ⟨run, hrun, hnamed⟩ := exists_run_iff.mpr (List.mem_map_of_mem hcell)
      exact ⟨run, hrun, (clustering_sparseEntry hrun hnamed _).trans (hleading cell hcell).symm⟩
  · have hall : ∀ cell ∈ stored.liveCells,
        cell.named.components.take layout.clustering.length = cell.named.components := by
      intro cell hcell
      refine List.take_of_length_le (Nat.le_of_eq ?_)
      rw [Cell.length_components_named (names cell hcell).readsAs, Layout.arity_of_dense hdense]
    rw [entries_dense hdense names] at hentries
    cases hentries
    simp only [List.map_map, List.mem_map, Function.comp_apply, compactEntry]
    exact exists_congr fun cell => and_congr_right fun hcell => by rw [hall cell hcell]

/-- Between the cells of a partition and its entries, no clustering values are lost. -/
theorem mem_tuples_iff (hkind : layout.kind.isComposite = true)
    (names : ∀ cell ∈ stored.liveCells, HasArity layout.arity cell.name)
    (hentries : stored.entries layout = .ok entries) {tuple : List Bytes} :
    tuple ∈ layout.tuples entries ↔
      ∃ cell ∈ stored.liveCells, ∃ components,
        cell.name = encode components ∧ tuple = layout.clusteringValues components := by
  have htuples : layout.tuples entries =
      (entries.map Entry.clustering).map layout.clusteringValues := by
    rw [List.map_map]
    rfl
  rw [htuples, List.mem_map]
  constructor
  · rintro ⟨clustering, hclustering, rfl⟩
    obtain ⟨cell, hcell, rfl⟩ := (mem_clustering_iff hkind names hentries).mp hclustering
    obtain ⟨components, -, hname⟩ := names cell hcell
    refine ⟨cell, hcell, components, hname, ?_⟩
    rw [Cell.named_eq hname, Layout.clusteringValues_take]
  · rintro ⟨cell, hcell, components, hname, rfl⟩
    refine ⟨_, (mem_clustering_iff hkind names hentries).mpr ⟨cell, hcell, rfl⟩, ?_⟩
    rw [Cell.named_eq hname, Layout.clusteringValues_take]

/-- The clustering values of entries are in strict order, as the rows show them. -/
theorem pairwise_tuples (hkind : layout.kind.isComposite = true)
    (sorted : Sorted stored.liveCells)
    (names : ∀ cell ∈ stored.liveCells, HasArity layout.arity cell.name)
    (hentries : stored.entries layout = .ok entries) :
    (layout.tuples entries).Pairwise layout.Precedes := by
  rw [Layout.tuples, List.pairwise_map]
  refine List.Pairwise.imp_of_mem ?_ (pairwise_clustering hkind sorted names hentries)
  intro entry later hentry hlater hlt
  have hlength := length_clustering_of_mem_entries hkind names hentries hentry
  have hlength' := length_clustering_of_mem_entries hkind names hentries hlater
  rwa [Layout.Precedes, Layout.comparables_clusteringValues hlength,
    Layout.comparables_clusteringValues hlength']

end Partition

/-! ### The rows of a partition -/

namespace Plan

variable {plan : Plan} {settings : Settings} {query : Query} {layout : Layout}
  {indexed : List String}

/-- A list from the back is in the opposite order. -/
theorem pairwise_arranged {α : Type} {before : α → α → Prop} {xs : List α}
    (h : xs.Pairwise before) (reversed : Bool) :
    (if reversed then xs.reverse else xs).Pairwise fun x later =>
      if reversed then before later x else before x later := by
  cases reversed with
  | true => exact List.pairwise_reverse.mpr h
  | false => exact h

/-- Reversing rows adds none and loses none. -/
theorem mem_arranged {α : Type} {x : α} {xs : List α} (reversed : Bool) :
    (x ∈ if reversed then xs.reverse else xs) ↔ x ∈ xs := by
  cases reversed with
  | true => exact List.mem_reverse
  | false => rfl

/-- The clustering values that the rows of all fields show, in the order asked for. -/
theorem clustering_ordered {entries : List Entry}
    (hcolumns : plan.columns = layout.fields.map fun field => ⟨field, field.name⟩)
    (hlength : ∀ entry ∈ entries, entry.clustering.length = layout.clustering.length) :
    (plan.ordered (entries.map fun entry => entry.row plan.columns)).map
        (Row.clustering layout) =
      (if plan.reversed then (layout.tuples entries).reverse else layout.tuples entries).map
        (List.map some) := by
  have hrows : (entries.map fun entry => entry.row plan.columns).map (Row.clustering layout) =
      (layout.tuples entries).map (List.map some) := by
    rw [Layout.tuples, List.map_map, List.map_map, hcolumns]
    exact List.map_congr_left fun entry hentry => Entry.clustering_row (hlength entry hentry)
  rw [map_ordered, hrows]
  cases plan.reversed with
  | true => exact List.map_reverse.symm
  | false => rfl

/-- Rows come in the order of their clustering values, each once and none missing. A plan for
all fields reconstructs rows from the cells of one partition, provided that their names are
those of the table and in their order. Before the limit the clustering values of the rows are
strictly ascending, or descending where the query asks for it, and they are the clustering
values in the names of the live cells. Each value is compared in its form inside cell names,
where numbers that are not missing are in the order of their size. -/
theorem process_ordered (h : compile settings query layout indexed = .ok plan)
    (hkind : layout.kind.isComposite = true) (hselection : query.selection = [])
    (hcount : query.count = false) {stored : Partition} (sorted : Sorted stored.liveCells)
    (names : ∀ cell ∈ stored.liveCells, HasArity layout.arity cell.name) :
    ∃ (rows : List Row) (tuples : List (List Bytes)),
      plan.rows [stored] = .ok rows ∧
      plan.process [stored] = .ok ⟨plan.header, (plan.ordered rows).take plan.limit⟩ ∧
      (plan.ordered rows).map (Row.clustering layout) = tuples.map (List.map some) ∧
      (tuples.Pairwise fun tuple later =>
        if query.reversed then layout.Precedes later tuple else layout.Precedes tuple later) ∧
      (∀ tuple, tuple ∈ tuples ↔ ∃ cell ∈ stored.liveCells, ∃ components,
        cell.name = encode components ∧ tuple = layout.clusteringValues components) ∧
      ∀ decl ∈ layout.clustering, ∀ value other,
        decl.type.Present value → decl.type.Present other →
        compare (decl.type.toComparable value) (decl.type.toComparable other) =
          decl.type.compareValues value other := by
  obtain ⟨bound, hcompiled⟩ := compile_eq_ok h
  have hplan : plan.count = false := hcompiled.count_eq.trans hcount
  have hcolumns := columns_wildcard h hselection hcount
  obtain rfl := hcompiled.layout_eq
  obtain ⟨entries, hpartition⟩ := Partition.exists_entries hkind names
  have hentries : plan.entries [stored] = .ok entries := by
    have hcons : plan.entries [stored] = .ok (entries ++ []) := entries_cons hpartition rfl
    rwa [List.append_nil] at hcons
  have hlength : ∀ entry ∈ entries, entry.clustering.length = plan.layout.clustering.length :=
    fun entry => Partition.length_clustering_of_mem_entries hkind names hpartition
  refine ⟨entries.map fun entry => entry.row plan.columns,
    if query.reversed then (plan.layout.tuples entries).reverse else plan.layout.tuples entries,
    rows_of_entries hcompiled.selectsFields hentries,
    process_eq_rows hcompiled.selectsFields hplan hentries, ?_,
    pairwise_arranged (Partition.pairwise_tuples hkind sorted names hpartition) query.reversed,
    fun tuple => ?_, fun decl _ value other => FieldType.compare_toComparable⟩
  · rw [clustering_ordered hcolumns hlength, hcompiled.reversed_eq]
  · rw [mem_arranged]
    exact Partition.mem_tuples_iff hkind names hpartition

/-- The cells of three events: one before number zero, number zero in two cells, and number
one, which has been deleted. -/
def partlyDeleted : List Cell :=
  eventCells ++
    [⟨Composite.encode [[0x80, 0, 0, 0], [0x6E, 0x6F, 0x74, 0x65]], [0x63], 7, .live⟩,
      ⟨Composite.encode [[0x80, 0, 0, 1], [0x6B, 0x69, 0x6E, 0x64]], [], 8, .tombstone⟩]

/-- The live ones of these cells have names of the table. -/
theorem hasArity_partlyDeleted (key : Bytes) :
    ∀ cell ∈ Partition.liveCells ⟨key, some partlyDeleted⟩, HasArity events.arity cell.name := by
  intro cell hcell
  have hmem : cell ∈ partlyDeleted := List.mem_of_mem_filter hcell
  simp only [partlyDeleted, eventCells, List.cons_append, List.nil_append, List.mem_cons,
    List.not_mem_nil, or_false] at hmem
  rcases hmem with rfl | rfl | rfl | rfl
  all_goals exact ⟨_, rfl, rfl⟩

/-- Latest first, the two events that are left come as two rows. In the names minus one has a
smaller first byte than zero, though as a number without a sign it would be the largest. -/
theorem process_ordered_events :
    ∃ (plan : Plan) (rows : List Row) (tuples : List (List Bytes)),
      compile { identifierCase := .preserve } eventsBefore events [] = .ok plan ∧
      plan.rows [⟨[0x75], some partlyDeleted⟩] = .ok rows ∧
      (plan.ordered rows).map (Row.clustering events) = tuples.map (List.map some) ∧
      (plan.ordered rows).map (Row.clustering events) =
        [[some [0, 0, 0, 0]], [some [0xFF, 0xFF, 0xFF, 0xFF]]] ∧
      tuples.Pairwise fun tuple later => events.Precedes later tuple := by
  have hsorted : Sorted (Partition.liveCells ⟨[0x75], some partlyDeleted⟩) := by
    unfold Sorted
    decide
  obtain ⟨rows, tuples, hrows, -, hshown, hordered, -, -⟩ :=
    @process_ordered _ { identifierCase := .preserve } eventsBefore events [] rfl rfl rfl rfl
      ⟨[0x75], some partlyDeleted⟩ hsorted (hasArity_partlyDeleted _)
  refine ⟨_, rows, tuples, rfl, hrows, hshown, ?_, hordered⟩
  cases hrows
  rfl

end Plan

end WideColumn
