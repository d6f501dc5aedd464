import Mathlib.Algebra.Group.Nat.Defs
import Mathlib.Data.List.Nodup
import Mathlib.Data.List.Perm.Subperm
import WideColumn.Proofs.Reconstruction

/-!
# `WideColumn.Proofs.Fetch`: how many cells are enough

A plan asks storage for as many cells of every partition as its limit can need: one for
each row of a compact table, and otherwise one for each metadata field of each row. Where
no cell has been deleted, the first rows of a partition end within these cells. A row
that is cut there is past the limit, and so is everything after it. The theorems:

* `limit_le_fetchLimit` / `le_fetchLimit`: what the number of cells is enough for.
* `length_run_le`: a run has at most one cell for each metadata field.
* `length_first_runs_le`: as many runs as the limit have no more cells than are fetched.
* `sameStart`: a partition that is cut short starts with the entries of the whole one.
-/

set_option autoImplicit false

namespace WideColumn

open Composite (HasArity encode)

/-! ### Partitions without deleted cells -/

/-- The name is one that cells of the table have. -/
def Layout.IsCellName (layout : Layout) (name : Bytes) : Prop :=
  match layout.kind with
  | .static => ∃ field ∈ layout.metadataFields, name = field.key
  | .sparse => ∃ clustering : List Bytes, clustering.length = layout.clustering.length ∧
      ∃ field ∈ layout.metadataFields, name = encode (clustering ++ [field.key])
  | .dynamic => True
  | .dense => HasArity layout.clustering.length name

/-- The names of a table with composite names have all components. -/
theorem Layout.IsCellName.hasArity {layout : Layout} {name : Bytes} (h : layout.IsCellName name)
    (hkind : layout.kind.isComposite = true) : HasArity layout.arity name := by
  unfold Layout.IsCellName at h
  rcases Kind.isComposite_eq_true_iff.mp hkind with hsparse | hdense
  · simp only [hsparse] at h
    obtain ⟨clustering, hlength, field, -, hname⟩ := h
    refine ⟨clustering ++ [field.key], ?_, hname⟩
    rw [List.length_append, hlength, Layout.arity_of_sparse hsparse]
    rfl
  · simp only [hdense] at h
    rwa [Layout.arity_of_dense hdense]

namespace Partition

/-- The partition has cells of the table in the order of their names, none of them deleted,
and no more than can be counted in 64 bits. -/
structure Intact (layout : Layout) (stored : Partition) : Prop
    extends stored.InOrder layout.IsCellName where
  live : ∀ cell ∈ stored.cells.getD [], cell.isLive = true
  few : (stored.cells.getD []).length < 2 ^ 64

/-- The partition with its first cells only. -/
def takeCells (count : Nat) (stored : Partition) : Partition :=
  { stored with cells := stored.cells.map fun cells => cells.take count }

variable {stored : Partition} {layout : Layout}

/-- Nothing is cut off a partition with fewer cells. -/
theorem takeCells_eq_self {count : Nat} (h : (stored.cells.getD []).length ≤ count) :
    stored.takeCells count = stored := by
  obtain ⟨key, cells⟩ := stored
  cases cells with
  | none => rfl
  | some cells =>
      have hcells : cells.take count = cells := List.take_of_length_le h
      show Partition.mk key (some (cells.take count)) = _
      rw [hcells]

namespace Intact

/-- An intact partition has no deleted cells. -/
theorem liveCells_eq (h : stored.Intact layout) : stored.liveCells = stored.cells.getD [] :=
  List.filter_eq_self.mpr h.live

/-- The live cells among the first ones are the first of the live ones. -/
theorem liveCells_takeCells (h : stored.Intact layout) (count : Nat) :
    (stored.takeCells count).liveCells = stored.liveCells.take count := by
  have hcells : (stored.takeCells count).cells.getD [] = (stored.cells.getD []).take count := by
    unfold takeCells
    cases stored.cells with
    | none => exact List.take_nil.symm
    | some cells => rfl
  rw [h.liveCells_eq, liveCells, hcells, List.filter_eq_self]
  intro cell hcell
  exact h.live cell (List.mem_of_mem_take hcell)

/-- The names in an intact partition have the components of the table. -/
theorem hasArity (h : stored.Intact layout) (hkind : layout.kind.isComposite = true) :
    ∀ cell ∈ stored.liveCells, HasArity layout.arity cell.name :=
  fun cell hcell => (h.names_live cell hcell).hasArity hkind

/-- And so have those of its first cells. -/
theorem hasArity_takeCells (h : stored.Intact layout) (hkind : layout.kind.isComposite = true)
    (count : Nat) :
    ∀ cell ∈ (stored.takeCells count).liveCells, HasArity layout.arity cell.name := by
  intro cell hcell
  rw [h.liveCells_takeCells] at hcell
  exact h.hasArity hkind cell (List.mem_of_mem_take hcell)

end Intact

end Partition

/-! ### Static partitions -/

variable {layout : Layout} {cells : List Cell}

/-- A static partition has at most one cell for each metadata field. -/
theorem length_static_le (sorted : Sorted cells)
    (h : ∀ cell ∈ cells, ∃ field ∈ layout.metadataFields, cell.name = field.key) :
    cells.length ≤ layout.metadataFields.length := by
  have hsubset : cells.map Cell.name ⊆ layout.metadataFields.map Field.key := by
    intro name hname
    obtain ⟨cell, hcell, rfl⟩ := List.mem_map.mp hname
    obtain ⟨field, hfield, hkey⟩ := h cell hcell
    exact List.mem_map.mpr ⟨field, hfield, hkey.symm⟩
  have hle := sorted.nodup_names.length_le_of_subset hsubset
  rwa [List.length_map, List.length_map] at hle

/-! ### Runs of sparse cells -/

/-- The names tell the cells apart, and so do the components read from them. -/
theorem nodup_components {arity : Nat} (sorted : Sorted cells)
    (h : ∀ cell ∈ cells, HasArity arity cell.name) :
    ((cells.map Cell.named).map NamedCell.components).Nodup := by
  have hnames : ((cells.map Cell.named).map NamedCell.components).map encode =
      cells.map Cell.name := by
    rw [List.map_map, List.map_map]
    refine List.map_congr_left fun cell hcell => ?_
    obtain ⟨components, -, hname⟩ := h cell hcell
    show encode cell.named.components = cell.name
    rw [Cell.named_eq hname, hname]
  refine List.Nodup.of_map encode ?_
  rw [hnames]
  exact sorted.nodup_names

/-- A run has at most one cell for each metadata field. -/
theorem length_run_le (hkind : layout.kind = .sparse) (sorted : Sorted cells)
    (h : ∀ cell ∈ cells, layout.IsCellName cell.name) {run : List NamedCell}
    (hrun : run ∈ runs (cells.map Cell.named)) :
    run.length ≤ layout.metadataFields.length := by
  have hcomposite : layout.kind.isComposite = true := by rw [hkind]; rfl
  have hsublist : run.Sublist (cells.map Cell.named) := by
    have hflatten := List.sublist_flatten_of_mem hrun
    rwa [flatten_runs] at hflatten
  have hnodup : (run.map NamedCell.components).Nodup :=
    (nodup_components sorted fun cell hcell => (h cell hcell).hasArity hcomposite).sublist
      (hsublist.map _)
  -- The components of a cell in the run are told by its field, as all cells of the run share
  -- the leading ones.
  obtain ⟨first, rest, rfl⟩ := List.exists_cons_of_ne_nil (ne_nil_of_mem_runs hrun)
  have hsubset : (first :: rest).map NamedCell.components ⊆
      layout.metadataFields.map fun field => first.leading ++ [field.key] := by
    intro components hcomponents
    obtain ⟨named, hnamed, rfl⟩ := List.mem_map.mp hcomponents
    obtain ⟨cell, hcell, rfl⟩ := List.mem_map.mp (hsublist.subset hnamed)
    have hname := h cell hcell
    simp only [Layout.IsCellName, hkind] at hname
    obtain ⟨clustering, -, field, hfield, hname⟩ := hname
    refine List.mem_map.mpr ⟨field, hfield, ?_⟩
    rw [leading_eq_of_mem_run hrun List.mem_cons_self hnamed, Cell.named_eq hname]
    show (clustering ++ [field.key]).dropLast ++ [field.key] = clustering ++ [field.key]
    rw [List.dropLast_concat]
  have hle := hnodup.length_le_of_subset hsubset
  rwa [List.length_map, List.length_map] at hle

/-- Blocks of no more than so many elements each have no more than so many times their number.
-/
theorem length_flatten_le {α : Type} {blocks : List (List α)} {most : Nat}
    (h : ∀ block ∈ blocks, block.length ≤ most) :
    blocks.flatten.length ≤ blocks.length * most := by
  induction blocks with
  | nil => simp
  | cons block blocks ih =>
      obtain ⟨hblock, hblocks⟩ := List.forall_mem_cons.mp h
      have hrest := ih hblocks
      rw [List.flatten_cons, List.length_append, List.length_cons, Nat.succ_mul]
      omega

/-- Lists that start alike, one after the other, start alike. -/
theorem take_append_congr {α : Type} {count : Nat} {first first' others others' : List α}
    (hfirst : first'.take count = first.take count)
    (hothers : others'.take count = others.take count) :
    (first' ++ others').take count = (first ++ others).take count := by
  -- Both leave as much room for what follows.
  have hlength := congrArg List.length hfirst
  rw [List.length_take, List.length_take] at hlength
  have hroom : count - first'.length = count - first.length := by omega
  have hrest : others'.take (count - first.length) = others.take (count - first.length) := by
    have hcongr := congrArg (List.take (count - first.length)) hothers
    rwa [List.take_take, List.take_take, Nat.min_eq_left (Nat.sub_le _ _)] at hcongr
  rw [List.take_append, List.take_append, hfirst, hroom, hrest]

/-! ### The number of cells to fetch -/

namespace Plan

variable {plan : Plan} {settings : Settings} {query : Query} {indexed : List String}
  {bound : Restrictions}

/-- Where every cell is a row, as many cells are fetched as rows are asked for. -/
theorem fetchLimit_of_compact (hkind : plan.layout.kind.isCompact = true) :
    plan.fetchLimit = plan.limit := by
  rw [fetchLimit, if_pos hkind]

/-- Where rows have several cells, the number is multiplied by that of metadata fields, and
stops at the largest one of 64 bits. -/
theorem fetchLimit_of_wide (hkind : plan.layout.kind.isCompact = false) :
    plan.fetchLimit = min (2 ^ 64 - 1) (max 1 plan.layout.metadata.length * plan.limit) := by
  rw [fetchLimit, hkind]
  rfl

/-- Fewer than `2 ^ 64` cells that fit the product are fetched: where the product is too
large to be told, there are not as many cells. -/
theorem le_fetchLimit (hkind : plan.layout.kind.isCompact = false) {count : Nat}
    (few : count < 2 ^ 64) (h : count ≤ max 1 plan.layout.metadata.length * plan.limit) :
    count ≤ plan.fetchLimit := by
  rw [fetchLimit_of_wide hkind]
  omega

/-- No fewer cells are fetched than rows are asked for. -/
theorem limit_le_fetchLimit (h : Compiled settings query layout indexed plan bound) :
    plan.limit ≤ plan.fetchLimit := by
  cases hkind : plan.layout.kind.isCompact with
  | true => rw [fetchLimit_of_compact hkind]
  | false =>
      have hlimit := h.limit_eq.1
      have hword := Int64.toInt_lt query.limit
      refine le_fetchLimit hkind (by omega) ?_
      exact Nat.le_mul_of_pos_left _ (Nat.lt_of_lt_of_le Nat.zero_lt_one (Nat.le_max_left _ _))

/-! ### The first entries of a partition -/

/-- The entries of a partition that is cut short start like those of the whole one. -/
def SameStart (plan : Plan) (stored : Partition) : Prop :=
  ∃ entries entries', stored.entries plan.layout = .ok entries ∧
    (stored.takeCells plan.fetchLimit).entries plan.layout = .ok entries' ∧
    entries'.take plan.limit = entries.take plan.limit

variable {stored : Partition}

/-- All cells of a static partition are fetched. -/
theorem sameStart_static (hkind : plan.layout.kind = .static) (hlimit : 0 < plan.limit)
    (h : stored.Intact plan.layout) : plan.SameStart stored := by
  have hnames : ∀ cell ∈ stored.cells.getD [],
      ∃ field ∈ plan.layout.metadataFields, cell.name = field.key := by
    intro cell hcell
    have hname := h.names cell hcell
    simpa only [Layout.IsCellName, hkind] using hname
  have hlength := length_static_le h.sorted hnames
  have hfew : plan.layout.metadataFields.length ≤
      max 1 plan.layout.metadata.length * plan.limit := by
    rw [Declaration.metadataFields, List.length_map]
    exact Nat.le_trans (Nat.le_max_right _ _) (Nat.le_mul_of_pos_right _ hlimit)
  have hall : stored.takeCells plan.fetchLimit = stored := by
    refine Partition.takeCells_eq_self (le_fetchLimit ?_ h.few (hlength.trans hfew))
    rw [hkind]
    rfl
  refine ⟨[stored.staticEntry], [stored.staticEntry], ?_, ?_, rfl⟩
  · rw [Partition.entries, hkind]
  · rw [hall, Partition.entries, hkind]

/-- As many runs as the limit have no more cells than are fetched. -/
theorem length_first_runs_le (hkind : plan.layout.kind = .sparse)
    (h : stored.Intact plan.layout) :
    ((runs (stored.liveCells.map Cell.named)).take plan.limit).flatten.length ≤
      plan.fetchLimit := by
  let first := (runs (stored.liveCells.map Cell.named)).take plan.limit
  show first.flatten.length ≤ plan.fetchLimit
  have hruns : first.flatten.length ≤ first.length * plan.layout.metadataFields.length :=
    length_flatten_le fun run hrun =>
      length_run_le hkind h.sorted_live h.names_live (List.mem_of_mem_take hrun)
  have hcells : first.flatten.length ≤ stored.liveCells.length := by
    have hsublist : first.flatten.Sublist (runs (stored.liveCells.map Cell.named)).flatten :=
      (List.take_sublist _ _).flatten
    rw [flatten_runs] at hsublist
    simpa using hsublist.length_le
  have hfew : stored.liveCells.length < 2 ^ 64 := by
    rw [h.liveCells_eq]
    exact h.few
  refine le_fetchLimit (by rw [hkind]; rfl) (hcells.trans_lt hfew) (hruns.trans ?_)
  rw [Nat.mul_comm, Declaration.metadataFields, List.length_map]
  exact Nat.mul_le_mul (Nat.le_max_right _ _) (List.length_take_le _ _)

/-- The first runs of a sparse partition are fetched. A run that is cut short comes after
them. -/
theorem sameStart_sparse (hkind : plan.layout.kind = .sparse) (h : stored.Intact plan.layout) :
    plan.SameStart stored := by
  have hcomposite : plan.layout.kind.isComposite = true := by rw [hkind]; rfl
  have hnames := h.hasArity hcomposite
  have hruns : (runs ((stored.liveCells.take plan.fetchLimit).map Cell.named)).take plan.limit =
      (runs (stored.liveCells.map Cell.named)).take plan.limit := by
    rw [List.map_take]
    exact runs_take (pairwise_leading h.sorted_live hnames) (length_first_runs_le hkind h)
  refine ⟨_, _, Partition.entries_sparse hkind hnames,
    Partition.entries_sparse hkind (h.hasArity_takeCells hcomposite _), ?_⟩
  rw [h.liveCells_takeCells, ← List.map_take, ← List.map_take, hruns]
  rfl

/-- As many cells of a dynamic partition are fetched as there are rows to answer. -/
theorem sameStart_dynamic (hkind : plan.layout.kind = .dynamic)
    (h : stored.Intact plan.layout) : plan.SameStart stored := by
  have hfetch : plan.fetchLimit = plan.limit := fetchLimit_of_compact (by rw [hkind]; rfl)
  refine ⟨stored.liveCells.map fun cell => compactEntry stored.key [cell.name] cell,
    (stored.liveCells.take plan.limit).map fun cell => compactEntry stored.key [cell.name] cell,
    ?_, ?_, ?_⟩
  · rw [Partition.entries, hkind]
  · rw [Partition.entries, hkind, h.liveCells_takeCells, hfetch]
    rfl
  · rw [List.map_take, List.take_take, Nat.min_self]

/-- As many cells of a dense partition are fetched as there are rows to answer. -/
theorem sameStart_dense (hkind : plan.layout.kind = .dense) (h : stored.Intact plan.layout) :
    plan.SameStart stored := by
  have hfetch : plan.fetchLimit = plan.limit := fetchLimit_of_compact (by rw [hkind]; rfl)
  have hcomposite : plan.layout.kind.isComposite = true := by rw [hkind]; rfl
  refine ⟨_, _, Partition.entries_dense hkind (h.hasArity hcomposite),
    Partition.entries_dense hkind (h.hasArity_takeCells hcomposite _), ?_⟩
  rw [h.liveCells_takeCells, hfetch, List.map_take, List.take_take, Nat.min_self]
  rfl

/-- Whatever the kind, fetching that many cells leaves the first rows as they are. -/
theorem sameStart (hlimit : 0 < plan.limit) (h : stored.Intact plan.layout) :
    plan.SameStart stored := by
  cases hkind : plan.layout.kind with
  | static => exact sameStart_static hkind hlimit h
  | sparse => exact sameStart_sparse hkind h
  | dynamic => exact sameStart_dynamic hkind h
  | dense => exact sameStart_dense hkind h

/-! ### The answer -/

/-- Fetching as many cells of each partition as a plan says is enough. The number is not less
than the limit, and it is a product that stays at the largest number of 64 bits rather
than starting over. A plan that neither counts nor reverses answers the same rows to intact
partitions and to their first cells, as many as the number says. -/
theorem fetchLimit_suffices (h : compile settings query layout indexed = .ok plan) :
    plan.limit ≤ plan.fetchLimit ∧
    (layout.kind.isCompact = false →
      plan.fetchLimit = min (2 ^ 64 - 1) (max 1 layout.metadata.length * plan.limit)) ∧
    (query.count = false → query.reversed = false → ∀ stored : List Partition,
      (∀ partition ∈ stored, partition.Intact layout) →
        plan.process (stored.map (Partition.takeCells plan.fetchLimit)) =
          plan.process stored) := by
  obtain ⟨bound, hcompiled⟩ := compile_eq_ok h
  obtain rfl := hcompiled.layout_eq
  refine ⟨limit_le_fetchLimit hcompiled, fetchLimit_of_wide, ?_⟩
  intro hcount hreversed stored hintact
  have hnone : plan.count = false := hcompiled.count_eq.trans hcount
  have hforward : plan.reversed = false := hcompiled.reversed_eq.trans hreversed
  -- The entries of all partitions start alike, because those of every partition do.
  have hall : ∃ entries entries', plan.entries stored = .ok entries ∧
      plan.entries (stored.map (Partition.takeCells plan.fetchLimit)) = .ok entries' ∧
      entries'.take plan.limit = entries.take plan.limit := by
    refine entries_related
      (motive := fun entries entries' => entries'.take plan.limit = entries.take plan.limit) rfl
      (fun hfirst hothers => take_append_congr hfirst hothers) ?_
    intro partition hpartition
    exact sameStart hcompiled.limit_eq.2 (hintact partition hpartition)
  obtain ⟨entries, entries', hentries, hentries', hstart⟩ := hall
  rw [process_eq hcompiled.selectsFields hnone hentries,
    process_eq hcompiled.selectsFields hnone hentries', arrange, arrange, hforward]
  simp only [Bool.false_eq_true, if_false, hstart]

/-- The first of a user's events. -/
def firstEvent : Query :=
  { table := "events", limit := 1 }

/-- Two events, the second one with a note. -/
def notedCells : List Cell :=
  [⟨Composite.encode [[0x7F, 0xFF, 0xFF, 0xFF], [0x6B, 0x69, 0x6E, 0x64]], [0x61], 7, .live⟩,
    ⟨Composite.encode [[0x80, 0, 0, 0], [0x6B, 0x69, 0x6E, 0x64]], [0x62], 7, .live⟩,
    ⟨Composite.encode [[0x80, 0, 0, 0], [0x6E, 0x6F, 0x74, 0x65]], [0x63], 8, .live⟩]

/-- The noted cells are what a partition of events holds. -/
theorem intact_notedCells (key : Bytes) : Partition.Intact events ⟨key, some notedCells⟩ where
  sorted := by
    show Sorted notedCells
    unfold Sorted
    decide
  names cell hcell := by
    rcases List.mem_cons.mp hcell with rfl | hcell
    · exact ⟨[[0x7F, 0xFF, 0xFF, 0xFF]], rfl, ⟨"kind", .metadata, .utf8⟩, by decide, rfl⟩
    · rcases List.mem_cons.mp hcell with rfl | hcell
      · exact ⟨[[0x80, 0, 0, 0]], rfl, ⟨"kind", .metadata, .utf8⟩, by decide, rfl⟩
      · obtain rfl := List.mem_singleton.mp hcell
        exact ⟨[[0x80, 0, 0, 0]], rfl, ⟨"note", .metadata, .utf8⟩, by decide, rfl⟩
  live := by
    show ∀ cell ∈ notedCells, cell.isLive = true
    decide
  few := by
    show notedCells.length < 2 ^ 64
    decide

/-- Two cells are fetched for one event with a note or without. The second event loses its
note, and it is not answered. -/
theorem fetchLimit_suffices_events :
    ∃ plan : Plan, compile { identifierCase := .preserve } firstEvent events [] = .ok plan ∧
      plan.fetchLimit = 2 ∧
      plan.process [⟨[0x75], some (notedCells.take 2)⟩] =
        plan.process [⟨[0x75], some notedCells⟩] := by
  refine ⟨_, rfl, rfl, ?_⟩
  refine (@fetchLimit_suffices events _ { identifierCase := .preserve } firstEvent [] rfl).2.2
    rfl rfl [⟨[0x75], some notedCells⟩] ?_
  intro partition hpartition
  obtain rfl := List.mem_singleton.mp hpartition
  exact intact_notedCells _

end Plan

end WideColumn
