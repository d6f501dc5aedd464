import Mathlib.Data.List.Forall2
import Mathlib.Data.List.Perm.Basic
import Mathlib.Data.List.SplitBy
import WideColumn.Plan.Reconstruct

/-!
# `WideColumn.Proofs.Runs`: runs of cells that belong together

`runs` cuts cells where their leading components change. Among cells in the order of
their names, whose leading components never go back, every run then holds all cells
with its leading components. The theorems:

* `runs_cons`: the two things a cell can do to the runs of the cells after it.
* `flatten_runs`: the runs in their order are the cells.
* `leading_eq_of_mem_run` / `runs_apart`: a run has one leading, and a later run a
  greater one.
* `runs_eq_splitBy`: the runs are the only way to cut cells where their leading components
  change, so `runs_flatten` and `runs_append` tell the runs of cells that are put together.
* `runs_of_sublist`: some of the runs are the runs of their cells, from which
  `runs_filter` and `runs_take` follow.
* `exists_rows_of_runs`: runs of cells that were stored for rows are the rows' cells,
  a run for every row.
-/

set_option autoImplicit false

namespace WideColumn

/-- The cells cut where their leading components change. -/
def runs : List NamedCell → List (List NamedCell)
  | [] => []
  | named :: rest =>
    match runs rest with
    | (next :: run) :: others =>
      if named.leading = next.leading then (named :: next :: run) :: others
      else [named] :: (next :: run) :: others
    | others => [named] :: others

/-- Leading components of as many components do not go back where the components do
not. -/
theorem compare_dropLast_isLE {components others : List Bytes}
    (hlength : components.length = others.length) (h : (compare components others).isLE) :
    (compare components.dropLast others.dropLast).isLE := by
  induction components generalizing others with
  | nil =>
      rw [List.length_nil, eq_comm, List.length_eq_zero_iff] at hlength
      rw [hlength]
      rfl
  | cons component components ih =>
      obtain ⟨other, others, rfl⟩ := List.exists_cons_of_length_eq_add_one hlength.symm
      have hrest : components.length = others.length := Nat.succ.inj hlength
      cases components with
      | nil =>
          obtain rfl := List.length_eq_zero_iff.mp hrest.symm
          rfl
      | cons next components =>
          obtain ⟨next', others, rfl⟩ := List.exists_cons_of_length_eq_add_one hrest.symm
          rw [List.compare_cons_cons, Ordering.isLE_then_iff_or] at h
          rw [List.dropLast_cons_cons, List.dropLast_cons_cons, List.compare_cons_cons,
            Ordering.isLE_then_iff_or]
          rcases h with hlt | ⟨heq, hle⟩
          · exact .inl hlt
          · exact .inr ⟨heq, ih hrest hle⟩

/-- A cell either joins the first run of the cells after it, which has the same leading
components, or is a run of its own. -/
theorem runs_cons (named : NamedCell) (rest : List NamedCell) :
    (∃ next run others, runs rest = (next :: run) :: others ∧
      named.leading = next.leading ∧ runs (named :: rest) = (named :: next :: run) :: others) ∨
    (runs (named :: rest) = [named] :: runs rest ∧
      ∀ next run others, runs rest = (next :: run) :: others → named.leading ≠ next.leading) := by
  rw [runs]
  split
  · next next run others hrest =>
      split
      · next heq => exact .inl ⟨next, run, others, hrest, heq, rfl⟩
      · next hne =>
          refine .inr ⟨by rw [hrest], fun first tail later h => ?_⟩
          rw [hrest] at h
          cases h
          exact hne
  · next hother =>
      refine .inr ⟨rfl, fun first tail later h => ?_⟩
      exact absurd h (hother first tail later)

/-- No cell is lost or moved when cells are cut into runs. -/
theorem flatten_runs (cells : List NamedCell) : (runs cells).flatten = cells := by
  induction cells with
  | nil => rfl
  | cons named rest ih =>
      rcases runs_cons named rest with ⟨next, run, others, hrest, -, hruns⟩ | ⟨hruns, -⟩
      · rw [hruns, List.flatten_cons, List.cons_append, ← List.flatten_cons, ← hrest, ih]
      · rw [hruns, List.flatten_cons, List.singleton_append, ih]

/-- No run is empty. -/
theorem ne_nil_of_mem_runs {cells run : List NamedCell} (h : run ∈ runs cells) : run ≠ [] := by
  induction cells generalizing run with
  | nil => cases h
  | cons named rest ih =>
      rcases runs_cons named rest with ⟨next, first, others, hrest, -, hruns⟩ | ⟨hruns, -⟩
      · rw [hruns] at h
        rw [hrest] at ih
        rcases List.mem_cons.mp h with rfl | hothers
        · exact List.cons_ne_nil _ _
        · exact ih (List.mem_cons_of_mem _ hothers)
      · rw [hruns] at h
        rcases List.mem_cons.mp h with rfl | hothers
        · exact List.cons_ne_nil _ _
        · exact ih hothers

/-- The cells of the runs are the cells. -/
theorem exists_run_iff {cells : List NamedCell} {named : NamedCell} :
    (∃ run ∈ runs cells, named ∈ run) ↔ named ∈ cells := by
  rw [← List.mem_flatten, flatten_runs]

/-- The cells of a run have the same leading components. -/
theorem leading_eq_of_mem_run {cells run : List NamedCell} (h : run ∈ runs cells)
    {cell other : NamedCell} (hcell : cell ∈ run) (hother : other ∈ run) :
    cell.leading = other.leading := by
  induction cells generalizing run cell other with
  | nil => cases h
  | cons named rest ih =>
      rcases runs_cons named rest with ⟨next, first, others, hrest, heq, hruns⟩ | ⟨hruns, -⟩
      · rw [hruns] at h
        rw [hrest] at ih
        rcases List.mem_cons.mp h with rfl | hothers
        · -- The new cell has the leading components of the one it stands before.
          have hnext : ∀ member ∈ named :: next :: first, member.leading = next.leading := by
            intro member hmember
            rcases List.mem_cons.mp hmember with rfl | hrun
            · exact heq
            · exact ih List.mem_cons_self hrun List.mem_cons_self
          rw [hnext cell hcell, hnext other hother]
        · exact ih (List.mem_cons_of_mem _ hothers) hcell hother
      · rw [hruns] at h
        rcases List.mem_cons.mp h with rfl | hothers
        · rw [List.mem_singleton.mp hcell, List.mem_singleton.mp hother]
        · exact ih hothers hcell hother

/-- Where there are runs, the first one starts with a cell. -/
theorem exists_first_run {cells run : List NamedCell} (h : run ∈ runs cells) :
    ∃ next first others, runs cells = (next :: first) :: others ∧ next ∈ cells := by
  cases hruns : runs cells with
  | nil => rw [hruns] at h; cases h
  | cons start others =>
      have hstart : start ∈ runs cells := hruns ▸ List.mem_cons_self
      obtain ⟨next, first, rfl⟩ := List.exists_cons_of_ne_nil (ne_nil_of_mem_runs hstart)
      refine ⟨next, first, others, rfl, ?_⟩
      rw [← flatten_runs cells, hruns]
      exact List.mem_cons_self

/-- Components that come no later and are not the same come before. -/
theorem compare_eq_lt_of_isLE_of_ne {components others : List Bytes}
    (hle : (compare components others).isLE) (hne : components ≠ others) :
    compare components others = .lt := by
  cases hcompare : compare components others with
  | lt => rfl
  | eq => exact absurd (Std.LawfulEqOrd.eq_of_compare hcompare) hne
  | gt => rw [hcompare] at hle; cases hle

/-- What comes before is not the same. -/
theorem ne_of_compare_eq_lt {components others : List Bytes}
    (h : compare components others = .lt) : components ≠ others := by
  rintro rfl
  rw [Std.ReflOrd.compare_self] at h
  cases h

/-- Where leading components never go back, a later run has greater ones. -/
theorem runs_apart {cells : List NamedCell}
    (h : cells.Pairwise fun cell later => (compare cell.leading later.leading).isLE) :
    (runs cells).Pairwise fun run later => ∀ cell ∈ run, ∀ other ∈ later,
      compare cell.leading other.leading = .lt := by
  induction cells with
  | nil => exact .nil
  | cons named rest ih =>
      obtain ⟨hfirst, hrest⟩ := List.pairwise_cons.mp h
      have hapart := ih hrest
      rcases runs_cons named rest with ⟨next, run, others, hruns, heq, hall⟩ | ⟨hall, hne⟩
      · -- The cell compares as the one it stands before, whose run it joins.
        rw [hruns] at hapart
        obtain ⟨hlater, hothers⟩ := List.pairwise_cons.mp hapart
        rw [hall]
        refine List.pairwise_cons.mpr ⟨fun later hmem cell hcell other hother => ?_, hothers⟩
        rcases List.mem_cons.mp hcell with rfl | hrun
        · rw [heq]
          exact hlater later hmem next List.mem_cons_self other hother
        · exact hlater later hmem cell hrun other hother
      · rw [hall]
        refine List.pairwise_cons.mpr ⟨fun later hmem cell hcell other hother => ?_, hapart⟩
        obtain rfl := List.mem_singleton.mp hcell
        obtain ⟨next, run, others, hruns, hnext⟩ := exists_first_run hmem
        have hlt : compare cell.leading next.leading = .lt :=
          compare_eq_lt_of_isLE_of_ne (hfirst next hnext) (hne next run others hruns)
        -- The next run is greater than the cell, and the later ones than the next run.
        have hnextRun : (next :: run) ∈ runs rest := hruns ▸ List.mem_cons_self
        rw [hruns] at hapart hmem
        rcases List.mem_cons.mp hmem with rfl | hothers
        · rw [leading_eq_of_mem_run hnextRun hother List.mem_cons_self]
          exact hlt
        · have hlater := (List.pairwise_cons.mp hapart).1 later hothers next
            List.mem_cons_self other hother
          exact Std.TransCmp.lt_trans hlt hlater

/-! ### Cutting cells where their leading components change -/

/-- Whether two cells belong to one run when they stand side by side. -/
def sameLeading (cell next : NamedCell) : Bool :=
  cell.leading = next.leading

/-- A run ends before a cell with other leading components. -/
theorem isChain_runs (cells : List NamedCell) :
    (runs cells).IsChain fun run next =>
      ∃ hrun hnext, sameLeading (run.getLast hrun) (next.head hnext) = false := by
  induction cells with
  | nil => exact .nil
  | cons named rest ih =>
      rcases runs_cons named rest with ⟨next, run, others, hrest, -, hruns⟩ | ⟨hruns, hne⟩
      · -- The run still ends with its last cell.
        rw [hrest, List.isChain_cons] at ih
        rw [hruns, List.isChain_cons]
        refine ⟨fun later hlater => ?_, ih.2⟩
        obtain ⟨_, hnext, hlast⟩ := ih.1 later hlater
        exact ⟨List.cons_ne_nil _ _, hnext, hlast⟩
      · rw [hruns, List.isChain_cons]
        refine ⟨fun later hlater => ?_, ih⟩
        obtain ⟨others, hothers⟩ := List.head?_eq_some_iff.mp hlater
        obtain ⟨next, run, rfl⟩ := List.exists_cons_of_ne_nil
          (ne_nil_of_mem_runs (hothers ▸ List.mem_cons_self))
        exact ⟨List.cons_ne_nil _ _, List.cons_ne_nil _ _,
          decide_eq_false (hne next run others hothers)⟩

/-- A list of cells with the same leading components is in one piece. -/
theorem isChain_of_same {run : List NamedCell}
    (same : ∀ cell ∈ run, ∀ other ∈ run, cell.leading = other.leading) :
    run.IsChain fun cell next => sameLeading cell next = true := by
  refine List.Pairwise.isChain (List.pairwise_of_forall_mem_list ?_)
  intro cell hcell other hother
  exact decide_eq_true (same cell hcell other hother)

/-- Runs are what splitting cells by their leading components gives. -/
theorem runs_eq_splitBy (cells : List NamedCell) : runs cells = cells.splitBy sameLeading := by
  refine (List.splitBy_eq_iff.mpr ⟨(flatten_runs cells).symm, fun hnil => ?_, fun run hrun => ?_,
    isChain_runs cells⟩).symm
  · exact ne_nil_of_mem_runs hnil rfl
  · exact isChain_of_same fun cell hcell other hother => leading_eq_of_mem_run hrun hcell hother

/-- Blocks of cells that are apart are the runs of their cells. -/
theorem runs_flatten {blocks : List (List NamedCell)}
    (some_cell : ∀ block ∈ blocks, block ≠ [])
    (same : ∀ block ∈ blocks, ∀ cell ∈ block, ∀ other ∈ block, cell.leading = other.leading)
    (apart : blocks.Pairwise fun block later => ∀ cell ∈ block, ∀ other ∈ later,
      cell.leading ≠ other.leading) : runs blocks.flatten = blocks := by
  rw [runs_eq_splitBy]
  refine List.splitBy_flatten (fun hnil => some_cell [] hnil rfl)
    (fun block hblock => isChain_of_same (same block hblock)) ?_
  refine List.Pairwise.isChain (List.Pairwise.imp_of_mem ?_ apart)
  intro block later hblock hlater hne
  refine ⟨some_cell block hblock, some_cell later hlater, decide_eq_false ?_⟩
  exact hne _ (List.getLast_mem _) _ (List.head_mem _)

/-- Cells that all have the same leading components are one run, if there are any. -/
theorem runs_of_same {cells : List NamedCell} {values : List Bytes}
    (same : ∀ cell ∈ cells, cell.leading = values) (some_cell : cells ≠ []) :
    runs cells = [cells] := by
  have hruns := @runs_flatten [cells]
    (by simpa using some_cell) (by
      intro block hblock cell hcell other hother
      rw [List.mem_singleton.mp hblock] at hcell hother
      rw [same cell hcell, same other hother])
    (List.pairwise_singleton _ _)
  rwa [List.flatten_singleton] at hruns

/-- Cells that are followed by a cell with other leading components keep their runs. -/
theorem runs_append {cells others : List NamedCell}
    (apart : ∀ cell ∈ cells.getLast?, ∀ next ∈ others.head?, cell.leading ≠ next.leading) :
    runs (cells ++ others) = runs cells ++ runs others := by
  rw [runs_eq_splitBy, runs_eq_splitBy, runs_eq_splitBy]
  exact List.splitBy_append fun cell hcell next hnext =>
    decide_eq_false (apart cell hcell next hnext)

/-- Where leading components never go back, some of the runs are the runs of their cells: no
two of them become one where others are left out between them. -/
theorem runs_of_sublist {cells : List NamedCell}
    (h : cells.Pairwise fun cell later => (compare cell.leading later.leading).isLE)
    {blocks : List (List NamedCell)} (hblocks : blocks.Sublist (runs cells)) :
    runs blocks.flatten = blocks := by
  refine runs_flatten (fun run hrun => ne_nil_of_mem_runs (hblocks.subset hrun))
    (fun run hrun cell hcell other hother =>
      leading_eq_of_mem_run (hblocks.subset hrun) hcell hother) ?_
  refine ((runs_apart h).imp fun {run later} hlt cell hcell other hother => ?_).sublist hblocks
  exact ne_of_compare_eq_lt (hlt cell hcell other hother)

/-- Where the cells of a block have the same leading components, leaving out all cells with
some leading components leaves out whole blocks. -/
theorem flatten_filter_all {blocks : List (List NamedCell)}
    (same : ∀ block ∈ blocks, ∀ cell ∈ block, ∀ other ∈ block, cell.leading = other.leading)
    (keep : List Bytes → Bool) :
    (blocks.filter fun block => block.all fun cell => keep cell.leading).flatten =
      blocks.flatten.filter fun cell => keep cell.leading := by
  induction blocks with
  | nil => rfl
  | cons block blocks ih =>
      obtain ⟨hblock, hblocks⟩ := List.forall_mem_cons.mp same
      rw [List.flatten_cons, List.filter_append, ← ih hblocks]
      cases hall : block.all fun cell => keep cell.leading with
      | true =>
          rw [List.filter_cons, if_pos hall, List.flatten_cons,
            List.filter_eq_self.mpr (List.all_eq_true.mp hall)]
      | false =>
          -- One cell of the block is left out, and so are the others.
          obtain ⟨cell, hcell, hout⟩ := List.all_eq_false.mp hall
          have hnone : block.filter (fun cell => keep cell.leading) = [] := by
            rw [List.filter_eq_nil_iff]
            intro other hother
            rwa [hblock other hother cell hcell]
          rw [List.filter_cons, if_neg (by simp [hall]), hnone, List.nil_append]

/-- Leaving out all cells with some leading components leaves out whole runs, and no two runs
that are left become one. -/
theorem runs_filter {cells : List NamedCell}
    (h : cells.Pairwise fun cell later => (compare cell.leading later.leading).isLE)
    (keep : List Bytes → Bool) :
    runs (cells.filter fun cell => keep cell.leading) =
      (runs cells).filter fun run => run.all fun cell => keep cell.leading := by
  have hwhole : ((runs cells).filter fun run => run.all fun cell => keep cell.leading).flatten =
      cells.filter fun cell => keep cell.leading := by
    rw [flatten_filter_all fun run hrun cell hcell other hother =>
      leading_eq_of_mem_run hrun hcell hother, flatten_runs]
  rw [← hwhole]
  exact runs_of_sublist h List.filter_sublist

/-- Cutting cells off after their first runs leaves these runs, whatever else is left of the
run after them. -/
theorem runs_take {cells : List NamedCell}
    (h : cells.Pairwise fun cell later => (compare cell.leading later.leading).isLE)
    {count cut : Nat} (hroom : ((runs cells).take count).flatten.length ≤ cut) :
    (runs (cells.take cut)).take count = (runs cells).take count := by
  by_cases hall : (runs cells).length ≤ count
  · -- Nothing is cut off.
    rw [List.take_of_length_le hall, flatten_runs] at hroom
    rw [List.take_of_length_le hroom]
  · have hcount : ((runs cells).take count).length = count := by
      rw [List.length_take]
      omega
    have hparts : ((runs cells).take count).flatten ++ ((runs cells).drop count).flatten =
        cells := by
      rw [← List.flatten_append, List.take_append_drop, flatten_runs]
    obtain ⟨-, -, hapart⟩ := List.pairwise_append.mp
      ((List.take_append_drop count (runs cells)).symm ▸ runs_apart h)
    have hends : ∀ first ∈ ((runs cells).take count).flatten,
        ∀ next ∈ ((runs cells).drop count).flatten, first.leading ≠ next.leading := by
      intro first hfirst next hnext
      obtain ⟨run, hrun, hfirst⟩ := List.mem_flatten.mp hfirst
      obtain ⟨later, hlater, hnext⟩ := List.mem_flatten.mp hnext
      exact ne_of_compare_eq_lt (hapart run hrun later hlater first hfirst next hnext)
    have hcut : cells.take cut = ((runs cells).take count).flatten ++
        ((runs cells).drop count).flatten.take
          (cut - ((runs cells).take count).flatten.length) := by
      conv_lhs => rw [← hparts]
      rw [List.take_append, List.take_of_length_le hroom]
    rw [hcut, runs_append fun first hfirst next hnext => hends first
      (List.mem_of_getLast? hfirst) next (List.mem_of_mem_take (List.mem_of_head? hnext)),
      runs_of_sublist h (List.take_sublist _ _), List.take_left' hcount]

/-! ### Runs of the cells of rows -/

/-- Among a block of cells that share their leading components and others that have other
ones, the cells with these leading components are the block. -/
theorem filter_append_of_apart {block rest : List NamedCell} {leading : List Bytes}
    (hblock : ∀ cell ∈ block, cell.leading = leading)
    (hrest : ∀ cell ∈ rest, cell.leading ≠ leading) :
    (block ++ rest).filter (fun cell => cell.leading = leading) = block := by
  have hall : block.filter (fun cell => cell.leading = leading) = block := by
    rw [List.filter_eq_self]
    intro cell hcell
    exact decide_eq_true (hblock cell hcell)
  have hnone : rest.filter (fun cell => cell.leading = leading) = [] := by
    rw [List.filter_eq_nil_iff]
    intro cell hcell htrue
    exact hrest cell hcell (of_decide_eq_true htrue)
  rw [List.filter_append, hall, hnone, List.append_nil]

section

variable {Record : Type} {cellsOf : Record → List NamedCell}
  {leadingOf : Record → List Bytes}

/-- The cells with the leading components of one row are the row's. -/
theorem filter_flatMap_cons {row : Record} {rows : List Record}
    (hleading : ∀ other ∈ row :: rows, ∀ cell ∈ cellsOf other, cell.leading = leadingOf other)
    (distinct : ((row :: rows).map leadingOf).Nodup) :
    ((row :: rows).flatMap cellsOf).filter (fun cell => cell.leading = leadingOf row) =
      cellsOf row := by
  obtain ⟨hrow, -⟩ := List.nodup_cons.mp distinct
  rw [List.flatMap_cons]
  refine filter_append_of_apart (hleading row List.mem_cons_self) fun cell hcell heq => hrow ?_
  obtain ⟨other, hother, hmem⟩ := List.mem_flatMap.mp hcell
  rw [← heq, hleading other (List.mem_cons_of_mem _ hother) cell hmem]
  exact List.mem_map_of_mem hother

/-- Cells that start with the cells of one row, and rows of which this one comes first:
the cells of the row can be taken away from both. -/
theorem perm_of_first_row {block rest : List NamedCell} {row : Record} {rows : List Record}
    (hblock : ∀ cell ∈ block, cell.leading = leadingOf row)
    (hrest : ∀ cell ∈ rest, cell.leading ≠ leadingOf row)
    (hleading : ∀ other ∈ row :: rows, ∀ cell ∈ cellsOf other, cell.leading = leadingOf other)
    (distinct : ((row :: rows).map leadingOf).Nodup)
    (hperm : (block ++ rest).Perm ((row :: rows).flatMap cellsOf)) :
    block.Perm (cellsOf row) ∧ rest.Perm (rows.flatMap cellsOf) := by
  -- Both are all the cells with the leading components of the row.
  have hfirst : block.Perm (cellsOf row) := by
    have hfilter := hperm.filter fun cell => cell.leading = leadingOf row
    rwa [filter_append_of_apart hblock hrest, filter_flatMap_cons hleading distinct] at hfilter
  rw [List.flatMap_cons] at hperm
  have hcancel := (hfirst.append_right rest).symm.trans hperm
  exact ⟨hfirst, (List.perm_append_left_iff _).mp hcancel⟩

/-- Blocks of cells that are apart, and rows that are stored in the same cells and have
different leading components: the blocks are the cells of the rows, in some order of the
rows. -/
theorem exists_rows_of_blocks {blocks : List (List NamedCell)} {rows : List Record}
    (some_cell : ∀ block ∈ blocks, block ≠ [])
    (same : ∀ block ∈ blocks, ∀ cell ∈ block, ∀ other ∈ block, cell.leading = other.leading)
    (apart : blocks.Pairwise fun block later => ∀ cell ∈ block, ∀ other ∈ later,
      compare cell.leading other.leading = .lt)
    (some_stored : ∀ row ∈ rows, cellsOf row ≠ [])
    (hleading : ∀ row ∈ rows, ∀ cell ∈ cellsOf row, cell.leading = leadingOf row)
    (distinct : (rows.map leadingOf).Nodup)
    (hperm : blocks.flatten.Perm (rows.flatMap cellsOf)) :
    ∃ ordered : List Record, ordered.Perm rows ∧
      List.Forall₂ (fun row block => block.Perm (cellsOf row)) ordered blocks := by
  induction blocks generalizing rows with
  | nil =>
      -- No cells are left, and every row has some.
      have hnone : rows.flatMap cellsOf = [] := List.nil_perm.mp hperm
      cases rows with
      | nil => exact ⟨[], .nil, .nil⟩
      | cons row rows =>
          rw [List.flatMap_cons, List.append_eq_nil_iff] at hnone
          exact absurd hnone.1 (some_stored row List.mem_cons_self)
  | cons block blocks ih =>
      obtain ⟨cell, tail, rfl⟩ := List.exists_cons_of_ne_nil (some_cell block List.mem_cons_self)
      obtain ⟨hlater, hapart⟩ := List.pairwise_cons.mp apart
      -- The first cell of the block is the cell of a row, and that row comes first.
      have hcell : cell ∈ rows.flatMap cellsOf := hperm.subset List.mem_cons_self
      obtain ⟨row, hrow, hstored⟩ := List.mem_flatMap.mp hcell
      have hlead : cell.leading = leadingOf row := hleading row hrow cell hstored
      obtain ⟨before, after, rfl⟩ := List.append_of_mem hrow
      have hfront : (before ++ row :: after).Perm (row :: (before ++ after)) :=
        List.perm_middle
      have hmem : ∀ other ∈ row :: (before ++ after), other ∈ before ++ row :: after :=
        fun other => hfront.mem_iff.mpr
      have hnodup : ((row :: (before ++ after)).map leadingOf).Nodup :=
        (hfront.map leadingOf).nodup_iff.mp distinct
      have hblock : ∀ other ∈ cell :: tail, other.leading = leadingOf row := by
        intro other hother
        rw [← hlead]
        exact same _ List.mem_cons_self other hother cell List.mem_cons_self
      have hrest : ∀ other ∈ blocks.flatten, other.leading ≠ leadingOf row := by
        intro other hother heq
        obtain ⟨later, hblocks, hother⟩ := List.mem_flatten.mp hother
        have hlt := hlater later hblocks cell List.mem_cons_self other hother
        exact ne_of_compare_eq_lt hlt (hlead.trans heq.symm)
      obtain ⟨hfirst, hperm⟩ := perm_of_first_row hblock hrest
        (fun other hother => hleading other (hmem other hother)) hnodup
        (hperm.trans (hfront.flatMap_right cellsOf))
      obtain ⟨ordered, hordered, hpairs⟩ := ih
        (fun block hblock => some_cell block (List.mem_cons_of_mem _ hblock))
        (fun block hblock => same block (List.mem_cons_of_mem _ hblock)) hapart
        (fun other hother => some_stored other (hmem other (List.mem_cons_of_mem _ hother)))
        (fun other hother => hleading other (hmem other (List.mem_cons_of_mem _ hother)))
        (List.nodup_cons.mp hnodup).2 hperm
      exact ⟨row :: ordered, (hordered.cons row).trans hfront.symm, .cons hfirst hpairs⟩

/-- Cells whose leading components never go back, and rows that are stored in them: the
runs are the cells of the rows, in some order of the rows. -/
theorem exists_rows_of_runs {cells : List NamedCell} {rows : List Record}
    (h : cells.Pairwise fun cell later => (compare cell.leading later.leading).isLE)
    (some_stored : ∀ row ∈ rows, cellsOf row ≠ [])
    (hleading : ∀ row ∈ rows, ∀ cell ∈ cellsOf row, cell.leading = leadingOf row)
    (distinct : (rows.map leadingOf).Nodup) (hperm : cells.Perm (rows.flatMap cellsOf)) :
    ∃ ordered : List Record, ordered.Perm rows ∧
      List.Forall₂ (fun row run => run.Perm (cellsOf row)) ordered (runs cells) := by
  have hruns : (runs cells).flatten.Perm (rows.flatMap cellsOf) := by rwa [flatten_runs]
  exact exists_rows_of_blocks (fun run hrun => ne_nil_of_mem_runs hrun)
    (fun run hrun cell hcell other hother => leading_eq_of_mem_run hrun hcell hother)
    (runs_apart h) some_stored hleading distinct hruns

end

end WideColumn
