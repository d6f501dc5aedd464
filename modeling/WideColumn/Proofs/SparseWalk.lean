import WideColumn.Proofs.Roles

/-!
# `WideColumn.Proofs.SparseWalk`: the walk over sparse cells makes a run a row

The walk carries the leading components of its present group, the cells of the group by the last
component of their names, and the rows of the groups before. A cell with other leading
components ends the group, and so does the end of the cells. `SparseWalk.Holds` is the
invariant: the group holds what the walk has read since the last such change, and that is the
run which is not yet complete. The theorems:

* `SparseWalk.flush_of_holds`: the present run becomes a row.
* `SparseWalk.step_of_holds`: one cell either joins the present run, or it completes that run and
  begins another.
* `SparseWalk.walk_of_holds`: from a run on, the rows are those of the runs of the present cells
  and the ones to come.
* `Partition.sparseRows_eq`: so the walk makes every run a row, whatever the order of the cells.

There is an error at the first name that cannot be read, as if all names were read before the
walk. This is so only because no row can fail.
-/

set_option autoImplicit false

namespace WideColumn

variable {key : Bytes} {selection : List Selected} {arity : Nat} {run : List NamedCell}
  {walk : SparseWalk} {named : NamedCell}

/-! ### The cells of a group -/

/-- Of several cells with one last component, the last one is found. -/
theorem find?_reverse_concat (run : List NamedCell) (named : NamedCell) (name : Bytes) :
    ((run ++ [named]).reverse.find? fun cell => cell.components.getLast? == some name) =
      if named.components.getLast? = some name then some named
      else run.reverse.find? fun cell => cell.components.getLast? == some name := by
  rw [List.reverse_append, List.reverse_singleton, List.singleton_append, List.find?_cons]
  split
  · next hname => rw [if_pos (beq_iff_eq.mp hname)]
  · next hname => rw [if_neg fun heq => by simp [heq] at hname]

namespace SparseWalk

/-- The walk is in the run of these cells: it knows the leading components that they share, none
if there is no cell, and has for every last component the last cell of the run with it. -/
structure Holds (walk : SparseWalk) (run : List NamedCell) : Prop where
  same : ∀ named ∈ run, walk.leading = some named.leading
  leading : walk.leading = run.head?.map NamedCell.leading
  group : ∀ name, walk.group.lookup name =
    (run.reverse.find? fun named => named.components.getLast? == some name).map NamedCell.cell

/-- A walk begins with no cell and no group. -/
theorem holds_start : Holds {} [] where
  same := nofun
  leading := rfl
  group _ := rfl

/-- A cell that is inserted joins the run, provided that the group has been entered. -/
theorem holds_insert (same : ∀ cell ∈ run, cell.leading = named.leading)
    (leading : walk.leading = some named.leading)
    (group : ∀ name, walk.group.lookup name =
      (run.reverse.find? fun cell => cell.components.getLast? == some name).map NamedCell.cell) :
    (walk.insert named).Holds (run ++ [named]) := by
  have hleading : (walk.insert named).leading = some named.leading := by
    unfold insert
    split
    · exact leading
    · exact leading
  have hsame : ∀ cell ∈ run ++ [named], cell.leading = named.leading := by
    intro cell hcell
    rcases List.mem_append.mp hcell with hbefore | hlast
    · exact same cell hbefore
    · rw [List.mem_singleton.mp hlast]
  refine ⟨fun cell hcell => ?_, ?_, fun name => ?_⟩
  · rw [hleading, hsame cell hcell]
  · cases run with
    | nil => exact hleading
    | cons first rest => exact hleading.trans (congrArg some (same first List.mem_cons_self).symm)
  · -- The cell comes first under its own name, and leaves the cells under other names.
    rw [find?_reverse_concat, insert]
    cases hlast : named.components.getLast? with
    | none => exact group name
    | some last =>
        show List.lookup name ((last, named.cell) :: walk.group) = _
        rw [List.lookup_cons]
        by_cases hname : last = name
        · simp [hname]
        · have hother : (name == last) = false := beq_false_of_ne (Ne.symm hname)
          simp [hname, hother, group name]

/-- A cell that is inserted leaves the rows. -/
theorem rows_insert (walk : SparseWalk) (named : NamedCell) :
    (walk.insert named).rows = walk.rows := by
  unfold insert
  split
  · rfl
  · rfl

/-! ### One step -/

/-- The rows of the runs of some cells. -/
def rowsOf (key : Bytes) (selection : List Selected) (cells : List NamedCell) : List Row :=
  (runs cells).map fun run => (sparseEntry key run).row selection

/-- Between cells with different leading components a row ends. -/
theorem rowsOf_append {cells others : List NamedCell}
    (apart : ∀ cell ∈ cells.getLast?, ∀ next ∈ others.head?, cell.leading ≠ next.leading) :
    rowsOf key selection (cells ++ others) =
      rowsOf key selection cells ++ rowsOf key selection others := by
  rw [rowsOf, runs_append apart, List.map_append]
  rfl

/-- A run that has begun is one run. -/
theorem Holds.runs_eq (h : walk.Holds run) (hne : run ≠ []) : runs run = [run] := by
  obtain ⟨first, rest, rfl⟩ := List.exists_cons_of_ne_nil hne
  have hsame : ∀ cell ∈ first :: rest, cell.leading = first.leading := fun cell hcell =>
    Option.some.inj ((h.same cell hcell).symm.trans (h.same first List.mem_cons_self))
  exact runs_of_same hsame hne

/-- The entry of the present group is that of the run. -/
theorem Holds.groupEntry_eq (h : walk.Holds run) {leading : List Bytes}
    (hleading : walk.leading = some leading) :
    groupEntry key leading walk.group = sparseEntry key run := by
  have hclustering : (run.head?.map NamedCell.leading).getD [] = leading := by
    rw [← h.leading, hleading, Option.getD_some]
  rw [groupEntry, sparseEntry, hclustering]
  simp only [h.group]

section

variable (hroles : ∀ selected ∈ selection, Kind.sparse.hasRole selected.field.role = true)

include hroles

/-- Leaving the present group makes its run a row, after the rows that are there, and leaves
the walk without a cell. -/
theorem flush_of_holds (h : walk.Holds run) :
    ∃ left, walk.flush key selection = .ok left ∧ left.Holds [] ∧
      left.rows = walk.rows ++ rowsOf key selection run := by
  unfold flush
  cases hleading : walk.leading with
  | none =>
      -- There is no run without leading components.
      have hnil : run = [] := by
        have hhead := h.leading
        rw [hleading, eq_comm, Option.map_eq_none_iff, List.head?_eq_none_iff] at hhead
        exact hhead
      subst hnil
      exact ⟨walk, rfl, h, (List.append_nil _).symm⟩
  | some leading =>
      have hne : run ≠ [] := by
        rintro rfl
        rw [h.leading] at hleading
        cases hleading
      have hrow : sparseRow key leading walk.group selection =
          .ok ((sparseEntry key run).row selection) := by
        rw [sparseRow_eq key leading walk.group hroles, h.groupEntry_eq hleading]
      refine ⟨{ leading := none, group := [],
                rows := walk.rows ++ [(sparseEntry key run).row selection] }, ?_, ?_, ?_⟩
      · simp only [hrow]
        rfl
      · exact ⟨nofun, rfl, fun _ => rfl⟩
      · rw [rowsOf, h.runs_eq hne]
        rfl

/-- A cell joins the present run where it shares the run's leading components. Otherwise the
run becomes a row, and the cell begins a run of its own. -/
theorem step_of_holds (h : walk.Holds run) {cell : Cell}
    (hname : cell.readNameOf arity = .ok named) :
    ∃ next, walk.step key selection arity cell = .ok next ∧
      ((next.Holds (run ++ [named]) ∧ next.rows = walk.rows) ∨
        (next.Holds [named] ∧ next.rows = walk.rows ++ rowsOf key selection run ∧
          ∀ other ∈ run, other.leading ≠ named.leading)) := by
  rw [step, hname, Outcome.ok_bind]
  -- Without a run there are no leading components, and so the cell begins one.
  by_cases hsame : walk.leading = some named.leading
  · rw [enter, if_pos hsame, Outcome.ok_bind]
    refine ⟨walk.insert named, rfl, .inl ⟨holds_insert (fun other hother => ?_) hsame h.group,
      rows_insert walk named⟩⟩
    exact Option.some.inj ((h.same other hother).symm.trans hsame)
  · obtain ⟨left, hflush, hleft, hrows⟩ := flush_of_holds hroles h
    rw [enter, if_neg hsame, hflush, Outcome.ok_bind]
    refine ⟨_, rfl, .inr ⟨?_, ?_, fun other hother heq => hsame ?_⟩⟩
    · have halone : ∀ cell ∈ ([] : List NamedCell), cell.leading = named.leading := nofun
      exact holds_insert halone rfl hleft.group
    · exact (rows_insert _ named).trans hrows
    · rw [h.same other hother, heq]

/-- Whichever of the two it is, the rows that are there and those of the run that is not yet
complete are the same as before with the cell added. -/
theorem rows_of_step (h : walk.Holds run) {cell : Cell}
    (hname : cell.readNameOf arity = .ok named) :
    ∃ next run', walk.step key selection arity cell = .ok next ∧ next.Holds run' ∧
      ∀ names, next.rows ++ rowsOf key selection (run' ++ names) =
        walk.rows ++ rowsOf key selection (run ++ named :: names) := by
  obtain ⟨next, hstep, ⟨hjoined, hrows⟩ | ⟨hbegun, hrows, hapart⟩⟩ := step_of_holds hroles h hname
  · refine ⟨next, run ++ [named], hstep, hjoined, fun names => ?_⟩
    rw [hrows, List.append_assoc, List.singleton_append]
  · refine ⟨next, [named], hstep, hbegun, fun names => ?_⟩
    -- The run that is complete is one of the runs of all cells.
    rw [hrows, List.append_assoc, List.singleton_append, ← rowsOf_append]
    intro other hother first hfirst
    obtain rfl := Option.some.inj hfirst
    exact hapart other (List.mem_of_getLast? hother)

/-! ### The whole walk -/

/-- From a run on, the walk makes rows of the runs of the present cells and the ones that are
still to come. Errors are those of names that cannot be read. -/
theorem walk_of_holds (h : walk.Holds run) (cells : List Cell) :
    (cells.foldlM (step key selection arity) walk >>= flush key selection).map rows =
      (cells.mapM (Cell.readNameOf arity)).map fun names =>
        walk.rows ++ rowsOf key selection (run ++ names) := by
  -- The induction is on the cells to come: with each of them the walk and its run change.
  induction cells generalizing walk run with
  | nil =>
      obtain ⟨left, hflush, -, hrows⟩ := flush_of_holds hroles h
      rw [List.foldlM_nil, Outcome.pure_eq_ok, Outcome.ok_bind, hflush, Outcome.map_ok, hrows,
        List.mapM_nil, Outcome.pure_eq_ok, Outcome.map_ok, List.append_nil]
  | cons cell rest ih =>
      rw [List.foldlM_cons, List.mapM_cons]
      cases hname : cell.readNameOf arity with
      | error error => rw [step, hname]; rfl
      | ok named =>
          obtain ⟨next, run', hstep, hnext, hrows⟩ := rows_of_step hroles h hname
          rw [hstep, Outcome.ok_bind, Outcome.ok_bind, ih hnext]
          simp only [hrows]
          cases rest.mapM (Cell.readNameOf arity) <;> rfl

end

end SparseWalk

/-- The rows of a sparse partition are those of the runs of its live cells, if all names can be
read. -/
theorem Partition.sparseRows_eq (stored : Partition)
    (hroles : ∀ selected ∈ selection, Kind.sparse.hasRole selected.field.role = true) :
    stored.sparseRows arity selection =
      (stored.liveCells.mapM (Cell.readNameOf arity)).map fun names =>
        (runs names).map fun run => (sparseEntry stored.key run).row selection := by
  have hwalk : (stored.liveCells.foldlM (SparseWalk.step stored.key selection arity) {} >>=
      SparseWalk.flush stored.key selection).map SparseWalk.rows =
        (stored.liveCells.mapM (Cell.readNameOf arity)).map
          (SparseWalk.rowsOf stored.key selection) :=
    SparseWalk.walk_of_holds hroles SparseWalk.holds_start stored.liveCells
  rw [Partition.sparseRows, ← bind_assoc]
  exact hwalk

end WideColumn
