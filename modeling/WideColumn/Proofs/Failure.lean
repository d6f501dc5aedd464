import WideColumn.Proofs.Batch
import WideColumn.Proofs.RowOrder

/-!
# `WideColumn.Proofs.Failure`: exactly when reconstruction fails

Rows fail for two reasons. A selected field can have a role that rows of the table's kind have
no column for, and a live cell can have a name that is not one of the table's. The fields of a
table have the roles of its kind, so the first does not happen to an accepted query: only names
fail, and the first name that does gives the error. The theorems:

* `Cell.readName_eq_error_iff` / `Cell.readNameOf_eq_error_iff`: when the name of a single
  cell fails.
* `Partition.rows_failsOnly` / `Plan.process_failsOnly`: whatever is selected, there are no
  other reasons than these two.
* `Compiled.process_ne_unexpectedRole`: an accepted query never fails for the first one.
* `Plan.rows_eq_error_iff`: where fields of the table are selected, the rows fail where a walk
  over the names of the live cells does.
* `process_fails_iff`: the same for answers, and what they do not depend on.

A count reads no cell, and a name of a static or dynamic table is any byte string.
-/

set_option autoImplicit false

namespace WideColumn

open Outcome (FailsOnly failsOnly_ok)

/-! ### Names -/

/-- Why a table of the layout has no live cell of this name. -/
inductive Layout.Refuses (layout : Layout) (name : Bytes) : Violation → Prop
  /-- The name has no components, in a table whose names are composite. -/
  | unreadable {fault : Composite.Fault} (hkind : layout.kind = .sparse ∨ layout.kind = .dense)
      (hsplit : Composite.split name = .error fault) : Refuses layout name (.unreadableName fault)
  /-- The name has too few or too many components. A dense cell may have any number: values
  that its name does not reach are empty, and components past them are not read. -/
  | arity {components : List Bytes} (hkind : layout.kind = .sparse)
      (hsplit : Composite.split name = .ok components)
      (hlength : components.length ≠ layout.arity) :
      Refuses layout name (.nameArity components.length layout.arity)

/-- The first of the names that the table refuses, and why. -/
def Layout.FirstRefused (layout : Layout) (names : List Bytes) (violation : Violation) : Prop :=
  ∃ before name after, names = before ++ name :: after ∧
    (∀ earlier ∈ before, ∀ violation, ¬ layout.Refuses earlier violation) ∧
    layout.Refuses name violation

/-- Where some name is refused, one of them is the first. -/
theorem Layout.exists_firstRefused_iff {layout : Layout} {names : List Bytes} :
    (∃ violation, layout.FirstRefused names violation) ↔
      ∃ name ∈ names, ∃ violation, layout.Refuses name violation := by
  constructor
  · rintro ⟨violation, before, name, after, rfl, -, hrefuses⟩
    exact ⟨name, List.mem_append_right _ List.mem_cons_self, violation, hrefuses⟩
  · rintro ⟨name, hname, hrefused⟩
    induction names with
    | nil => cases hname
    | cons first rest ih =>
        by_cases hfirst : ∃ violation, layout.Refuses first violation
        · obtain ⟨violation, hrefuses⟩ := hfirst
          exact ⟨violation, [], first, rest, rfl, nofun, hrefuses⟩
        · rcases List.mem_cons.mp hname with rfl | hrest
          · exact absurd hrefused hfirst
          · obtain ⟨violation, before, other, after, rfl, hbefore, hrefuses⟩ := ih hrest
            refine ⟨violation, first :: before, other, after, rfl, ?_, hrefuses⟩
            exact List.forall_mem_cons.mpr ⟨not_exists.mp hfirst, hbefore⟩

namespace Cell

variable {cell : Cell} {error : Error} {arity : Nat}

/-- A name cannot be read where it cannot be split. -/
theorem readName_eq_error_iff : cell.readName = .error error ↔
    ∃ fault, Composite.split cell.name = .error fault ∧
      error = .violation (.unreadableName fault) := by
  unfold readName
  cases Composite.split cell.name with
  | ok components => simp
  | error fault => simp [eq_comm]

/-- Where the number of components is checked, it also fails with another number. -/
theorem readNameOf_eq_error_iff : cell.readNameOf arity = .error error ↔
    (∃ fault, Composite.split cell.name = .error fault ∧
      error = .violation (.unreadableName fault)) ∨
    ∃ components, Composite.split cell.name = .ok components ∧ components.length ≠ arity ∧
      error = .violation (.nameArity components.length arity) := by
  unfold readNameOf readName
  cases Composite.split cell.name with
  | error fault => simp [eq_comm]
  | ok components =>
      rw [Outcome.ok_bind]
      by_cases hlength : components.length = arity
      · simp [hlength]
      · have hthrow : (throw (.violation (.nameArity components.length arity)) :
            Except Error NamedCell) = .error (.violation (.nameArity components.length arity)) :=
          rfl
        simp [hlength, hthrow, @eq_comm _ error]

end Cell

/-- A live cell with the components of its name, where the names of the table have some. -/
def Layout.readCell (layout : Layout) (cell : Cell) : Except Error NamedCell :=
  match layout.kind with
  | .static | .dynamic => .ok cell.named
  | .sparse => cell.readNameOf layout.arity
  | .dense => cell.readName

/-- A cell cannot be read where the table refuses its name, and for that reason. -/
theorem Layout.readCell_eq_error_iff {layout : Layout} {cell : Cell} {error : Error} :
    layout.readCell cell = .error error ↔
      ∃ violation, layout.Refuses cell.name violation ∧ error = .violation violation := by
  unfold readCell
  constructor
  · intro h
    split at h
    · cases h
    · cases h
    · next hkind =>
      rcases Cell.readNameOf_eq_error_iff.mp h with
        ⟨fault, hsplit, rfl⟩ | ⟨components, hsplit, hlength, rfl⟩
      · exact ⟨_, .unreadable (.inl hkind) hsplit, rfl⟩
      · exact ⟨_, .arity hkind hsplit hlength, rfl⟩
    · next hkind =>
      obtain ⟨fault, hsplit, rfl⟩ := Cell.readName_eq_error_iff.mp h
      exact ⟨_, .unreadable (.inr hkind) hsplit, rfl⟩
  · rintro ⟨violation, hrefuses, rfl⟩
    cases hrefuses with
    | unreadable hkind hsplit =>
        rcases hkind with hkind | hkind
        · simp only [hkind]
          exact Cell.readNameOf_eq_error_iff.mpr (.inl ⟨_, hsplit, rfl⟩)
        · simp only [hkind]
          exact Cell.readName_eq_error_iff.mpr ⟨_, hsplit, rfl⟩
    | arity hkind hsplit hlength =>
        simp only [hkind]
        exact Cell.readNameOf_eq_error_iff.mpr (.inr ⟨_, hsplit, hlength, rfl⟩)

/-- A walk over cells fails at the first one whose name is refused. -/
theorem Layout.mapM_readCell_eq_error_iff {layout : Layout} {cells : List Cell} {error : Error} :
    cells.mapM layout.readCell = .error error ↔
      ∃ violation, layout.FirstRefused (cells.map Cell.name) violation ∧
        error = .violation violation := by
  have hfine : ∀ cell : Cell, (∀ error, layout.readCell cell ≠ .error error) ↔
      ∀ violation, ¬ layout.Refuses cell.name violation := by
    intro cell
    simp only [ne_eq, readCell_eq_error_iff, not_exists, not_and]
    exact ⟨fun h violation hrefuses => h _ violation hrefuses rfl,
      fun h _ violation hrefuses => absurd hrefuses (h violation)⟩
  rw [Outcome.mapM_eq_error_iff]
  -- Cells and names are cut in the same places.
  constructor
  · rintro ⟨before, cell, after, rfl, hbefore, hcell⟩
    obtain ⟨violation, hrefuses, rfl⟩ := readCell_eq_error_iff.mp hcell
    refine ⟨violation, ⟨before.map Cell.name, cell.name, after.map Cell.name, ?_, ?_, hrefuses⟩,
      rfl⟩
    · rw [List.map_append, List.map_cons]
    · exact List.forall_mem_map.mpr fun earlier hearlier => (hfine _).mp (hbefore _ hearlier)
  · rintro ⟨violation, ⟨before, name, after, hsplit, hbefore, hrefuses⟩, rfl⟩
    obtain ⟨first, rest, hcells, rfl, hrest⟩ := List.map_eq_append_iff.mp hsplit
    obtain ⟨cell, last, rfl, rfl, rfl⟩ := List.map_eq_cons_iff.mp hrest
    refine ⟨first, cell, last, hcells, fun earlier hearlier => ?_, ?_⟩
    · exact (hfine _).mpr (List.forall_mem_map.mp hbefore earlier hearlier)
    · exact readCell_eq_error_iff.mpr ⟨violation, hrefuses, rfl⟩

/-! ### Reasons to fail -/

/-- A reason for the rows of some live cells to fail: a selected field has a role that rows of
the kind have no column for, and it is the first such field, or the name of a cell is refused. -/
def Layout.Fails (layout : Layout) (selection : List Selected) (cells : List Cell)
    (error : Error) : Prop :=
  layout.kind.FirstUnexpected selection error ∨
    ∃ cell ∈ cells, layout.readCell cell = .error error

namespace SparseWalk

variable {key : Bytes} {selection : List Selected}

/-- Leaving a group fails at the first selected field that sparse rows have no column for. -/
theorem flush_failsOnly (walk : SparseWalk) :
    FailsOnly (Kind.sparse.FirstUnexpected selection) (walk.flush key selection) := by
  unfold flush
  split
  · exact failsOnly_ok _
  · exact FailsOnly.bind (fun error => sparseRow_eq_error_iff.mp) fun row => failsOnly_ok _

/-- Entering a group fails for the same reason, because the one before is left. -/
theorem enter_failsOnly (walk : SparseWalk) (leading : List Bytes) :
    FailsOnly (Kind.sparse.FirstUnexpected selection) (walk.enter key selection leading) := by
  unfold enter
  split
  · exact failsOnly_ok _
  · exact walk.flush_failsOnly.bind fun left => failsOnly_ok _

end SparseWalk

namespace Partition

variable {layout : Layout} {selection : List Selected}

/-- The rows of a sparse partition fail at a name or where a group becomes a row. -/
theorem sparseRows_failsOnly (stored : Partition) (hkind : layout.kind = .sparse) :
    FailsOnly (layout.Fails selection stored.liveCells)
      (stored.sparseRows layout.arity selection) := by
  have hrow : ∀ error, Kind.sparse.FirstUnexpected selection error →
      layout.Fails selection stored.liveCells error := by
    intro error hunexpected
    rw [← hkind] at hunexpected
    exact .inl hunexpected
  refine FailsOnly.bind (.foldlM fun walk cell hcell => ?_) fun walk => ?_
  · refine FailsOnly.bind (fun error herror => .inr ⟨cell, hcell, ?_⟩) fun named => ?_
    · rw [Layout.readCell, hkind]
      exact herror
    · exact ((walk.enter_failsOnly _).imp hrow).bind fun entered => failsOnly_ok _
  · exact (walk.flush_failsOnly.imp hrow).bind fun last => failsOnly_ok _

/-- The rows of a dynamic or dense partition fail at a name or at the row of a cell. -/
theorem compactRows_failsOnly (stored : Partition) (hkind : layout.kind.isCompact = true) :
    FailsOnly (layout.Fails selection stored.liveCells)
      (stored.compactRows layout.kind selection) := by
  refine .mapM fun cell hcell error herror => ?_
  cases hread : cell.components? layout.kind with
  | ok components => exact .inl ((compactRow_eq_error_iff hkind hread).mp herror)
  | error error' =>
      rw [compactRow, hread] at herror
      obtain rfl := Except.error.inj herror
      refine .inr ⟨cell, hcell, ?_⟩
      unfold Cell.components? at hread
      split at hread
      · next hdense =>
        rw [Layout.readCell, hdense]
        exact Outcome.map_eq_error_iff.mp hread
      · cases hread

/-- Whatever is selected, rows fail for one of the two reasons. -/
theorem rows_failsOnly (stored : Partition) (layout : Layout) (selection : List Selected) :
    FailsOnly (layout.Fails selection stored.liveCells) (stored.rows layout selection) := by
  unfold rows
  cases hkind : layout.kind with
  | static =>
      refine FailsOnly.bind (fun error herror => .inl ?_) fun row => failsOnly_ok _
      rw [hkind]
      exact staticRow_eq_error_iff.mp herror
  | sparse => exact stored.sparseRows_failsOnly hkind
  | dynamic | dense =>
      have hrows : FailsOnly (layout.Fails selection stored.liveCells)
          (stored.compactRows layout.kind selection) :=
        stored.compactRows_failsOnly (by rw [hkind]; rfl)
      rwa [hkind] at hrows

end Partition

/-! ### Partitions -/

/-- Cutting a partition into entries fails where a walk over its live cells does. -/
theorem Partition.entries_eq_error_iff {stored : Partition} {layout : Layout} {error : Error} :
    stored.entries layout = .error error ↔
      stored.liveCells.mapM layout.readCell = .error error := by
  unfold entries
  cases hkind : layout.kind with
  | static | dynamic =>
      have hread : stored.liveCells.mapM layout.readCell =
          .ok (stored.liveCells.map Cell.named) := by
        refine Outcome.mapM_eq_ok_map fun cell _ => ?_
        rw [Layout.readCell, hkind]
      rw [hread]
      exact iff_of_false nofun nofun
  | sparse | dense =>
      have hread : ∀ cell, layout.readCell cell = _ := fun cell => by
        rw [Layout.readCell, hkind]
      simp only [funext hread]
      exact Outcome.map_eq_error_iff

namespace Plan

variable {plan : Plan} {settings : Settings} {query : Query} {layout : Layout}
  {indexed : List String} {bound : Restrictions} {stored : List Partition} {error : Error}

/-- The names of the live cells of all partitions, in the order they are read. -/
def liveNames (stored : List Partition) : List Bytes :=
  (stored.flatMap Partition.liveCells).map Cell.name

/-- Cutting all partitions into entries fails at the first live cell whose name is refused,
whatever partition it is in. -/
theorem entries_eq_error_iff : plan.entries stored = .error error ↔
    ∃ violation, plan.layout.FirstRefused (liveNames stored) violation ∧
      error = .violation violation := by
  have hparts : (stored.mapM fun partition => partition.entries plan.layout) = .error error ↔
      (stored.mapM fun partition => partition.liveCells.mapM plan.layout.readCell) =
        .error error := by
    rw [Outcome.mapM_eq_error_iff, Outcome.mapM_eq_error_iff]
    simp only [ne_eq, Partition.entries_eq_error_iff]
  have hcells : plan.entries stored = .error error ↔
      (stored.flatMap Partition.liveCells).mapM plan.layout.readCell = .error error := by
    rw [← Outcome.flatten_mapM, Outcome.map_eq_error_iff, ← hparts]
    exact Outcome.map_eq_error_iff
  rw [hcells]
  exact Layout.mapM_readCell_eq_error_iff

/-- Whatever a plan selects, it fails for one of the two reasons, and only if it does not
count. -/
theorem process_failsOnly (plan : Plan) (stored : List Partition) :
    FailsOnly (fun error => plan.count = false ∧
      plan.layout.Fails plan.columns (stored.flatMap Partition.liveCells) error)
      (plan.process stored) := by
  intro error herror
  cases hcount : plan.count with
  | true =>
      rw [process, hcount] at herror
      cases herror
  | false =>
      refine ⟨rfl, ?_⟩
      obtain herror := Outcome.map_eq_error_iff.mp ((process_eq_error_iff hcount).mp herror)
      obtain ⟨before, partition, after, rfl, -, hpartition⟩ := Outcome.mapM_eq_error_iff.mp herror
      have hmem : partition ∈ before ++ partition :: after :=
        List.mem_append_right _ List.mem_cons_self
      refine (partition.rows_failsOnly plan.layout plan.columns error hpartition).imp_right ?_
      rintro ⟨cell, hcell, hrefused⟩
      exact ⟨cell, List.mem_flatMap.mpr ⟨partition, hmem, hcell⟩, hrefused⟩

/-- Where fields of the table are selected, rows fail at the first refused name. -/
theorem rows_eq_error_iff (hfields : plan.SelectsFields) : plan.rows stored = .error error ↔
    ∃ violation, plan.layout.FirstRefused (liveNames stored) violation ∧
      error = .violation violation := by
  rw [rows_eq hfields, Outcome.map_eq_error_iff, entries_eq_error_iff]

/-- An answer fails at the first refused name, unless the cells do not matter. -/
theorem process_eq_error_iff_refused (hfields : plan.SelectsFields) :
    plan.process stored = .error error ↔ plan.count = false ∧
      ∃ violation, plan.layout.FirstRefused (liveNames stored) violation ∧
        error = .violation violation := by
  cases hcount : plan.count with
  | true =>
      rw [process, hcount]
      constructor
      · rintro ⟨⟩
      · rintro ⟨⟨⟩, -⟩
  | false =>
      rw [process_eq_error_iff hcount, rows_eq_error_iff hfields]
      exact (and_iff_right rfl).symm

/-- The selected fields have roles that rows of the table's kind have something for. -/
theorem Compiled.hasRole (h : Compiled settings query layout indexed plan bound)
    {selected : Selected} (hselected : selected ∈ plan.columns) :
    layout.kind.hasRole selected.field.role = true :=
  Layout.hasRole_of_mem (h.field_mem hselected)

/-- No selected field has a role that rows of the table's kind have no column for, so this is
never what an accepted query fails for. -/
theorem Compiled.process_ne_unexpectedRole
    (h : Compiled settings query layout indexed plan bound) (stored : List Partition)
    (field : String) (role : Role) (kind : Kind) :
    plan.process stored ≠ .error (.violation (.unexpectedRole field role kind)) := by
  intro herror
  obtain ⟨-, ⟨before, selected, after, hcolumns, -, hrole, -⟩ | ⟨cell, -, hrefused⟩⟩ :=
    plan.process_failsOnly stored _ herror
  · -- All selected fields are fields of the table.
    have hselected : selected ∈ plan.columns := by
      rw [hcolumns]
      exact List.mem_append_right _ List.mem_cons_self
    rw [h.layout_eq, h.hasRole hselected] at hrole
    cases hrole
  · -- A name is refused for what is wrong with it, which is never a role.
    obtain ⟨violation, hrefuses, heq⟩ := Layout.readCell_eq_error_iff.mp hrefused
    obtain rfl := Error.violation.inj heq
    cases hrefuses

/-- Exactly when reconstruction fails. Every selected field has a role that rows of the table's
kind have a column for, and so no query fails for the role of a field. A query fails if it does
not count and some live cell has a name that the table
refuses, and then with what the first such name is refused for, which is no error of the
user. So two queries of one table that both count or both do not, whatever else they ask for,
fail alike on partitions whose live cells have the same names, whatever else these hold. And
no name of a static or dynamic table is refused. -/
theorem process_fails_iff (h : compile settings query layout indexed = .ok plan) :
    (∀ selected ∈ plan.columns, layout.kind.hasRole selected.field.role = true) ∧
    (∀ stored field role kind,
      plan.process stored ≠ .error (.violation (.unexpectedRole field role kind))) ∧
    (∀ stored, (∃ error, plan.process stored = .error error) ↔
      query.count = false ∧ ∃ name ∈ liveNames stored, ∃ violation,
        layout.Refuses name violation) ∧
    (∀ stored error, plan.process stored = .error error → error.isUser = false ∧
      ∃ violation, layout.FirstRefused (liveNames stored) violation ∧
        error = .violation violation) ∧
    (∀ settings' query' indexed' other, compile settings' query' layout indexed' = .ok other →
      query'.count = query.count → ∀ stored others, liveNames others = liveNames stored →
        ∀ error, other.process others = .error error ↔ plan.process stored = .error error) ∧
    (layout.kind = .static ∨ layout.kind = .dynamic →
      ∀ stored, ∃ answer, plan.process stored = .ok answer) := by
  obtain ⟨bound, hcompiled⟩ := compile_eq_ok h
  have hfields := hcompiled.selectsFields
  have hfails : ∀ stored, (∃ error, plan.process stored = .error error) ↔
      query.count = false ∧ ∃ name ∈ liveNames stored, ∃ violation,
        layout.Refuses name violation := by
    intro stored
    rw [← Layout.exists_firstRefused_iff, ← hcompiled.count_eq, ← hcompiled.layout_eq]
    constructor
    · rintro ⟨error, herror⟩
      obtain ⟨hcount, violation, hfirst, -⟩ := (process_eq_error_iff_refused hfields).mp herror
      exact ⟨hcount, violation, hfirst⟩
    · rintro ⟨hcount, violation, hfirst⟩
      exact ⟨_, (process_eq_error_iff_refused hfields).mpr ⟨hcount, violation, hfirst, rfl⟩⟩
  refine ⟨fun selected => hcompiled.hasRole, hcompiled.process_ne_unexpectedRole, hfails,
    ?_, ?_, ?_⟩
  · intro stored error herror
    obtain ⟨-, violation, hfirst, rfl⟩ := (process_eq_error_iff_refused hfields).mp herror
    rw [hcompiled.layout_eq] at hfirst
    exact ⟨rfl, violation, hfirst, rfl⟩
  · intro settings' query' indexed' other hother hcount stored others hnames error
    obtain ⟨bound', hcompiled'⟩ := compile_eq_ok hother
    rw [process_eq_error_iff_refused hcompiled'.selectsFields,
      process_eq_error_iff_refused hfields, hnames, hcompiled.layout_eq, hcompiled'.layout_eq,
      hcompiled.count_eq, hcompiled'.count_eq, hcount]
  · intro hkind stored
    cases hprocess : plan.process stored with
    | ok answer => exact ⟨answer, rfl⟩
    | error error =>
        -- A refused name is a composite one, or should be.
        obtain ⟨-, name, -, violation, hrefuses⟩ := (hfails stored).mp ⟨error, hprocess⟩
        cases hrefuses with
        | unreadable hcomposite _ => rcases hkind with hkind | hkind <;> simp [hkind] at hcomposite
        | arity hsparse _ _ => rcases hkind with hkind | hkind <;> simp [hkind] at hsparse

/-- An event, a cell that has only the number of one in its name, and a cell that has no
composite name at all. -/
def strayCells : List Cell :=
  eventCells.take 1 ++
    [⟨Composite.encode [[0x80, 0, 0, 0]], [0x61], 7, .live⟩, ⟨[0x61], [0x61], 7, .live⟩]

/-- The stray cells fail a query for all events in ascending order. They would fail a query for
some of them in descending order in the same way, if they held nothing. -/
theorem process_fails_iff_strays :
    ∃ plan other, compile { identifierCase := .preserve } { table := "events" } events [] =
        .ok plan ∧
      compile { identifierCase := .preserve } eventsBefore events [] = .ok other ∧
      (∃ error, plan.process [⟨[0x75], some strayCells⟩] = .error error) ∧
      other.process [⟨[0x75], some (strayCells.map fun cell => { cell with value := [] })⟩] =
        .error (.violation (.nameArity 1 2)) := by
  obtain ⟨-, -, hfails, -, hsame, -⟩ :=
    @process_fails_iff _ { identifierCase := .preserve } { table := "events" } events [] rfl
  refine ⟨_, _, rfl, rfl, (hfails _).mpr ⟨rfl, Composite.encode [[0x80, 0, 0, 0]], ?_, _,
    .arity rfl (Composite.split_encode _) (by decide)⟩, ?_⟩
  · decide
  · refine (hsame { identifierCase := .preserve } eventsBefore [] _ rfl rfl
      [⟨[0x75], some strayCells⟩] _ rfl _).mpr ?_
    rfl

end Plan

end WideColumn
