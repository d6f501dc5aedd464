import WideColumn.Proofs.Failure
import WideColumn.Proofs.OneApart

/-!
# `WideColumn.Proofs.CellValue`: what the value of one cell has a part in

Cells are told apart by their names, so a cell that holds another value is found in the same
places, and only a column that is read from it can be another. The theorems:

* `search_related`: the halving search looks at names only.
* `Cell.readNameOf_changed`: so do the checks of names.
* `Partition.entries_withValue`: the entries of a partition, one of whose cells holds another
  value.
* `Entry.Apart.row`: the rows of such entries.
* `process_withValue`: the answers.

Nothing here asks for an order of the cells: names may repeat, and the cell may be shadowed by
another one of its name, in which case nothing changes at all.
-/

set_option autoImplicit false

namespace WideColumn

/-- The cell with another value. -/
def Cell.withValue (cell : Cell) (value : Bytes) : Cell :=
  { cell with value }

/-- Cells of the name hold values of the field. -/
def Layout.BelongsTo (layout : Layout) (name : Bytes) (field : Field) : Prop :=
  match layout.kind with
  | .static => field.role = .metadata ∧ name = field.key
  | .sparse => field.role = .metadata ∧ Composite.EndsIn name field.key
  | .dynamic | .dense => field.role = .value

/-! ### Cells -/

/-- The cells are the cell and what it is with the other value. -/
def Cell.Changed (cell : Cell) (value : Bytes) (one other : Cell) : Prop :=
  one = cell ∧ other = cell.withValue value

/-- The same with the components of the name. -/
def NamedCell.Changed (cell : Cell) (value : Bytes) (one other : NamedCell) : Prop :=
  ∃ components, Composite.split cell.name = .ok components ∧ one = ⟨components, cell⟩ ∧
    other = ⟨components, cell.withValue value⟩

section

variable {cell : Cell} {value : Bytes}

/-- The name of a cell is read in the same way, whatever its value. -/
theorem Cell.readName_changed :
    Outcome.Alike Eq (NamedCell.Changed cell value) cell.readName
      (cell.withValue value).readName := by
  have hname : (cell.withValue value).name = cell.name := rfl
  rw [readName, readName, hname]
  cases hsplit : Composite.split cell.name with
  | ok components => exact .ok ⟨components, hsplit, rfl, rfl⟩
  | error fault => exact .error rfl

/-- Also where the number of components is checked. -/
theorem Cell.readNameOf_changed (arity : Nat) :
    Outcome.Alike Eq (NamedCell.Changed cell value) (cell.readNameOf arity)
      ((cell.withValue value).readNameOf arity) := by
  refine readName_changed.bind fun one other hchanged => ?_
  obtain ⟨components, hsplit, rfl, rfl⟩ := hchanged
  by_cases hlength : components.length = arity
  · simp only [if_pos hlength]
    exact .ok ⟨components, hsplit, rfl, rfl⟩
  · simp only [if_neg hlength]
    exact .error rfl

end

/-- Among several cells the search goes on in one half. -/
theorem search_of_middle {name : Bytes} {first second middle : Cell} {rest : List Cell}
    (hmiddle : (first :: second :: rest)[(rest.length + 2) / 2]? = some middle) :
    Partition.search name (first :: second :: rest) =
      if name < middle.name then
        Partition.search name ((first :: second :: rest).take ((rest.length + 2) / 2))
      else Partition.search name ((first :: second :: rest).drop ((rest.length + 2) / 2)) := by
  rw [Partition.search]
  simp only [hmiddle]

section

variable {R : Cell → Cell → Prop}

/-- Of cells with the same names, those in the middle have the same name. -/
theorem exists_middle_of_related (hname : ∀ cell other, R cell other → other.name = cell.name)
    {first second middle : Cell} {rest others : List Cell}
    (h : List.Forall₂ R (first :: second :: rest) others)
    (hmiddle : (first :: second :: rest)[(rest.length + 2) / 2]? = some middle) :
    ∃ first' second' rest' middle', others = first' :: second' :: rest' ∧
      rest'.length = rest.length ∧ others[(rest'.length + 2) / 2]? = some middle' ∧
      middle'.name = middle.name := by
  have hothers := getElem?_related h ((rest.length + 2) / 2)
  obtain ⟨first', _, -, htail, rfl⟩ := List.forall₂_cons_left_iff.mp h
  obtain ⟨second', rest', -, hrest, rfl⟩ := List.forall₂_cons_left_iff.mp htail
  rw [hmiddle, hrest.length_eq] at hothers
  cases hmiddle' : (first' :: second' :: rest')[(rest'.length + 2) / 2]? with
  | none =>
      rw [hmiddle'] at hothers
      cases hothers
  | some middle' =>
      rw [hmiddle'] at hothers
      cases hothers with
      | some hsame =>
          exact ⟨first', second', rest', middle', rfl, hrest.length_eq.symm, hmiddle',
            hname _ _ hsame⟩

/-- Among cells with the same names, cells are found at the same place. -/
theorem search_related (hname : ∀ cell other, R cell other → other.name = cell.name)
    (name : Bytes) {cells others : List Cell} (h : List.Forall₂ R cells others) :
    Option.Rel (fun cell other => R cell other ∧ cell.name = name)
      (Partition.search name cells) (Partition.search name others) := by
  revert others
  induction cells using Partition.search.induct name with
  | case1 =>
      intro others h
      obtain rfl := List.forall₂_nil_left_iff.mp h
      rw [Partition.search]
      exact .none
  | case2 only hfound =>
      intro others h
      obtain ⟨other, rest, honly, hrest, rfl⟩ := List.forall₂_cons_left_iff.mp h
      obtain rfl := List.forall₂_nil_left_iff.mp hrest
      rw [Partition.search, Partition.search, hname _ _ honly, if_pos hfound, if_pos hfound]
      exact .some ⟨honly, hfound⟩
  | case3 only hmissing =>
      intro others h
      obtain ⟨other, rest, honly, hrest, rfl⟩ := List.forall₂_cons_left_iff.mp h
      obtain rfl := List.forall₂_nil_left_iff.mp hrest
      rw [Partition.search, Partition.search, hname _ _ honly, if_neg hmissing, if_neg hmissing]
      exact .none
  | case4 first second rest half =>
      -- There is a cell in the middle of several.
      rename_i hmiddle
      have hlength := List.getElem?_eq_none_iff.mp hmiddle
      simp only [List.length_cons] at hlength
      omega
  | case5 first second rest half middle hmiddle hlt =>
      rename_i ih
      intro others h
      obtain ⟨first', second', rest', middle', rfl, hlength, hmiddle', hsame⟩ :=
        exists_middle_of_related hname h hmiddle
      rw [search_of_middle hmiddle, search_of_middle hmiddle', hsame, if_pos hlt, if_pos hlt,
        hlength]
      exact ih (List.forall₂_take half h)
  | case6 first second rest half middle hmiddle hge =>
      rename_i ih
      intro others h
      obtain ⟨first', second', rest', middle', rfl, hlength, hmiddle', hsame⟩ :=
        exists_middle_of_related hname h hmiddle
      rw [search_of_middle hmiddle, search_of_middle hmiddle', hsame, if_neg hge, if_neg hge,
        hlength]
      exact ih (List.forall₂_drop half h)

end

/-! ### Columns -/

/-- A counter context that cannot be read leaves the column unset. -/
theorem Cell.column_of_unreadable {cell : Cell} {field : Field} {display : String}
    {fault : Counter.Fault} (hfault : Counter.total cell.value = .error fault)
    (hcounter : cell.kind = .counter ∨ field.type.isCounter = true) :
    cell.column field display = .unset display := by
  rw [Cell.column, if_pos hcounter, hfault]

/-- The columns of a selected field are the same, or the field is the one the cell's value is
of, and they are read from the cell and from the cell with the other value. -/
def Layout.ColumnApart (layout : Layout) (cell : Cell) (value : Bytes) (selected : Selected)
    (column other : Option Column) : Prop :=
  other = column ∨
    layout.BelongsTo cell.name selected.field ∧
      column = some (cell.column selected.field selected.display) ∧
      other = some ((cell.withValue value).column selected.field selected.display)

/-- Rows of the same key and the same column names, whose columns are at most apart in the
cell's own. -/
structure Row.Apart (layout : Layout) (selection : List Selected) (cell : Cell) (value : Bytes)
    (row other : Row) : Prop where
  key : other.key = row.key
  names : other.columns.map Column.name = row.columns.map Column.name
  complete : row.columns.length = selection.length
  column : ∀ (position : Nat) (selected : Selected), selection[position]? = some selected →
    layout.ColumnApart cell value selected row.columns[position]? other.columns[position]?

/-- Entries whose rows are at most apart in the cell's own columns, whatever is selected. -/
structure Entry.Apart (layout : Layout) (cell : Cell) (value : Bytes) (entry other : Entry) :
    Prop where
  key : other.key = entry.key
  complete : ∀ selected, layout.kind.hasRole selected.field.role = true →
    entry.column? selected ≠ none ∧ other.column? selected ≠ none
  column : ∀ selected,
    layout.ColumnApart cell value selected (entry.column? selected) (other.column? selected)

section

variable {layout : Layout} {cell : Cell} {value : Bytes} {selected : Selected}

/-- In a table with one cell per row every cell belongs to the value field. -/
theorem Layout.belongsTo_value (hkind : layout.kind.isCompact = true) {field : Field}
    (hrole : field.role = .value) {name : Bytes} : layout.BelongsTo name field := by
  unfold BelongsTo
  cases hlayout : layout.kind with
  | static | sparse => rw [hlayout] at hkind; cases hkind
  | dynamic | dense => exact hrole

/-- Cells that are the same, or that have changed where the field is the cell's own. -/
theorem Layout.columnApart_cellColumn {one other : Option Cell}
    (h : Option.Rel (fun one other => other = one ∨
      layout.BelongsTo cell.name selected.field ∧ cell.Changed value one other) one other) :
    layout.ColumnApart cell value selected
      (some (cellColumn one selected.field selected.display))
      (some (cellColumn other selected.field selected.display)) := by
  cases h with
  | none => exact .inl rfl
  | some h =>
      rcases h with rfl | ⟨hbelongs, rfl, rfl⟩
      · exact .inl rfl
      · exact .inr ⟨hbelongs, rfl, rfl⟩

namespace Entry

/-- The rows of entries that are at most apart in the cell's own columns. -/
theorem Apart.row {entry other : Entry} (h : Apart layout cell value entry other)
    {selection : List Selected}
    (hroles : ∀ selected ∈ selection, layout.kind.hasRole selected.field.role = true) :
    Row.Apart layout selection cell value (entry.row selection) (other.row selection) := by
  have hcomplete : ∀ selected ∈ selection, entry.column? selected ≠ none :=
    fun selected hselected => (h.complete selected (hroles selected hselected)).1
  have hcomplete' : ∀ selected ∈ selection, other.column? selected ≠ none :=
    fun selected hselected => (h.complete selected (hroles selected hselected)).2
  have hnames := names_row hcomplete
  refine ⟨h.key, (names_row hcomplete').trans hnames.symm, ?_, ?_⟩
  · rw [← List.length_map Column.name, hnames, List.length_map]
  · intro position selected hselected
    rw [getElem?_row hcomplete hselected, getElem?_row hcomplete' hselected]
    exact h.column selected

/-- The entries of one cell with its value and with the other one. -/
theorem apart_compactEntry (hkind : layout.kind.isCompact = true) (key : Bytes)
    (clustering : List Bytes) :
    Apart layout cell value (compactEntry key clustering cell)
      (compactEntry key clustering (cell.withValue value)) := by
  have hrole : ∀ selected : Selected, layout.kind.hasRole selected.field.role = true →
      selected.field.role ≠ .metadata := by
    intro selected hrole hmetadata
    rw [hmetadata, Kind.hasRole_metadata_of_compact hkind] at hrole
    cases hrole
  refine ⟨rfl, fun selected h => ?_, fun selected => ?_⟩
  · simp [column?_eq_none_iff, hrole selected h]
  · cases hselected : selected.field.role with
    | partitionKey | clustering | metadata => exact .inl (by simp only [column?, hselected]; rfl)
    | value =>
        simp only [column?, hselected]
        refine Layout.columnApart_cellColumn (.some (.inr ⟨?_, rfl, rfl⟩))
        exact Layout.belongsTo_value hkind hselected

/-- Entries without a value field that tell the same except for the cells of metadata fields. -/
theorem apart_of_metadata {entry other : Entry} {cells cells' : Bytes → Option Cell}
    (hkey : other.key = entry.key) (hclustering : other.clustering = entry.clustering)
    (htime : other.clusteringTime = entry.clusteringTime) (hvalue : other.value = entry.value)
    (hcells : entry.metadata = some cells) (hcells' : other.metadata = some cells')
    (h : ∀ field : Field, field.role = .metadata →
      Option.Rel (fun one other => other = one ∨
        layout.BelongsTo cell.name field ∧ cell.Changed value one other)
        (cells field.key) (cells' field.key)) : Apart layout cell value entry other := by
  refine ⟨hkey, fun selected _ => ?_, fun selected => ?_⟩
  · simp [column?_eq_none_iff, hcells, hcells']
  · cases hselected : selected.field.role with
    | partitionKey => exact .inl (by simp only [column?, hselected, hkey])
    | clustering => exact .inl (by simp only [column?, hselected, hclustering, htime])
    | value => exact .inl (by simp only [column?, hselected, hvalue])
    | metadata =>
        simp only [column?, hselected, hcells, hcells', Option.map_some]
        exact Layout.columnApart_cellColumn (h _ hselected)

end Entry

/-! ### Partitions -/

namespace Partition

variable {key : Bytes} {first rest : List Cell}

/-- A deleted cell stays deleted, and a live one stays alive. -/
theorem liveCells_withValue :
    OneApart (cell.Changed value) (liveCells ⟨key, some (first ++ cell :: rest)⟩)
      (liveCells ⟨key, some (first ++ cell.withValue value :: rest)⟩) := by
  refine OneApart.filter (.apart first ⟨rfl, rfl⟩ rest) ?_
  rintro _ _ ⟨rfl, rfl⟩
  rfl

/-- In a static partition a name finds the same cell, or the cell whose value has changed,
if it is the cell's name. -/
theorem liveCell?_withValue (name : Bytes) :
    Option.Rel (fun one other => other = one ∨ cell.name = name ∧ cell.Changed value one other)
      (liveCell? ⟨key, some (first ++ cell :: rest)⟩ name)
      (liveCell? ⟨key, some (first ++ cell.withValue value :: rest)⟩ name) := by
  have hcells : OneApart (cell.Changed value) (first ++ cell :: rest)
      (first ++ cell.withValue value :: rest) := .apart first ⟨rfl, rfl⟩ rest
  have hnames : ∀ one other, other = one ∨ cell.Changed value one other →
      other.name = one.name := by
    rintro one _ (rfl | ⟨rfl, rfl⟩)
    · rfl
    · rfl
  have hfound := search_related hnames name hcells.rel
  refine related_imp (filter_related hfound ?_) ?_
  · rintro one _ ⟨rfl | ⟨rfl, rfl⟩, -⟩
    · rfl
    · rfl
  · rintro one other ⟨rfl | hchanged, hname⟩
    · exact .inl rfl
    · obtain ⟨rfl, rfl⟩ := hchanged
      exact .inr ⟨hname, rfl, rfl⟩

/-- In a static partition only the field of the cell's name finds the cell. -/
theorem staticEntry_withValue (hkind : layout.kind = .static) :
    Entry.Apart layout cell value (staticEntry ⟨key, some (first ++ cell :: rest)⟩)
      (staticEntry ⟨key, some (first ++ cell.withValue value :: rest)⟩) := by
  refine Entry.apart_of_metadata rfl rfl rfl rfl rfl rfl fun field hrole => ?_
  refine related_imp (liveCell?_withValue field.key) ?_
  rintro one other (hsame | ⟨hname, hchanged⟩)
  · exact .inl hsame
  · refine .inr ⟨?_, hchanged⟩
    rw [Layout.BelongsTo, hkind]
    exact ⟨hrole, hname⟩

/-- A run has the same leading components, and of the cells for one metadata field the last
one is in the same place. -/
theorem sparseEntry_withValue (hkind : layout.kind = .sparse) {run other : List NamedCell}
    (h : OneApart (NamedCell.Changed cell value) run other) :
    Entry.Apart layout cell value (sparseEntry key run) (sparseEntry key other) := by
  have hleading : other.head?.map NamedCell.leading = run.head?.map NamedCell.leading := by
    rw [← List.head?_map, ← List.head?_map, h.map_eq]
    rintro _ _ ⟨components, -, rfl, rfl⟩
    rfl
  refine Entry.apart_of_metadata rfl ?_ rfl rfl rfl rfl fun field hrole => ?_
  · simp only [sparseEntry, hleading]
  · refine map_related (find?_related h.reverse.rel ?_) ?_
    · rintro one _ (rfl | ⟨components, -, rfl, rfl⟩)
      · rfl
      · rfl
    · rintro one _ ⟨rfl | ⟨components, hsplit, rfl, rfl⟩, hlast⟩
      · exact .inl rfl
      · refine .inr ⟨?_, rfl, rfl⟩
        rw [Layout.BelongsTo, hkind]
        exact ⟨hrole, components, hsplit, beq_iff_eq.mp hlast⟩

/-- Where one cell of a partition has another value, the entries stand in the same places, or
there is the same error, and one entry at most is another, in the cell's own columns. -/
theorem entries_withValue (layout : Layout) (key : Bytes) (first rest : List Cell) (cell : Cell)
    (value : Bytes) :
    Outcome.Alike Eq (OneApart (Entry.Apart layout cell value))
      (entries ⟨key, some (first ++ cell :: rest)⟩ layout)
      (entries ⟨key, some (first ++ cell.withValue value :: rest)⟩ layout) := by
  have hlive : OneApart (cell.Changed value) (liveCells ⟨key, some (first ++ cell :: rest)⟩)
      (liveCells ⟨key, some (first ++ cell.withValue value :: rest)⟩) := liveCells_withValue
  unfold entries
  -- Static entries search the container, where a name can be the cell's and still find another;
  -- the other kinds walk over the live cells.
  cases hkind : layout.kind with
  | static => exact .ok (.apart [] (staticEntry_withValue hkind) [])
  | sparse =>
      have hread : Outcome.Alike Eq (OneApart (NamedCell.Changed cell value))
          ((liveCells ⟨key, some (first ++ cell :: rest)⟩).mapM (Cell.readNameOf layout.arity))
          ((liveCells ⟨key, some (first ++ cell.withValue value :: rest)⟩).mapM
            (Cell.readNameOf layout.arity)) := by
        refine hlive.mapM ?_
        rintro _ _ ⟨rfl, rfl⟩
        exact Cell.readNameOf_changed _
      refine hread.map fun named others hnamed => ?_
      refine (runs_oneApart ?_ hnamed).map fun run other => sparseEntry_withValue hkind
      rintro _ _ ⟨components, -, rfl, rfl⟩
      rfl
  | dynamic =>
      refine .ok (hlive.map ?_)
      rintro _ _ ⟨rfl, rfl⟩
      exact Entry.apart_compactEntry (by rw [hkind]; rfl) key _
  | dense =>
      have hread : Outcome.Alike Eq (OneApart (NamedCell.Changed cell value))
          ((liveCells ⟨key, some (first ++ cell :: rest)⟩).mapM Cell.readName)
          ((liveCells ⟨key, some (first ++ cell.withValue value :: rest)⟩).mapM
            Cell.readName) := by
        refine hlive.mapM ?_
        rintro _ _ ⟨rfl, rfl⟩
        exact Cell.readName_changed
      refine hread.map fun named others hnamed => hnamed.map ?_
      rintro _ _ ⟨components, -, rfl, rfl⟩
      exact Entry.apart_compactEntry (by rw [hkind]; rfl) key _

end Partition

end

/-! ### Answers -/

namespace Plan

variable {plan : Plan} {settings : Settings} {query : Query} {layout : Layout}
  {indexed : List String}

/-- The same for the entries of all partitions. -/
theorem entries_withValue (plan : Plan) (before after : List Partition) (key : Bytes)
    (first rest : List Cell) (cell : Cell) (value : Bytes) :
    Outcome.Alike Eq (OneApart (Entry.Apart plan.layout cell value))
      (plan.entries (before ++ ⟨key, some (first ++ cell :: rest)⟩ :: after))
      (plan.entries (before ++ ⟨key, some (first ++ cell.withValue value :: rest)⟩ :: after)) := by
  have hstored : OneApart (fun stored other : Partition =>
      stored = ⟨key, some (first ++ cell :: rest)⟩ ∧
        other = ⟨key, some (first ++ cell.withValue value :: rest)⟩)
      (before ++ ⟨key, some (first ++ cell :: rest)⟩ :: after)
      (before ++ ⟨key, some (first ++ cell.withValue value :: rest)⟩ :: after) :=
    .apart before ⟨rfl, rfl⟩ after
  refine Outcome.Alike.map (hstored.mapM ?_) fun parts others => OneApart.flatten
  rintro _ _ ⟨rfl, rfl⟩
  exact Partition.entries_withValue plan.layout key first rest cell value

/-- The value of a cell has a part in its own column only. Where one cell of one partition has
another value, a query that does not count fails with the same error, or its two answers have
the same header and as many rows, which have the same keys and column names. One row at most is
another, and there only columns of the field that the cell's name belongs to, which are read
from the cell. A counter context that cannot be read leaves these columns unset. -/
theorem process_withValue (h : compile settings query layout indexed = .ok plan)
    (hcount : query.count = false) (before after : List Partition) (key : Bytes)
    (first rest : List Cell) (cell : Cell) (value : Bytes) :
    Outcome.Alike Eq (fun answer other =>
        other.header = answer.header ∧ other.rows.length = answer.rows.length ∧
        other.rows.map Row.key = answer.rows.map Row.key ∧
        (other.rows.map fun row => row.columns.map Column.name) =
          (answer.rows.map fun row => row.columns.map Column.name) ∧
        OneApart (Row.Apart layout plan.columns cell value) answer.rows other.rows)
      (plan.process (before ++ ⟨key, some (first ++ cell :: rest)⟩ :: after))
      (plan.process (before ++ ⟨key, some (first ++ cell.withValue value :: rest)⟩ :: after)) ∧
    ∀ fault, Counter.total value = .error fault →
      ∀ selected ∈ plan.columns, cell.kind = .counter ∨ selected.field.type.isCounter = true →
        (cell.withValue value).column selected.field selected.display =
          .unset selected.display := by
  obtain ⟨bound, hcompiled⟩ := compile_eq_ok h
  have hplan : plan.count = false := hcompiled.count_eq.trans hcount
  refine ⟨?_, fun fault hfault selected _ hcounter => ?_⟩
  · rw [process_eq_map hplan, process_eq_map hplan, rows_eq hcompiled.selectsFields,
      rows_eq hcompiled.selectsFields]
    have hentries := plan.entries_withValue before after key first rest cell value
    rw [hcompiled.layout_eq] at hentries
    refine (hentries.map fun entries others hparts => hparts.map fun entry other hapart =>
      hapart.row fun selected => hcompiled.hasRole).map fun rows others hrows => ?_
    have hanswer : OneApart (Row.Apart layout plan.columns cell value)
        ((plan.ordered rows).take plan.limit) ((plan.ordered others).take plan.limit) := by
      -- The order and the limit come last, and look at no row.
      refine OneApart.take ?_ _
      unfold ordered
      split
      · exact hrows.reverse
      · exact hrows
    have hkeys := hanswer.map_eq (f := Row.key) fun _ _ hapart => hapart.key
    refine ⟨rfl, ?_, hkeys, hanswer.map_eq fun _ _ hapart => hapart.names, hanswer⟩
    rw [← List.length_map Row.key, hkeys, List.length_map]
  · exact Cell.column_of_unreadable hfault hcounter

/-- A table of posts, with a note on each and a counter of its views. -/
def posts : Layout :=
  { name := "posts", kind := .sparse, key := ⟨"user", .utf8⟩, clustering := [⟨"seq", .int32⟩]
    metadata := [⟨"note", .utf8⟩, ⟨"views", .counter⟩]
    fits_kind := by decide, names_nodup := by decide }

/-- The note on the post with this number. -/
def noteCell (seq : Bytes) : Cell :=
  ⟨Composite.encode [seq, Text.Utf8.ofString "note"], [0x61], 7, .live⟩

/-- The views of the post with this number. -/
def viewsCell (seq : Bytes) : Cell :=
  ⟨Composite.encode [seq, Text.Utf8.ofString "views"], Counter.context [], 7, .counter⟩

/-- Of two posts with a note and a counter each, the counter of the second one cannot be read
any more. Its row still has its note, and the other row is as it was. -/
theorem process_withValue_posts :
    ∃ plan answer other, compile { identifierCase := .preserve } { table := "posts" } posts [] =
        .ok plan ∧
      plan.process [⟨[0x75], some [noteCell [0x80, 0, 0, 0], viewsCell [0x80, 0, 0, 0],
        noteCell [0x80, 0, 0, 1], viewsCell [0x80, 0, 0, 1]]⟩] = .ok answer ∧
      plan.process [⟨[0x75], some [noteCell [0x80, 0, 0, 0], viewsCell [0x80, 0, 0, 0],
        noteCell [0x80, 0, 0, 1], (viewsCell [0x80, 0, 0, 1]).withValue [0x00]]⟩] = .ok other ∧
      OneApart (Row.Apart posts plan.columns (viewsCell [0x80, 0, 0, 1]) [0x00])
        answer.rows other.rows ∧
      answer.rows.map (fun row => row.value? "views") =
        [some (Bytes.ofInt64 0), some (Bytes.ofInt64 0)] ∧
      other.rows.map (fun row => row.value? "views") = [some (Bytes.ofInt64 0), none] ∧
      other.rows.map (fun row => row.value? "note") = [some [0x61], some [0x61]] := by
  obtain ⟨hanswers, -⟩ := @process_withValue _ { identifierCase := .preserve }
    { table := "posts" } posts [] rfl rfl [] [] [0x75]
    [noteCell [0x80, 0, 0, 0], viewsCell [0x80, 0, 0, 0], noteCell [0x80, 0, 0, 1]] []
    (viewsCell [0x80, 0, 0, 1]) [0x00]
  cases hanswers with
  | ok h => exact ⟨_, _, _, rfl, rfl, rfl, h.2.2.2.2, rfl, rfl, rfl⟩

end Plan

end WideColumn
