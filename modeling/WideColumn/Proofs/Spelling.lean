import WideColumn.Proofs.Answers
import WideColumn.Proofs.Projection

/-!
# `WideColumn.Proofs.Spelling`: how a query spells its names

A name is normalized before a field is looked for, and from then on there is only the field. So
how a name is spelled decides nothing, if the spellings are normalized to the same. It is seen
in two places: a column is told under the name that the select clause asks for it by, and a name
that no field has is told as it is written. The theorems:

* `Query.Respelled.alike`: queries that differ in their spelling correspond, with the same
  terms.
* `Plan.map_display_columns`: the names that a query gives its columns.
* `Entry.sideBySide_columns`: an entry gives the same columns, under the names of either.
* `Plan.Alike.process_respelled`: so do all partitions.
* `Plan.names_of_complete`: no column is missing, except of static partitions without a
  container.

Nothing is used of how letters are lowered.
-/

set_option autoImplicit false

namespace WideColumn

/-! ### Queries that differ in their spelling -/

/-- The relation with its field under another name. -/
def Relation.withField (name : Identifier) : Relation → Relation
  | .compare _ operator value => .compare name operator value
  | .oneOf _ values => .oneOf name values

/-- Two relations that are the same but for the name of their field, with names that are
normalized to the same. -/
structure Relation.Respelled (settings : Settings) (relation other : Relation) : Prop where
  same : other = relation.withField other.field
  named : settings.normalize other.field = settings.normalize relation.field

/-- Two queries that are the same but for the names in their select and where clauses, with names
that are normalized to the same. -/
structure Query.Respelled (settings : Settings) (query other : Query) : Prop where
  same : other = { query with selection := other.selection, conditions := other.conditions }
  selection : List.Forall₂ (fun name name' => settings.normalize name' = settings.normalize name)
    query.selection other.selection
  conditions : List.Forall₂ (Relation.Respelled settings) query.conditions other.conditions

/-- Relations that differ in the spelling of a name correspond, with the same terms. -/
theorem Relation.Respelled.alike {settings : Settings} {relation other : Relation}
    (h : relation.Respelled settings other) : relation.Alike settings (fun _ => Eq) other := by
  obtain ⟨hsame, hnamed⟩ := h
  rw [hsame]
  cases relation with
  | compare name operator value => exact .compare _ _ operator value value hnamed rfl
  | oneOf name values =>
      exact .oneOf _ _ values values hnamed (List.forall₂_same.mpr fun value _ => rfl)

/-- And so do queries that differ in the spelling of names. -/
theorem Query.Respelled.alike {settings : Settings} {query other : Query}
    (h : query.Respelled settings other) (hcount : query.count = false) :
    query.Alike settings (fun _ => Eq) other where
  table := by rw [h.same]
  selection := h.selection
  counted htrue := by
    rw [hcount] at htrue
    cases htrue
  conditions := h.conditions.imp fun relation other hrelation => hrelation.alike
  limit := by rw [h.same]
  consistency := by rw [h.same]
  reversed := by rw [h.same]
  count := by rw [h.same]

/-! ### Answers that differ in the names of their columns -/

/-- The names a query gives its columns: those of its select clause as they are written, in its
order, or those of all fields where it has none. -/
def Query.columnNames (query : Query) (layout : Layout) : List String :=
  if query.selection = [] then layout.names else query.selection.map Identifier.text

/-- The columns of two rows, taken side by side along the names each of the rows has for them. At
every place both rows have a column, of one value and one timestamp and each under its own
name, or neither of them has one. -/
inductive Column.SideBySide : List String → List String → List Column → List Column → Prop
  | nil : SideBySide [] [] [] []
  | both (name name' : String) (value : Option Bytes) (timestamp : Int64)
    {names names' : List String} {columns columns' : List Column}
    (rest : SideBySide names names' columns columns') :
    SideBySide (name :: names) (name' :: names') (⟨name, value, timestamp⟩ :: columns)
      (⟨name', value, timestamp⟩ :: columns')
  | neither (name name' : String) {names names' : List String} {columns columns' : List Column}
    (rest : SideBySide names names' columns columns') :
    SideBySide (name :: names) (name' :: names') columns columns'

/-- Two rows that differ in the names of their columns. -/
structure Row.Respelled (names names' : List String) (row other : Row) : Prop where
  key : other.key = row.key
  columns : Column.SideBySide names names' row.columns other.columns

/-- Two answers that differ in the names of their columns, which are the given ones. -/
structure RowSet.Respelled (names names' : List String) (answer other : RowSet) : Prop where
  comparator : other.header.comparator = answer.header.comparator
  defaultValidator : other.header.defaultValidator = answer.header.defaultValidator
  types : other.header.columns.map ColumnSpec.type = answer.header.columns.map ColumnSpec.type
  named : answer.header.columns.map ColumnSpec.name = names
  named' : other.header.columns.map ColumnSpec.name = names'
  rows : List.Forall₂ (Row.Respelled names names') answer.rows other.rows

/-- An entry has the same columns for two selections of the same fields, each under the names
of the selection. -/
theorem Entry.sideBySide_columns (entry : Entry) {selection others : List Selected}
    (h : others.map Selected.field = selection.map Selected.field) :
    Column.SideBySide (selection.map Selected.display) (others.map Selected.display)
      (entry.row selection).columns (entry.row others).columns := by
  show Column.SideBySide _ _ (selection.filterMap entry.column?) (others.filterMap entry.column?)
  induction selection generalizing others with
  | nil =>
      obtain rfl := List.map_eq_nil_iff.mp h
      exact .nil
  | cons selected selection ih =>
      obtain ⟨other, others, rfl, hfield, hrest⟩ := List.map_eq_cons_iff.mp h
      -- Both columns are the field's, and only renamed.
      have hcolumn := entry.column?_eq_map selected
      have hcolumn' := entry.column?_eq_map other
      rw [hfield] at hcolumn'
      cases hown : entry.columnOf selected.field with
      | none =>
          rw [hown] at hcolumn hcolumn'
          rw [List.filterMap_cons_none hcolumn, List.filterMap_cons_none hcolumn']
          exact .neither _ _ (ih hrest)
      | some column =>
          rw [hown] at hcolumn hcolumn'
          rw [List.filterMap_cons_some hcolumn, List.filterMap_cons_some hcolumn']
          exact .both _ _ column.value column.timestamp (ih hrest)

namespace Plan

variable {settings : Settings} {query other : Query} {layout : Layout} {indexed : List String}
  {plan plan' : Plan} {bound : Restrictions} {R : String → Term → Term → Prop}
  {stored : List Partition} {answer : RowSet}

/-- The columns of a plan have the names the query gives them. -/
theorem map_display_columns (h : compile settings query layout indexed = .ok plan)
    (hcount : query.count = false) :
    plan.columns.map Selected.display = query.columnNames layout := by
  unfold Query.columnNames
  split
  · next hnone =>
      rw [columns_wildcard h hnone hcount, List.map_map]
      rfl
  · next hsome =>
      obtain ⟨bound, hcompiled⟩ := compile_eq_ok h
      have hnamed := hcompiled.columns_named hcount hsome
      rw [← List.forall₂_eq_eq_eq, List.forall₂_map_left_iff, List.forall₂_map_right_iff]
      exact hnamed.flip.imp fun selected name hname => hname.2

/-- A plan that corresponds to one which selects fields of its table does so too. -/
theorem Alike.selectsFields (h : plan.Alike R plan') (hfields : plan.SelectsFields) :
    plan'.SelectsFields := by
  intro other hother
  have hmem : other.field ∈ plan.columns.map Selected.field := by
    rw [← h.map_field_columns]
    exact List.mem_map_of_mem hother
  obtain ⟨selected, hselected, hfield⟩ := List.mem_map.mp hmem
  rw [h.layout, ← hfield]
  exact hfields selected hselected

/-- Plans that correspond have the same entries, and so their answers differ in the names of
columns. -/
theorem Alike.process_respelled (h : plan.Alike R plan') (hfields : plan.SelectsFields)
    (hcount : plan.count = false) (stored : List Partition) :
    Outcome.Alike Eq
      (RowSet.Respelled (plan.columns.map Selected.display) (plan'.columns.map Selected.display))
      (plan.process stored) (plan'.process stored) := by
  have hcount' : plan'.count = false := h.count.trans hcount
  have hentries : plan'.entries stored = plan.entries stored := by
    -- An entry knows the fields by their names in the layout, and not by those of columns.
    unfold entries
    rw [h.layout]
  have harrange : plan'.arrange = plan.arrange := by
    unfold arrange
    rw [h.reversed, h.limit]
  have htypes : plan'.header.columns.map ColumnSpec.type =
      plan.header.columns.map ColumnSpec.type := by
    have hfields := congrArg (List.map fun field => field.type.shortName) h.map_field_columns
    rw [List.map_map, List.map_map] at hfields
    show List.map _ (List.map _ plan'.columns) = List.map _ (List.map _ plan.columns)
    rw [List.map_map, List.map_map]
    exact hfields
  cases hplan : plan.entries stored with
  | error error =>
      rw [process_eq_map hcount, process_eq_map hcount', rows_eq hfields,
        rows_eq (h.selectsFields hfields), hentries, hplan]
      exact .error rfl
  | ok entries =>
      rw [process_eq hfields hcount hplan,
        process_eq (h.selectsFields hfields) hcount' (hentries.trans hplan), harrange]
      refine .ok ⟨?_, ?_, htypes, List.map_map, List.map_map, ?_⟩
      · show plan'.layout.comparator = plan.layout.comparator
        rw [h.layout]
      · show plan'.layout.defaultValidator = plan.layout.defaultValidator
        rw [h.layout]
      · rw [List.forall₂_map_left_iff, List.forall₂_map_right_iff]
        refine List.forall₂_same.mpr fun entry _ => ⟨rfl, ?_⟩
        exact entry.sideBySide_columns h.map_field_columns

/-- A row has a column for every name, unless it is of a static partition without a container. -/
theorem names_of_complete (h : compile settings query layout indexed = .ok plan)
    (hcount : query.count = false) (hprocess : plan.process stored = .ok answer)
    (hstored : layout.kind = .static → ∀ partition ∈ stored, partition.cells ≠ none) :
    ∀ row ∈ answer.rows, row.columns.map Column.name = query.columnNames layout := by
  obtain ⟨bound, hcompiled⟩ := compile_eq_ok h
  obtain ⟨entries, hentries, rfl⟩ :=
    (process_eq_ok_iff hcompiled.selectsFields (hcompiled.count_eq.trans hcount)).mp hprocess
  intro row hrow
  obtain ⟨entry, hentry, rfl⟩ := List.mem_map.mp hrow
  rw [← map_display_columns h hcount]
  -- No entry of another partition lacks a column that has been selected.
  refine Entry.names_row fun selected hselected hlacking => ?_
  obtain ⟨-, hkind, partition, hpartition, hnone, -⟩ :=
    (hcompiled.column?_eq_none_iff hentries (mem_of_mem_arrange hentry) hselected).mp hlacking
  exact hstored hkind partition hpartition hnone

/-- Plans that ask storage for the same, and whose answers differ in the names of columns. These
are the given names, of which the answers lack some at most where a static partition has no
container. -/
structure Respelled (layout : Layout) (names names' : List String) (plan plan' : Plan) :
    Prop where
  isKeyRange : plan'.isKeyRange = plan.isKeyRange
  includesKeyBound : ∀ side, plan'.includesKeyBound side = plan.includesKeyBound side
  isCellSlice : plan'.isCellSlice = plan.isCellSlice
  indexed : plan'.indexed = plan.indexed
  fetchLimit : plan'.fetchLimit = plan.fetchLimit
  answers : ∀ vars, SameAnswers plan plan' vars vars
  process : ∀ stored, Outcome.Alike Eq (RowSet.Respelled names names') (plan.process stored)
    (plan'.process stored)
  complete : ∀ stored answer, plan.process stored = .ok answer →
    (layout.kind = .static → ∀ partition ∈ stored, partition.cells ≠ none) →
    ∀ row ∈ answer.rows, row.columns.map Column.name = names

/-- How names are spelled is seen in the names of columns only. Of two queries that differ in
nothing else, with names that are normalized to the same, both are refused, and with the same
error up to the spelling of a name that no field has; or both are accepted, and then they ask
storage for the same and answer the same, each under its own names. -/
theorem compile_respelled (h : query.Respelled settings other) (hcount : query.count = false)
    (layout : Layout) (indexed : List String) :
    Outcome.Alike Error.Alike
      (Respelled layout (query.columnNames layout) (other.columnNames layout))
      (compile settings query layout indexed) (compile settings other layout indexed) := by
  have hcount' : other.count = false := by
    rw [h.same]
    exact hcount
  refine (compile_alike (h.alike hcount) layout indexed).imp_of_eq ?_
  intro plan plan' hplan hother halike
  have hnames := map_display_columns hplan hcount
  have hnames' := map_display_columns hother hcount'
  obtain ⟨bound, hcompiled⟩ := compile_eq_ok hplan
  have hanswers : ∀ vars, SameAnswers plan plan' vars vars := by
    intro vars
    -- The terms are the same, and so is what they are bound to.
    refine halike.sameAnswers ?_
    rintro field - term _ rfl
    rfl
  have hlimit : plan'.fetchLimit = plan.fetchLimit := by
    unfold fetchLimit
    rw [halike.layout, halike.limit]
  have hprocess := halike.process_respelled hcompiled.selectsFields
    (hcompiled.count_eq.trans hcount)
  rw [hnames, hnames'] at hprocess
  exact
    { isKeyRange := halike.isKeyRange_eq
      includesKeyBound := halike.includesKeyBound_eq
      isCellSlice := halike.isCellSlice_eq
      indexed := halike.indexed
      fetchLimit := hlimit
      answers := hanswers
      process := hprocess
      complete := fun stored answer => names_of_complete hplan hcount }

/-- The kind and the number of the events of one user, with names in every spelling. -/
def shoutedEvents : Query :=
  { table := "events", selection := [⟨"KIND", false⟩, ⟨"Seq", false⟩, ⟨"kind", true⟩]
    conditions := [.compare ⟨"uSER", false⟩ .eq (.bind 0)] }

/-- The same with names as the table has them. -/
def plainEvents : Query :=
  { table := "events", selection := [⟨"kind", true⟩, ⟨"seq", false⟩, ⟨"Kind", false⟩]
    conditions := [.compare ⟨"user", true⟩ .eq (.bind 0)] }

/-- Both find the same user, and tell the kind of an event twice, each under names of its own. -/
theorem compile_respelled_events :
    ∃ plan plan' answer answer', compile {} shoutedEvents events [] = .ok plan ∧
      compile {} plainEvents events [] = .ok plan' ∧
      (∀ vars, plan'.keyScan vars = plan.keyScan vars) ∧
      plan.process [⟨[0x75], some (eventCells.take 1)⟩] = .ok answer ∧
      plan'.process [⟨[0x75], some (eventCells.take 1)⟩] = .ok answer' ∧
      List.Forall₂ (Row.Respelled ["KIND", "Seq", "kind"] ["kind", "seq", "Kind"]) answer.rows
        answer'.rows ∧
      answer.rows = [⟨[0x75], [.set "KIND" [0x61] 7,
        .set "Seq" [0xFF, 0xFF, 0xFF, 0xFF] noTimestamp, .set "kind" [0x61] 7]⟩] := by
  have hrespelled : shoutedEvents.Respelled {} plainEvents := by
    refine ⟨rfl, ?_, ?_⟩
    · exact .cons (by decide) (.cons (by decide) (.cons (by decide) .nil))
    · exact .cons ⟨rfl, by decide⟩ .nil
  have halike := compile_respelled hrespelled rfl events []
  obtain ⟨plan', hplan', hsame⟩ := halike.exists_ok
  have hprocess := hsame.process [⟨[0x75], some (eventCells.take 1)⟩]
  obtain ⟨answer', hanswer', hrows⟩ := hprocess.exists_ok
  exact ⟨_, plan', _, answer', rfl, hplan', fun vars => (hsame.answers vars).keyScan, rfl,
    hanswer', hrows.rows, rfl⟩

end Plan

end WideColumn
