import WideColumn.Proofs.Acceptance
import WideColumn.Proofs.Pushdown

/-!
# `WideColumn.Proofs.RowOrder`: the order of the rows and the limit

A plan reconstructs the rows of all partitions first. Only then does it bring them in the
order asked for and leave out those past the limit, so neither the order nor the limit has
a part in what the rows are, or in whether there is an error. The theorems:

* `Plan.process_eq_error_iff`: an error is one of the rows.
* `Plan.rows_append`: partitions are reconstructed one by one. Two of them share no row,
  even where the last cells of one and the first cells of the next have the same clustering
  values.
* `Compiled.arranged`: a query that is accepted is accepted with every positive limit, and
  with its rows ascending.
* `Compiled.reconstructs`: what is answered with every such limit.
-/

set_option autoImplicit false

namespace WideColumn

/-- The rows are what a query reconstructs from partitions. With every positive limit in
place of its own the query answers the first of them, which are taken from the back where
it is reversed. -/
def Query.Reconstructs (query : Query) (settings : Settings) (layout : Layout)
    (indexed : List String) (stored : List Partition) (rows : List Row) : Prop :=
  ∀ limit : Int64, 0 < limit.toInt → ∃ plan,
    Plan.compile settings { query with limit } layout indexed = .ok plan ∧
      plan.process stored = .ok ⟨plan.header,
        (if query.reversed then rows.reverse else rows).take limit.toInt.toNat⟩

namespace Plan

variable {plan : Plan} {settings : Settings} {query : Query} {layout : Layout}
  {indexed : List String} {bound : Restrictions}

/-! ### Rows and answers -/

/-- An error of the answer is one of the rows. -/
theorem process_eq_error_iff (hcount : plan.count = false) {stored : List Partition}
    {error : Error} : plan.process stored = .error error ↔ plan.rows stored = .error error := by
  rw [process_eq_map hcount]
  exact Outcome.map_eq_error_iff

/-- Partitions are reconstructed one by one: a row ends with the partition it is of. -/
theorem rows_append (first others : List Partition) :
    plan.rows (first ++ others) = do
      let rows ← plan.rows first
      let more ← plan.rows others
      return rows ++ more := by
  unfold rows
  rw [List.mapM_append]
  -- An error of the first partitions comes before any of the others.
  cases first.mapM fun partition => partition.rows plan.layout plan.columns with
  | error error => rfl
  | ok parts =>
      cases others.mapM fun partition => partition.rows plan.layout plan.columns with
      | error error => rfl
      | ok more => exact congrArg Except.ok List.flatten_append

/-! ### Queries with another limit or order -/

/-- The checks of a query with another limit, and with its rows ascending. Only the check
of the limit reads the limit, and a query that does not reverse passes the last check. -/
theorem Compiled.arranged (h : Compiled settings query layout indexed plan bound)
    {limit : Int64} (hlimit : 0 < limit.toInt) (reversed : Bool)
    (hreversed : reversed = true → query.reversed = true) :
    Compiled settings { query with limit, reversed } layout indexed
      { plan with limit := limit.toInt.toNat, reversed } bound where
  limit := by
    show (if limit.toInt ≤ 0 then _ else Except.ok limit.toInt.toNat) = _
    rw [if_neg (by omega)]
  table := h.table
  selection := h.selection
  conditions := h.conditions
  clustering := h.clustering
  index := h.index
  reversal := by
    rw [checkReversal_eq_ok_iff]
    intro hdescending
    exact checkReversal_eq_ok_iff.mp h.reversal (hreversed hdescending)
  layout_eq := h.layout_eq
  reversed_eq := rfl
  count_eq := h.count_eq
  consistency_eq := h.consistency_eq
  countColumn_eq := h.countColumn_eq

/-- The rows of a plan are what its query reconstructs. -/
theorem Compiled.reconstructs (h : Compiled settings query layout indexed plan bound)
    (hcount : query.count = false) {stored : List Partition} {rows : List Row}
    (hrows : plan.rows stored = .ok rows) :
    query.Reconstructs settings layout indexed stored rows := by
  intro limit hlimit
  have hlimited := h.arranged hlimit query.reversed id
  refine ⟨_, hlimited.compile_eq, ?_⟩
  -- The rows are those of the plan: reconstruction reads neither the limit nor the order.
  have hsame : { plan with limit := limit.toInt.toNat, reversed := query.reversed }.rows stored =
      .ok rows := hrows
  rw [process_eq_map (hlimited.count_eq.trans hcount), hsame]
  rfl

/-- Rows are reconstructed, then reversed, then cut off. A query in descending order is
accepted in ascending order with the same restrictions. Both fail with the same error or
there is one list of rows: with every positive limit, the first of them are answered in
ascending order, and the first of them from the back in descending order. And whatever the
order, the rows of two lists of partitions are those of the first followed by those of the
second. -/
theorem process_reconstructs (h : compile settings query layout indexed = .ok plan)
    (hcount : query.count = false) :
    (query.reversed = true → ∃ ascending,
      compile settings { query with reversed := false } layout indexed = .ok ascending ∧
      ascending.restrictions = plan.restrictions ∧
      ∀ stored,
        (∃ error, plan.process stored = .error error ∧
          ascending.process stored = .error error) ∨
        ∃ rows, plan.rows stored = .ok rows ∧ ascending.rows stored = .ok rows ∧
          query.Reconstructs settings layout indexed stored rows ∧
          { query with reversed := false }.Reconstructs settings layout indexed stored rows) ∧
    ∀ first others, (∃ answer, plan.process first = .ok answer) →
      (∃ answer, plan.process others = .ok answer) →
      ∃ rows more, plan.rows first = .ok rows ∧ plan.rows others = .ok more ∧
        plan.rows (first ++ others) = .ok (rows ++ more) ∧
        query.Reconstructs settings layout indexed first rows ∧
        query.Reconstructs settings layout indexed others more ∧
        query.Reconstructs settings layout indexed (first ++ others) (rows ++ more) := by
  obtain ⟨bound, hcompiled⟩ := compile_eq_ok h
  have hplan : plan.count = false := hcompiled.count_eq.trans hcount
  constructor
  · intro _
    have hpositive : 0 < query.limit.toInt := by
      have hlimit := hcompiled.limit_eq
      omega
    -- A query that does not reverse passes the check of the order, whatever else it asks for.
    have hascending := hcompiled.arranged hpositive false nofun
    refine ⟨_, hascending.compile_eq, rfl, fun stored => ?_⟩
    cases hrows : plan.rows stored with
    | error error =>
        left
        exact ⟨error, (process_eq_error_iff hplan).mpr hrows,
          (process_eq_error_iff (hascending.count_eq.trans hcount)).mpr hrows⟩
    | ok rows =>
        right
        exact ⟨rows, rfl, hrows, hcompiled.reconstructs hcount hrows,
          hascending.reconstructs hcount hrows⟩
  · rintro first others ⟨answer, hfirst⟩ ⟨answer', hothers⟩
    rw [process_eq_map hplan] at hfirst hothers
    obtain ⟨rows, hrows, -⟩ := Outcome.map_eq_ok_iff.mp hfirst
    obtain ⟨more, hmore, -⟩ := Outcome.map_eq_ok_iff.mp hothers
    have happend : plan.rows (first ++ others) = .ok (rows ++ more) := by
      rw [rows_append, hrows, hmore]
      rfl
    exact ⟨rows, more, hrows, hmore, happend, hcompiled.reconstructs hcount hrows,
      hcompiled.reconstructs hcount hmore, hcompiled.reconstructs hcount happend⟩

/-- Two users, of whom the first one's last event and the second one's only event have the
same number. They stay two events, and the latest one of all comes first. -/
theorem process_reconstructs_events :
    ∃ (plan : Plan) (rows more : List Row),
      compile { identifierCase := .preserve } eventsBefore events [] = .ok plan ∧
      plan.rows [⟨[0x75], some eventCells⟩] = .ok rows ∧
      plan.rows [⟨[0x76], some (eventCells.drop 1)⟩] = .ok more ∧
      (rows ++ more).map Row.key = [[0x75], [0x75], [0x76]] ∧
      eventsBefore.Reconstructs { identifierCase := .preserve } events []
        ([⟨[0x75], some eventCells⟩] ++ [⟨[0x76], some (eventCells.drop 1)⟩]) (rows ++ more) ∧
      { eventsBefore with reversed := false }.Reconstructs { identifierCase := .preserve }
        events [] [⟨[0x75], some eventCells⟩] rows := by
  obtain ⟨hreversed, hpartitions⟩ :=
    @process_reconstructs _ { identifierCase := .preserve } eventsBefore events [] rfl rfl
  obtain ⟨rows, more, hrows, hmore, -, -, -, hboth⟩ := hpartitions
    [⟨[0x75], some eventCells⟩] [⟨[0x76], some (eventCells.drop 1)⟩] ⟨_, rfl⟩ ⟨_, rfl⟩
  obtain ⟨ascending, -, -, hstored⟩ := hreversed rfl
  rcases hstored [⟨[0x75], some eventCells⟩] with ⟨error, herror, -⟩ | ⟨same, hsame, -, -, hforward⟩
  · cases herror
  · obtain rfl := Except.ok.inj (hrows.symm.trans hsame)
    refine ⟨_, rows, more, rfl, hrows, hmore, ?_, hboth, hforward⟩
    cases hrows
    cases hmore
    rfl

end Plan

end WideColumn
