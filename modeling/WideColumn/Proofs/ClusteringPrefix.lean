import WideColumn.Proofs.Acceptance

/-!
# `WideColumn.Proofs.ClusteringPrefix`: which clustering field is out of turn

The walk over the clustering fields remembers one name at most: that of the field before the
next one, once no further field may be restricted. It does not remember which field has
closed the run, or how far back that was. So the report of a field out of turn names the
field before it, and that field need not be the one to blame; but it is always one after
which nothing may be restricted. The theorems:

* `checkClusteringFrom_append`: what the walk remembers of the fields it has passed depends
  on the last of them alone.
* `checkClusteringFrom_eq_ok_iff`: the walk passes exactly the equality prefixes.
* `checkClusteringFrom_eq_error_iff`: where the walk stops, and what it reports there.
* `compile_eq_nonPrefixRestriction`: no other check makes such a report.
* `checkClustering_eq_nonPrefixRestriction`: what the report says of the query as it is
  written, and so exactly which queries are refused with it.
-/

set_option autoImplicit false

namespace WideColumn

namespace Query

variable (query : Query) (settings : Settings) (layout : Layout)

/-- The field is restricted, and by bounds only. -/
def Ranges (field : Field) : Prop :=
  query.Restricts settings field ∧
    ∀ relation ∈ Plan.relationsOn settings query.conditions field.name,
      ∃ side, relation.side? = some side

/-- Fields of which the first ones have an equality. One that has bounds may come next, and no
other field is restricted. -/
def EqualityPrefix (fields : List Field) : Prop :=
  ∃ (equal : List Field) (closing : Option Field) (free : List Field),
    fields = equal ++ closing.toList ++ free ∧
    (∀ field ∈ equal, query.Equates settings field) ∧
    (∀ field ∈ closing, query.Ranges settings field) ∧
    ∀ field ∈ free, ¬ query.Restricts settings field

/-- The field of the first name is restricted, although the one of the second name, right
before it, is not, or by bounds only. Up to there nothing is wrong: the fields are an equality
prefix. -/
def OutOfTurn (name previous : String) : Prop :=
  ∃ before earlier later after,
    layout.clusteringFields = before ++ earlier :: later :: after ∧
    later.name = name ∧ earlier.name = previous ∧
    query.Restricts settings later ∧
    (¬ query.Restricts settings earlier ∨ query.Ranges settings earlier) ∧
    query.EqualityPrefix settings (before ++ [earlier])

variable {query settings}

/-- Nothing stands in front of the first field. -/
theorem equalityPrefix_nil : query.EqualityPrefix settings [] :=
  ⟨[], none, [], rfl, by simp, by simp, by simp⟩

/-- A field with an equality goes in front of an equality prefix, and any other one in front of
fields that are not restricted. -/
theorem equalityPrefix_cons_iff {field : Field} {rest : List Field} :
    query.EqualityPrefix settings (field :: rest) ↔
      query.Equates settings field ∧ query.EqualityPrefix settings rest ∨
      (¬ query.Restricts settings field ∨ query.Ranges settings field) ∧
        ∀ other ∈ rest, ¬ query.Restricts settings other := by
  constructor
  · rintro ⟨equal, closing, free, hfields, hequal, hclosing, hfree⟩
    -- The field is the first one with an equality, or else the one that has bounds, or else free.
    cases equal with
    | cons first equal =>
        obtain ⟨rfl, rfl⟩ := List.cons_eq_cons.mp hfields
        obtain ⟨hfirst, hequal⟩ := List.forall_mem_cons.mp hequal
        exact .inl ⟨hfirst, equal, closing, free, rfl, hequal, hclosing, hfree⟩
    | nil =>
        cases closing with
        | none =>
            obtain rfl : field :: rest = free := hfields
            obtain ⟨hfield, hrest⟩ := List.forall_mem_cons.mp hfree
            exact .inr ⟨.inl hfield, hrest⟩
        | some closing =>
            obtain ⟨rfl, rfl⟩ := List.cons_eq_cons.mp hfields
            exact .inr ⟨.inr (hclosing field rfl), hfree⟩
  · rintro (⟨hfield, equal, closing, free, rfl, hequal, hclosing, hfree⟩ | ⟨hfield, hrest⟩)
    · exact ⟨field :: equal, closing, free, rfl, List.forall_mem_cons.mpr ⟨hfield, hequal⟩,
        hclosing, hfree⟩
    · rcases hfield with hfree | hranges
      · exact ⟨[], none, field :: rest, rfl, by simp, by simp,
          List.forall_mem_cons.mpr ⟨hfree, hrest⟩⟩
      · exact ⟨[], some field, rest, rfl, by simp, by simpa using hranges, hrest⟩

end Query

/-- The error does not report a clustering field out of turn. -/
def Error.InTurn (error : Error) : Prop :=
  ∀ field previous, error ≠ .nonPrefixRestriction field previous

namespace Plan

open Outcome (FailsOnly failsOnly_ok failsOnly_error)

variable {settings : Settings} {query : Query} {layout : Layout} {indexed : List String}
  {bound : Restrictions} {closed : Option String} {field : Field} {fields : List Field}
  {error : Error}

/-! ### What a clustering field can be restricted to -/

/-- A field has a range where it has bounds only. -/
theorem exists_range_iff (h : bindConditions settings query layout = .ok bound)
    (hfield : field ∈ layout.fields) :
    (∃ lower upper, bound.get? field.name = some (.range lower upper)) ↔
      query.Ranges settings field := by
  have hadds := bindConditions_addsUp h hfield
  unfold Query.Ranges Query.Restricts
  generalize relationsOn settings query.conditions field.name = relations,
    bound.get? field.name = restriction at hadds ⊢
  cases hadds with
  | nothing => simp
  | equality name value => simp [Relation.side?]
  | oneOf name values => simp [Relation.side?]
  | range _ lower upper some_relation sided =>
      exact iff_of_true ⟨lower, upper, rfl⟩ ⟨some_relation, sided⟩

/-- A field has no equality where it has nothing, or bounds only. -/
theorem isEquality_eq_false_iff (h : bindConditions settings query layout = .ok bound)
    (hfield : field ∈ layout.fields) :
    (bound.get? field.name).any Restriction.isEquality = false ↔
      ¬ query.Restricts settings field ∨ query.Ranges settings field := by
  rw [← get?_eq_none_iff h hfield, ← exists_range_iff h hfield]
  cases bound.get? field.name with
  | none => simp
  | some restriction => cases restriction <;> simp [Restriction.isEquality]

/-! ### The walk -/

/-- What the walk remembers of a field it has passed: nothing where the field has an equality,
and otherwise its name. -/
def closedBy (bound : Restrictions) (field : Field) : Option String :=
  if (bound.get? field.name).any Restriction.isEquality then none else some field.name

/-- The walk goes on from what it remembers of the field it has passed. -/
theorem checkClusteringFrom_cons (bound : Restrictions) (closed : Option String)
    (field : Field) (rest : List Field) :
    checkClusteringFrom bound closed (field :: rest) =
      checkClusteringFrom bound closed [field] >>= fun _ =>
        checkClusteringFrom bound (closedBy bound field) rest := by
  cases hget : bound.get? field.name with
  | none =>
      simp only [checkClusteringFrom, closedBy, hget]
      rfl
  | some restriction =>
      cases closed with
      | some previous =>
          -- The walk stops at the field, and on neither side is the rest looked at.
          simp only [checkClusteringFrom, hget]
          rfl
      | none =>
          simp only [checkClusteringFrom, closedBy, hget]
          rfl

/-- However many fields the walk has passed, it goes on from what it remembers of the last. -/
theorem checkClusteringFrom_append (bound : Restrictions) (closed : Option String)
    (before : List Field) (last : Field) (rest : List Field) :
    checkClusteringFrom bound closed (before ++ last :: rest) =
      checkClusteringFrom bound closed (before ++ [last]) >>= fun _ =>
        checkClusteringFrom bound (closedBy bound last) rest := by
  induction before generalizing closed with
  | nil => exact checkClusteringFrom_cons bound closed last rest
  | cons field before ih =>
      rw [List.cons_append, List.cons_append, checkClusteringFrom_cons,
        checkClusteringFrom_cons bound closed field (before ++ [last]), ih, bind_assoc]

/-- A field stops the walk where it is restricted and no field may be any more. -/
theorem checkClusteringFrom_singleton_eq_error_iff :
    checkClusteringFrom bound closed [field] = .error error ↔
      bound.get? field.name ≠ none ∧
        ∃ previous, closed = some previous ∧ error = .nonPrefixRestriction field.name previous := by
  cases hget : bound.get? field.name with
  | none => simp [checkClusteringFrom, hget]
  | some restriction =>
      cases closed with
      | none => simp [checkClusteringFrom, hget]
      | some previous =>
          simp only [checkClusteringFrom, hget, Except.error.injEq, ne_eq, reduceCtorEq,
            not_false_eq_true, Option.some.injEq, exists_eq_left', true_and]
          exact eq_comm

/-- A walk that stops has passed all fields before the one it stops at. -/
theorem exists_stop_of_error (h : checkClusteringFrom bound closed fields = .error error) :
    ∃ passed later after, fields = passed ++ later :: after ∧
      checkClusteringFrom bound closed passed = .ok () ∧
      checkClusteringFrom bound closed (passed ++ [later]) = .error error := by
  induction fields generalizing closed with
  | nil => cases h
  | cons field rest ih =>
      rw [checkClusteringFrom_cons] at h
      cases hfield : checkClusteringFrom bound closed [field] with
      | error other =>
          rw [hfield, Outcome.error_bind] at h
          cases h
          exact ⟨[], field, rest, rfl, rfl, hfield⟩
      | ok _ =>
          -- The field is passed, so it goes in front of those that the rest of the walk passes.
          rw [hfield, Outcome.ok_bind] at h
          obtain ⟨passed, later, after, rfl, hpassed, hstop⟩ := ih h
          refine ⟨field :: passed, later, after, rfl, ?_, ?_⟩
          · rw [checkClusteringFrom_cons, hfield, Outcome.ok_bind]
            exact hpassed
          · rw [List.cons_append, checkClusteringFrom_cons, hfield, Outcome.ok_bind]
            exact hstop

/-- The walk stops at a restricted field that comes right after one without an equality, and
reports the two of them. All fields before have been passed. -/
theorem checkClusteringFrom_eq_error_iff :
    checkClusteringFrom bound none fields = .error error ↔
      ∃ before earlier later after, fields = before ++ earlier :: later :: after ∧
        checkClusteringFrom bound none (before ++ [earlier]) = .ok () ∧
        (bound.get? earlier.name).any Restriction.isEquality = false ∧
        bound.get? later.name ≠ none ∧
        error = .nonPrefixRestriction later.name earlier.name := by
  constructor
  · intro h
    obtain ⟨passed, later, after, rfl, hpassed, hstop⟩ := exists_stop_of_error h
    -- The first field is always passed, so there is one before the field the walk stops at.
    cases passed using List.reverseRecOn with
    | nil =>
        obtain ⟨-, previous, hnone, -⟩ := checkClusteringFrom_singleton_eq_error_iff.mp hstop
        cases hnone
    | append_singleton before earlier =>
        rw [List.append_assoc, List.singleton_append, checkClusteringFrom_append, hpassed,
          Outcome.ok_bind] at hstop
        obtain ⟨hlater, previous, hclosed, rfl⟩ :=
          checkClusteringFrom_singleton_eq_error_iff.mp hstop
        unfold closedBy at hclosed
        split at hclosed
        · cases hclosed
        · next hequality =>
            -- What the walk remembers is the name of the field before, whatever has closed the run.
            cases hclosed
            refine ⟨before, earlier, later, after, by simp, hpassed, ?_, hlater, rfl⟩
            exact Bool.eq_false_iff.mpr hequality
  · rintro ⟨before, earlier, later, after, rfl, hpassed, hequality, hlater, rfl⟩
    have hclosed : closedBy bound earlier = some earlier.name := by
      rw [closedBy, hequality, if_neg Bool.false_ne_true]
    have hstop : checkClusteringFrom bound (some earlier.name) [later] =
        .error (.nonPrefixRestriction later.name earlier.name) :=
      checkClusteringFrom_singleton_eq_error_iff.mpr ⟨hlater, _, rfl, rfl⟩
    rw [checkClusteringFrom_append, hpassed, Outcome.ok_bind, hclosed,
      checkClusteringFrom_cons, hstop, Outcome.error_bind]

/-- Past a field that closes the run, the walk passes fields that are not restricted. -/
theorem checkClusteringFrom_closed_eq_ok_iff {previous : String} :
    checkClusteringFrom bound (some previous) fields = .ok () ↔
      ∀ field ∈ fields, bound.get? field.name = none :=
  ⟨checkClusteringFrom_closed, checkClusteringFrom_of_free (some previous)⟩

/-- The walk passes the first field whatever it is restricted to. -/
theorem checkClusteringFrom_cons_eq_ok_iff {rest : List Field} :
    checkClusteringFrom bound none (field :: rest) = .ok () ↔
      (bound.get? field.name).any Restriction.isEquality = true ∧
        checkClusteringFrom bound none rest = .ok () ∨
      (bound.get? field.name).any Restriction.isEquality = false ∧
        ∀ other ∈ rest, bound.get? other.name = none := by
  have hpassed : checkClusteringFrom bound none [field] = .ok () := by
    cases hget : bound.get? field.name <;> simp [checkClusteringFrom, hget]
  rw [checkClusteringFrom_cons, hpassed, Outcome.ok_bind, closedBy]
  cases (bound.get? field.name).any Restriction.isEquality with
  | true => simp
  | false => simp [checkClusteringFrom_closed_eq_ok_iff]

/-- The walk passes clustering fields exactly where they are an equality prefix. -/
theorem checkClusteringFrom_eq_ok_iff (h : bindConditions settings query layout = .ok bound)
    (hfields : ∀ field ∈ fields, field ∈ layout.clusteringFields) :
    checkClusteringFrom bound none fields = .ok () ↔ query.EqualityPrefix settings fields := by
  induction fields with
  | nil => exact iff_of_true rfl Query.equalityPrefix_nil
  | cons field rest ih =>
      obtain ⟨hfield, hrest⟩ := List.forall_mem_cons.mp hfields
      have hmem := Layout.clusteringFields_subset hfield
      have hrole := Layout.role_ne_of_mem_clusteringFields hfield
      have hfree : (∀ other ∈ rest, bound.get? other.name = none) ↔
          ∀ other ∈ rest, ¬ query.Restricts settings other :=
        forall₂_congr fun other hother =>
          get?_eq_none_iff h (Layout.clusteringFields_subset (hrest other hother))
      rw [checkClusteringFrom_cons_eq_ok_iff, Query.equalityPrefix_cons_iff, ih hrest, hfree,
        isEquality_iff_of_role h hmem hrole, isEquality_eq_false_iff h hmem]

/-! ### The other checks -/

/-- A bad limit is found before the where clause is looked at. -/
theorem checkLimit_inTurn : FailsOnly Error.InTurn (checkLimit query) := by
  unfold checkLimit
  split
  · exact failsOnly_error fun _ _ => nofun
  · exact failsOnly_ok _

/-- And so is another table. -/
theorem checkTable_inTurn : FailsOnly Error.InTurn (checkTable settings query layout) := by
  unfold checkTable
  split
  · exact failsOnly_ok _
  · exact failsOnly_error fun _ _ => nofun

/-- A name that no field has is not a field out of turn. -/
theorem resolve_inTurn (name : Identifier) (clause : Clause) :
    FailsOnly Error.InTurn (resolve settings layout name clause) := by
  unfold resolve
  split
  · exact failsOnly_ok _
  · exact failsOnly_error fun _ _ => nofun

/-- Nothing that is wrong with a select clause is a field out of turn. -/
theorem bindSelection_inTurn : FailsOnly Error.InTurn (bindSelection settings query layout) := by
  unfold bindSelection
  split
  · split
    · exact failsOnly_ok _
    · exact failsOnly_error fun _ _ => nofun
  · refine .mapM fun name _ => ?_
    exact (resolve_inTurn name .selection).bind fun field => failsOnly_ok _

/-- A relation that does not go with the ones before is not out of turn either. -/
theorem bindRelation_inTurn (restrictions : Restrictions) (field : Field) (relation : Relation) :
    FailsOnly Error.InTurn (bindRelation restrictions field relation) := by
  -- A field is in conflict with what has been said of it, never with its place.
  have hequality : ∀ value, FailsOnly Error.InTurn (restrictions.addEquality field.name value) := by
    intro value
    rw [Restrictions.addEquality_eq]
    split
    · exact failsOnly_error fun _ _ => nofun
    · exact failsOnly_ok _
  have hbound : ∀ side bound,
      FailsOnly Error.InTurn (restrictions.addBound field.name side bound) := by
    intro side bound
    rw [Restrictions.addBound_eq]
    split
    · exact failsOnly_ok _
    · exact failsOnly_error fun _ _ => nofun
    · exact failsOnly_ok _
    · exact failsOnly_ok _
    · exact failsOnly_error fun _ _ => nofun
  have honeOf : ∀ values, FailsOnly Error.InTurn (restrictions.addOneOf field.name values) := by
    intro values
    rw [Restrictions.addOneOf_eq]
    split
    · exact failsOnly_error fun _ _ => nofun
    · split
      · exact failsOnly_error fun _ _ => nofun
      · exact failsOnly_ok _
  unfold bindRelation
  split
  · exact failsOnly_error fun _ _ => nofun
  · cases relation with
    | compare name operator value =>
        cases operator with
        | eq => exact hequality value
        | lt | lte | gt | gte => exact hbound _ _
    | oneOf name values =>
        show FailsOnly Error.InTurn (if _ then _ else _)
        split
        · exact failsOnly_error fun _ _ => nofun
        · exact honeOf values

/-- So binding a where clause never tells of a field out of turn. -/
theorem bindConditions_inTurn :
    FailsOnly Error.InTurn (bindConditions settings query layout) := by
  refine .foldlM fun restrictions relation _ => ?_
  exact (resolve_inTurn relation.field .condition).bind fun field =>
    bindRelation_inTurn restrictions field relation

/-- Nor does the check of restricted metadata. -/
theorem checkIndexed_inTurn : FailsOnly Error.InTurn (checkIndexed bound layout indexed) := by
  unfold checkIndexed
  simp only
  split
  · exact failsOnly_ok _
  · split
    · exact failsOnly_error fun _ _ => nofun
    · split
      · exact failsOnly_ok _
      · split
        · exact failsOnly_error fun _ _ => nofun
        · exact failsOnly_ok _

/-- Nor does that of the order of the rows. -/
theorem checkReversal_inTurn : FailsOnly Error.InTurn (checkReversal query bound layout) := by
  unfold checkReversal
  split
  · exact failsOnly_error fun _ _ => nofun
  · exact failsOnly_ok _

/-- A field out of turn is reported by the walk over the clustering fields, once all checks
before it are passed. -/
theorem compile_eq_nonPrefixRestriction {name previous : String} :
    compile settings query layout indexed = .error (.nonPrefixRestriction name previous) ↔
      ∃ limit selection bound, checkLimit query = .ok limit ∧
        checkTable settings query layout = .ok () ∧
        bindSelection settings query layout = .ok selection ∧
        bindConditions settings query layout = .ok bound ∧
        checkClustering bound layout = .error (.nonPrefixRestriction name previous) := by
  have houtOfTurn : ¬ Error.InTurn (.nonPrefixRestriction name previous) :=
    fun hinTurn => hinTurn name previous rfl
  unfold compile
  constructor
  · intro h
    -- A check that never makes this report has been passed, or is not come to.
    obtain ⟨limit, hlimit, h⟩ := (checkLimit_inTurn.bind_eq_error_iff houtOfTurn).mp h
    obtain ⟨⟨⟩, htable, h⟩ := (checkTable_inTurn.bind_eq_error_iff houtOfTurn).mp h
    obtain ⟨selection, hselection, h⟩ := (bindSelection_inTurn.bind_eq_error_iff houtOfTurn).mp h
    obtain ⟨bound, hbound, h⟩ := (bindConditions_inTurn.bind_eq_error_iff houtOfTurn).mp h
    refine ⟨limit, selection, bound, hlimit, htable, hselection, hbound, ?_⟩
    refine Outcome.FailsOnly.eq_error_of_bind (fun _ => ?_) houtOfTurn h
    exact checkIndexed_inTurn.bind fun _ => checkReversal_inTurn.bind fun _ => failsOnly_ok _
  · rintro ⟨limit, selection, bound, hlimit, htable, hselection, hbound, hclustering⟩
    simp only [hlimit, htable, hselection, hbound, hclustering, Outcome.ok_bind,
      Outcome.error_bind]

/-! ### The query as it is written -/

/-- The walk over the clustering fields stops where the query has one out of turn. -/
theorem checkClustering_eq_nonPrefixRestriction {name previous : String}
    (h : bindConditions settings query layout = .ok bound) :
    checkClustering bound layout = .error (.nonPrefixRestriction name previous) ↔
      query.OutOfTurn settings layout name previous := by
  unfold checkClustering
  rw [checkClusteringFrom_eq_error_iff]
  refine exists₄_congr fun before earlier later after => and_congr_right fun hfields => ?_
  have hpassed : ∀ field ∈ before ++ [earlier], field ∈ layout.clusteringFields := by
    intro field hfield
    rw [hfields, List.append_cons]
    exact List.mem_append_left _ hfield
  have hearlier : earlier ∈ layout.fields := Layout.clusteringFields_subset (by simp [hfields])
  have hlater : later ∈ layout.fields := Layout.clusteringFields_subset (by simp [hfields])
  rw [checkClusteringFrom_eq_ok_iff h hpassed, isEquality_eq_false_iff h hearlier, ne_eq,
    get?_eq_none_iff h hlater, not_not, Error.nonPrefixRestriction.injEq]
  tauto

/-- The report of a clustering field out of turn tells the truth. A query is refused with it
exactly where nothing is wrong before its clustering fields are gone through and there, of two
fields that follow one another, the second is restricted although the first is not, or by bounds
only, and up to the first the fields are an equality prefix. -/
theorem compile_nonPrefixRestriction_iff (settings : Settings) (query : Query)
    (layout : Layout) (indexed : List String) (name previous : String) :
    compile settings query layout indexed = .error (.nonPrefixRestriction name previous) ↔
      query.Bindable settings layout ∧ query.OutOfTurn settings layout name previous := by
  rw [compile_eq_nonPrefixRestriction, bindable_iff]
  constructor
  · rintro ⟨limit, selection, bound, hlimit, htable, hselection, hbound, hclustering⟩
    exact ⟨⟨limit, selection, bound, hlimit, htable, hselection, hbound⟩,
      (checkClustering_eq_nonPrefixRestriction hbound).mp hclustering⟩
  · rintro ⟨⟨limit, selection, bound, hlimit, htable, hselection, hbound⟩, houtOfTurn⟩
    exact ⟨limit, selection, bound, hlimit, htable, hselection, hbound,
      (checkClustering_eq_nonPrefixRestriction hbound).mpr houtOfTurn⟩

/-- The hours of workers by year, month and day. -/
def shifts : Layout :=
  { name := "shifts", kind := .dense, key := ⟨"worker", .utf8⟩
    clustering := [⟨"year", .int32⟩, ⟨"month", .int32⟩, ⟨"day", .int32⟩]
    value := some ⟨"hours", .int32⟩, fits_kind := by decide, names_nodup := by decide }

-- The range of years closes the run, and the month is what stands before the day.
example : compile { identifierCase := .preserve }
    { table := "shifts"
      conditions := [.compare ⟨"day", true⟩ .eq (.bind 1),
        .compare ⟨"year", true⟩ .gt (.bind 0)] } shifts [] =
      .error (.nonPrefixRestriction "day" "month") := rfl

end Plan

end WideColumn
