import WideColumn.Proofs.Compile
import WideColumn.Proofs.Grammar

/-!
# `WideColumn.Proofs.Acceptance`: exactly which queries are accepted

`compile` decides by folding the where clause into restrictions, by a walk over the
clustering fields and by a rewrite that a later check sees. `Query.Accepted` says the same
of the query as it is written, field by field. The theorems:

* `checkClustering_eq_ok_iff`: the walk accepts an initial run of restricted fields.
* `bindable_iff` and `wellFormed_iff`: the checks before the one of the clustering fields, and
  those before the one of restricted metadata.
* `exists_checkIndexed_iff`, `checkIndexed_of_no_equality` and `checkIndexed_of_several`: the
  check of restricted metadata, and its two errors.

The check of the direction comes last, and the accepted queries are those that pass all of
them.
-/

set_option autoImplicit false

namespace WideColumn

namespace Query

variable (query : Query) (settings : Settings) (layout : Layout)

/-- What is asked of a query apart from restricted metadata and its direction: a positive
limit, the name of the table, a select clause that counts or names fields, and relations
on fields of the table that go together, where the restricted clustering fields come first
and all of them but the last have an equality. -/
structure WellFormed : Prop where
  limit : 0 < query.limit.toInt
  table : query.table = layout.name ∨ settings.normalize ⟨query.table, false⟩ = layout.name
  counted : query.count = true → ∃ name, query.selection = [name] ∧
    name.quoted = false ∧ (name.text = "*" ∨ name.text = "1")
  selected : query.count = false → ∀ name ∈ query.selection,
    ∃ field ∈ layout.fields, field.name = settings.normalize name
  resolved : Plan.Resolved settings layout query.conditions
  compatible : ∀ field ∈ layout.fields,
    Compatible field.role (Plan.relationsOn settings query.conditions field.name)
  clustering : ∃ leading rest, layout.clusteringFields = leading ++ rest ∧
    (∀ field ∈ leading, query.Restricts settings field) ∧
    (∀ field ∈ rest, ¬ query.Restricts settings field) ∧
    ∀ field ∈ leading.dropLast, query.Equates settings field

/-- What is asked of a query before its clustering fields are gone through. -/
structure Bindable : Prop where
  limit : 0 < query.limit.toInt
  table : query.table = layout.name ∨ settings.normalize ⟨query.table, false⟩ = layout.name
  counted : query.count = true → ∃ name, query.selection = [name] ∧
    name.quoted = false ∧ (name.text = "*" ∨ name.text = "1")
  selected : query.count = false → ∀ name ∈ query.selection,
    ∃ field ∈ layout.fields, field.name = settings.normalize name
  resolved : Plan.Resolved settings layout query.conditions
  compatible : ∀ field ∈ layout.fields,
    Compatible field.role (Plan.relationsOn settings query.conditions field.name)

variable {query settings layout} in
/-- A well formed query can be bound, which is one part of being well formed. -/
theorem WellFormed.bindable (h : query.WellFormed settings layout) :
    query.Bindable settings layout :=
  { h with }

/-- Some metadata field is restricted. -/
def RestrictsMetadata : Prop :=
  ∃ field ∈ layout.metadataFields, query.Restricts settings field

/-- Some indexed metadata field has an equality. -/
def EquatesIndexed (indexed : List String) : Prop :=
  ∃ field ∈ layout.metadataFields, field.name ∈ indexed ∧ query.Equates settings field

/-- Several partition keys are listed. -/
def ListsSeveralKeys : Prop :=
  ∃ values, query.Lists settings layout.keyField values ∧ 1 < values.length

/-- What is asked of a query. Restricted metadata needs an indexed equality and no list of
several partition keys; descending order needs an equality on the partition key, be it
a list, and no restricted metadata. -/
structure Accepted (indexed : List String) : Prop extends
    WellFormed query settings layout where
  index : query.RestrictsMetadata settings layout →
    query.EquatesIndexed settings layout indexed ∧ ¬ query.ListsSeveralKeys settings layout
  reversal : query.reversed = true →
    (query.Equates settings layout.keyField ∨
      ∃ values, query.Lists settings layout.keyField values) ∧
    ¬ query.RestrictsMetadata settings layout

end Query

namespace Plan

open Outcome (ok_bind bind_eq_ok_iff)

variable {settings : Settings} {query : Query} {layout : Layout} {indexed : List String}
  {bound : Restrictions}

/-! ### The checks one by one -/

/-- Every positive limit is accepted, and no other. -/
theorem exists_checkLimit_iff :
    (∃ limit, checkLimit query = .ok limit) ↔ 0 < query.limit.toInt := by
  unfold checkLimit
  split
  · next hle => exact iff_of_false (by simp) (by omega)
  · next hlt => exact iff_of_true ⟨_, rfl⟩ (by omega)

/-- The table is called by its name, as it is spelled or when it has been normalized. -/
theorem checkTable_eq_ok_iff :
    checkTable settings query layout = .ok () ↔
      query.table = layout.name ∨ settings.normalize ⟨query.table, false⟩ = layout.name := by
  unfold checkTable
  split
  · next h => exact iff_of_true rfl h.symm
  · next h => exact iff_of_false (by simp) fun hname => h hname.symm

/-- A name is resolved where it is normalized to that of a field. -/
theorem exists_resolve_iff {name : Identifier} {clause : Clause} :
    (∃ field, resolve settings layout name clause = .ok field) ↔
      ∃ field ∈ layout.fields, field.name = settings.normalize name := by
  constructor
  · rintro ⟨field, h⟩
    exact ⟨field, Layout.lookup_eq_some_iff.mp (resolve_eq_ok h)⟩
  · rintro ⟨field, h⟩
    refine ⟨field, ?_⟩
    rw [resolve, Layout.lookup_eq_some_iff.mpr h]

/-- What is counted is a star or a one, neither of them quoted. -/
theorem countsRows_iff {selection : List Identifier} :
    countsRows selection = true ↔ ∃ name, selection = [name] ∧ name.quoted = false ∧
      (name.text = "*" ∨ name.text = "1") := by
  unfold countsRows
  split
  · next name => simp
  · next h =>
      refine iff_of_false (by simp) ?_
      rintro ⟨name, rfl, -⟩
      exact h name rfl

/-- A select clause is bound where it counts rows, or names fields only. -/
theorem exists_bindSelection_iff :
    (∃ selection, bindSelection settings query layout = .ok selection) ↔
      (query.count = true → ∃ name, query.selection = [name] ∧
        name.quoted = false ∧ (name.text = "*" ∨ name.text = "1")) ∧
      (query.count = false → ∀ name ∈ query.selection,
        ∃ field ∈ layout.fields, field.name = settings.normalize name) := by
  unfold bindSelection
  cases query.count with
  | true =>
      simp only [if_true, forall_const, Bool.true_eq_false, false_imp_iff, and_true,
        ← countsRows_iff]
      split
      · next h => exact iff_of_true ⟨[], rfl⟩ h
      · next h => exact iff_of_false (by simp) h
  | false =>
      simp only [Bool.false_eq_true, if_false, false_imp_iff, true_and, forall_const,
        Outcome.exists_mapM_eq_ok_iff]
      refine forall₂_congr fun name hname => ?_
      rw [← @exists_resolve_iff settings layout name .selection]
      cases resolve settings layout name .selection with
      | error error => simp
      | ok field => exact iff_of_true ⟨_, rfl⟩ ⟨_, rfl⟩

/-- A where clause is bound where all its names are those of fields, and the relations on every
field go together. -/
theorem exists_bindConditions_iff :
    (∃ bound, bindConditions settings query layout = .ok bound) ↔
      Resolved settings layout query.conditions ∧ ∀ field ∈ layout.fields,
        Compatible field.role (relationsOn settings query.conditions field.name) := by
  simp only [← Restrictions.exists_gathers_iff]
  constructor
  · rintro ⟨bound, h⟩
    exact ⟨bindConditions_resolved h, fun field hfield => ⟨_, bindConditions_gathered h hfield⟩⟩
  · rintro ⟨resolved, gathered⟩
    exact exists_bindConditions resolved gathered

/-! ### The walk over the clustering fields -/

/-- Fields without restrictions pass, whether the walk is still open or not. -/
theorem checkClusteringFrom_of_free {fields : List Field} (closed : Option String)
    (free : ∀ field ∈ fields, bound.get? field.name = none) :
    checkClusteringFrom bound closed fields = .ok () := by
  induction fields generalizing closed with
  | nil => rfl
  | cons field rest ih =>
      obtain ⟨hfield, hrest⟩ := List.forall_mem_cons.mp free
      simp only [checkClusteringFrom, hfield]
      exact ih _ hrest

/-- Fields of which the restricted ones come first, all but the last of them with an
equality. -/
def InitialRun (bound : Restrictions) (fields : List Field) : Prop :=
  ∃ leading rest, fields = leading ++ rest ∧
    (∀ field ∈ leading, bound.get? field.name ≠ none) ∧
    (∀ field ∈ rest, bound.get? field.name = none) ∧
    ∀ field ∈ leading.dropLast, (bound.get? field.name).any Restriction.isEquality = true

/-- Clustering fields that pass the check are restricted from the first one on without a gap. -/
theorem initialRun_of_check {fields : List Field}
    (h : checkClusteringFrom bound none fields = .ok ()) : InitialRun bound fields := by
  induction fields with
  | nil => exact ⟨[], [], rfl, by simp, by simp, by simp⟩
  | cons field rest ih =>
      cases hget : bound.get? field.name with
      | none =>
          simp only [checkClusteringFrom, hget] at h
          refine ⟨[], field :: rest, rfl, by simp, ?_, by simp⟩
          exact List.forall_mem_cons.mpr ⟨hget, checkClusteringFrom_closed h⟩
      | some restriction =>
          simp only [checkClusteringFrom, hget] at h
          cases hequality : restriction.isEquality with
          | true =>
              rw [hequality, if_pos rfl] at h
              obtain ⟨leading, others, rfl, hleading, hothers, hequal⟩ := ih h
              refine ⟨field :: leading, others, rfl, ?_, hothers, fun other hother => ?_⟩
              · exact List.forall_mem_cons.mpr ⟨by simp [hget], hleading⟩
              · cases leading with
                | nil => cases hother
                | cons next leading =>
                    rw [List.dropLast_cons_cons] at hother
                    rcases List.mem_cons.mp hother with rfl | hother
                    · simp [hget, hequality]
                    · exact hequal other hother
          | false =>
              -- The field closes the run, and is its last one.
              rw [hequality, if_neg Bool.false_ne_true] at h
              exact ⟨[field], rest, rfl, by simp [hget], checkClusteringFrom_closed h, by simp⟩

/-- And such fields pass the check. -/
theorem checkClusteringFrom_of_initialRun {fields : List Field}
    (h : InitialRun bound fields) : checkClusteringFrom bound none fields = .ok () := by
  obtain ⟨leading, rest, rfl, hleading, hrest, hequal⟩ := h
  induction leading with
  | nil => exact checkClusteringFrom_of_free none hrest
  | cons field leading ih =>
      obtain ⟨hfield, hleading⟩ := List.forall_mem_cons.mp hleading
      obtain ⟨restriction, hget⟩ := Option.ne_none_iff_exists'.mp hfield
      simp only [List.cons_append, checkClusteringFrom, hget]
      cases leading with
      | nil => exact checkClusteringFrom_of_free _ hrest
      | cons next leading =>
          rw [List.dropLast_cons_cons, List.forall_mem_cons, hget] at hequal
          have hequality : restriction.isEquality = true := by simpa using hequal.1
          rw [hequality, if_pos rfl]
          exact ih hleading hequal.2

/-- The walk accepts exactly initial runs. -/
theorem checkClustering_eq_ok_iff :
    checkClustering bound layout = .ok () ↔ InitialRun bound layout.clusteringFields :=
  ⟨initialRun_of_check, checkClusteringFrom_of_initialRun⟩

/-- What an initial run says of the query. -/
theorem initialRun_iff (h : bindConditions settings query layout = .ok bound) :
    InitialRun bound layout.clusteringFields ↔
      ∃ leading rest, layout.clusteringFields = leading ++ rest ∧
        (∀ field ∈ leading, query.Restricts settings field) ∧
        (∀ field ∈ rest, ¬ query.Restricts settings field) ∧
        ∀ field ∈ leading.dropLast, query.Equates settings field := by
  unfold InitialRun
  refine exists₂_congr fun leading rest => and_congr_right fun hfields => ?_
  have hmem : ∀ field ∈ leading ++ rest, field ∈ layout.fields ∧ field.role ≠ .partitionKey := by
    intro field hfield
    rw [← hfields] at hfield
    obtain ⟨position, hrole⟩ := Layout.role_of_mem_clusteringFields hfield
    exact ⟨Layout.clusteringFields_subset hfield, by rw [hrole]; nofun⟩
  refine and_congr (forall₂_congr fun field hfield => ?_)
    (and_congr (forall₂_congr fun field hfield => ?_) (forall₂_congr fun field hfield => ?_))
  · have hfield := (hmem field (List.mem_append_left _ hfield)).1
    rw [ne_eq, get?_eq_none_iff h hfield, not_not]
  · exact get?_eq_none_iff h (hmem field (List.mem_append_right _ hfield)).1
  · obtain ⟨hfield, hrole⟩ :=
      hmem field (List.mem_append_left _ (List.dropLast_subset _ hfield))
    exact isEquality_iff_of_role h hfield hrole

/-! ### All checks -/

/-- A query is bindable where the checks before that of the clustering fields are passed. -/
theorem bindable_iff : query.Bindable settings layout ↔ ∃ limit selection bound,
    checkLimit query = .ok limit ∧ checkTable settings query layout = .ok () ∧
      bindSelection settings query layout = .ok selection ∧
      bindConditions settings query layout = .ok bound := by
  constructor
  · intro h
    obtain ⟨limit, hlimit⟩ := exists_checkLimit_iff.mpr h.limit
    obtain ⟨selection, hselection⟩ := exists_bindSelection_iff.mpr ⟨h.counted, h.selected⟩
    obtain ⟨bound, hbound⟩ := exists_bindConditions_iff.mpr ⟨h.resolved, h.compatible⟩
    exact ⟨limit, selection, bound, hlimit, checkTable_eq_ok_iff.mpr h.table, hselection, hbound⟩
  · rintro ⟨limit, selection, bound, hlimit, htable, hselection, hbound⟩
    obtain ⟨hcounted, hselected⟩ := exists_bindSelection_iff.mp ⟨selection, hselection⟩
    obtain ⟨hresolved, hcompatible⟩ := exists_bindConditions_iff.mp ⟨bound, hbound⟩
    exact ⟨exists_checkLimit_iff.mp ⟨limit, hlimit⟩, checkTable_eq_ok_iff.mp htable, hcounted,
      hselected, hresolved, hcompatible⟩

/-- A query is well-formed where the checks up to the clustering fields are passed. -/
theorem wellFormed_iff :
    query.WellFormed settings layout ↔ ∃ limit selection bound,
      checkLimit query = .ok limit ∧ checkTable settings query layout = .ok () ∧
      bindSelection settings query layout = .ok selection ∧
      bindConditions settings query layout = .ok bound ∧
      checkClustering bound layout = .ok () := by
  constructor
  · intro h
    obtain ⟨limit, selection, bound, hlimit, htable, hselection, hbound⟩ :=
      bindable_iff.mp h.bindable
    exact ⟨limit, selection, bound, hlimit, htable, hselection, hbound,
      checkClustering_eq_ok_iff.mpr ((initialRun_iff hbound).mpr h.clustering)⟩
  · rintro ⟨limit, selection, bound, hlimit, htable, hselection, hbound, hclustering⟩
    have hbindable : query.Bindable settings layout :=
      bindable_iff.mpr ⟨limit, selection, bound, hlimit, htable, hselection, hbound⟩
    have hrun := (initialRun_iff hbound).mp (checkClustering_eq_ok_iff.mp hclustering)
    exact { hbindable with clustering := hrun }

/-- Restricted metadata fields are those the query restricts. -/
theorem restrictedMetadata_eq_nil_iff (h : bindConditions settings query layout = .ok bound) :
    restrictedMetadata bound layout = [] ↔ ¬ query.RestrictsMetadata settings layout := by
  unfold restrictedMetadata Query.RestrictsMetadata
  simp only [List.filter_eq_nil_iff, not_exists, not_and]
  refine forall₂_congr fun field hfield => ?_
  rw [Option.not_isSome_iff_eq_none]
  exact get?_eq_none_iff h (Layout.metadataFields_subset hfield)

/-- Indexed equalities are those of the query. -/
theorem any_isIndexedEquality_iff (h : bindConditions settings query layout = .ok bound) :
    (restrictedMetadata bound layout).any (isIndexedEquality bound indexed) = true ↔
      query.EquatesIndexed settings layout indexed := by
  unfold restrictedMetadata isIndexedEquality Query.EquatesIndexed
  rw [List.any_filter, List.any_eq_true]
  refine exists_congr fun field => and_congr_right fun hfield => ?_
  have hmem := Layout.metadataFields_subset hfield
  have hrole : field.role ≠ .partitionKey := by
    rw [Layout.role_of_mem_metadataFields hfield]
    nofun
  rw [← isEquality_iff_of_role h hmem hrole]
  cases bound.get? field.name with
  | none => simp
  | some restriction => simp [and_comm]

/-! ### The check of restricted metadata -/

/-- Without a restricted metadata field there is nothing to check. -/
theorem checkIndexed_of_free (free : restrictedMetadata bound layout = []) :
    checkIndexed bound layout indexed = .ok (bound, false) := by
  rw [checkIndexed, if_pos free]

/-- Restricted metadata needs an equality on an indexed field. -/
theorem checkIndexed_of_no_equality (restricted : restrictedMetadata bound layout ≠ [])
    (unequal : (restrictedMetadata bound layout).any (isIndexedEquality bound indexed) ≠ true) :
    checkIndexed bound layout indexed = .error .noIndexedEquality := by
  simp only [checkIndexed, if_neg restricted, unequal, Bool.not_false, if_true]

/-- Partitions that several keys name cannot be looked up in an index. -/
theorem checkIndexed_of_several (restricted : restrictedMetadata bound layout ≠ [])
    (equality : (restrictedMetadata bound layout).any (isIndexedEquality bound indexed) = true)
    {values : List Term} (several : 1 < values.length)
    (hvalues : bound.get? layout.keyField.name = some (.equality values)) :
    checkIndexed bound layout indexed = .error .indexedOneOf := by
  simp only [checkIndexed, if_neg restricted, equality, hvalues, Restriction.values, several,
    Bool.not_true, Bool.false_eq_true, if_false, if_true]

/-- Otherwise the query is accepted, and an index is read. -/
theorem exists_checkIndexed (restricted : restrictedMetadata bound layout ≠ [])
    (equality : (restrictedMetadata bound layout).any (isIndexedEquality bound indexed) = true)
    (few : ¬ ∃ values, bound.get? layout.keyField.name = some (.equality values) ∧
      1 < values.length) :
    ∃ restrictions, checkIndexed bound layout indexed = .ok (restrictions, true) := by
  simp only [checkIndexed, if_neg restricted, equality, Bool.not_true, Bool.false_eq_true,
    if_false]
  split
  · exact ⟨_, rfl⟩
  · next restriction hget =>
      split
      · next several =>
          cases restriction with
          | equality values => exact absurd ⟨values, hget, several⟩ few
          | range lower upper => cases several
      · exact ⟨_, rfl⟩

/-- The check of restricted metadata lets through what the query may ask. -/
theorem exists_checkIndexed_iff (h : bindConditions settings query layout = .ok bound) :
    (∃ restrictions isIndexed,
      checkIndexed bound layout indexed = .ok (restrictions, isIndexed)) ↔
      (query.RestrictsMetadata settings layout →
        query.EquatesIndexed settings layout indexed ∧
          ¬ query.ListsSeveralKeys settings layout) := by
  have hseveral := exists_values_iff h layout.keyField_mem
  -- The check has one way to pass without restricted metadata, and one with it.
  by_cases free : restrictedMetadata bound layout = []
  · have hfree := (restrictedMetadata_eq_nil_iff h).mp free
    exact iff_of_true ⟨_, _, checkIndexed_of_free free⟩ fun hrestricts => absurd hrestricts hfree
  · have hrestricts := not_not.mp (mt (restrictedMetadata_eq_nil_iff h).mpr free)
    rw [← any_isIndexedEquality_iff h, Query.ListsSeveralKeys, ← hseveral]
    constructor
    · rintro ⟨restrictions, isIndexed, hchecked⟩ -
      refine ⟨?_, ?_⟩
      · by_contra unequal
        rw [checkIndexed_of_no_equality free unequal] at hchecked
        cases hchecked
      · rintro ⟨values, hvalues, several⟩
        by_cases equality :
            (restrictedMetadata bound layout).any (isIndexedEquality bound indexed) = true
        · rw [checkIndexed_of_several free equality several hvalues] at hchecked
          cases hchecked
        · rw [checkIndexed_of_no_equality free equality] at hchecked
          cases hchecked
    · intro hallowed
      obtain ⟨equality, few⟩ := hallowed hrestricts
      obtain ⟨restrictions, hchecked⟩ := exists_checkIndexed free equality few
      exact ⟨restrictions, true, hchecked⟩

/-! ### Accepted queries -/

/-- Only the rows of partitions that keys name can be reversed. -/
theorem checkReversal_eq_ok_iff :
    checkReversal query bound layout = .ok () ↔ (query.reversed = true →
      (bound.get? layout.keyField.name).any Restriction.isEquality = true) := by
  unfold checkReversal
  split
  · next h => exact iff_of_false (by simp) fun hequality => h.2 (hequality h.1)
  · next h => exact iff_of_true rfl fun hreversed => not_not.mp fun hne => h ⟨hreversed, hne⟩

/-- The last two checks of a well-formed query. -/
theorem compile_of_wellFormed {limit : Nat} {selection : List Selected}
    (hlimit : checkLimit query = .ok limit) (htable : checkTable settings query layout = .ok ())
    (hselection : bindSelection settings query layout = .ok selection)
    (hbound : bindConditions settings query layout = .ok bound)
    (hclustering : checkClustering bound layout = .ok ()) :
    (∀ error, checkIndexed bound layout indexed = .error error →
      compile settings query layout indexed = .error error) ∧
    ∀ restrictions isIndexed, checkIndexed bound layout indexed = .ok (restrictions, isIndexed) →
      checkReversal query restrictions layout = .ok () →
      ∃ plan, compile settings query layout indexed = .ok plan := by
  unfold compile
  simp only [hlimit, htable, hselection, hbound, hclustering, ok_bind]
  refine ⟨fun error herror => ?_, fun restrictions isIndexed hchecked hreversal => ?_⟩
  · rw [herror]
    rfl
  · rw [hchecked, ok_bind]
    simp only [hreversal, ok_bind]
    exact ⟨_, rfl⟩

/-- The accepted queries are exactly those that may be asked. Of well-formed ones that
restrict metadata, those without an indexed equality are refused for it, and then those
that list several partition keys. -/
theorem compile_accepted_iff (settings : Settings) (query : Query) (layout : Layout)
    (indexed : List String) :
    ((∃ plan, compile settings query layout indexed = .ok plan) ↔
      query.Accepted settings layout indexed) ∧
    (query.WellFormed settings layout → query.RestrictsMetadata settings layout →
      ¬ query.EquatesIndexed settings layout indexed →
      compile settings query layout indexed = .error .noIndexedEquality) ∧
    (query.WellFormed settings layout → query.RestrictsMetadata settings layout →
      query.EquatesIndexed settings layout indexed → query.ListsSeveralKeys settings layout →
      compile settings query layout indexed = .error .indexedOneOf) := by
  refine ⟨⟨?_, fun h => ?_⟩, fun h hmetadata hequates => ?_, fun h hmetadata hequates hlists => ?_⟩
  · rintro ⟨plan, h⟩
    obtain ⟨bound, h⟩ := compile_eq_ok h
    refine ⟨wellFormed_iff.mpr ⟨_, _, bound, h.limit, h.table, h.selection, h.conditions,
      h.clustering⟩, (exists_checkIndexed_iff h.conditions).mp ⟨_, _, h.index⟩,
      fun hreversed => ?_⟩
    -- The order is checked last, when an equality on the key may have been rewritten.
    have hequality := checkReversal_eq_ok_iff.mp h.reversal hreversed
    rwa [h.indexChecked.isEquality_key_iff, isEquality_iff h.conditions layout.keyField_mem,
      restrictedMetadata_eq_nil_iff h.conditions] at hequality
  · obtain ⟨limit, selection, bound, hlimit, htable, hselection, hbound, hclustering⟩ :=
      wellFormed_iff.mp h.toWellFormed
    obtain ⟨restrictions, isIndexed, hchecked⟩ := (exists_checkIndexed_iff hbound).mpr h.index
    have hindex := checkIndexed_eq_ok
      (fun _ => bindConditions_some_value hbound layout.keyField_mem) hchecked
    refine (compile_of_wellFormed hlimit htable hselection hbound hclustering).2 _ _ hchecked
      (checkReversal_eq_ok_iff.mpr fun hreversed => ?_)
    rw [hindex.isEquality_key_iff, isEquality_iff hbound layout.keyField_mem,
      restrictedMetadata_eq_nil_iff hbound]
    exact h.reversal hreversed
  · obtain ⟨limit, selection, bound, hlimit, htable, hselection, hbound, hclustering⟩ :=
      wellFormed_iff.mp h
    refine (compile_of_wellFormed hlimit htable hselection hbound hclustering).1 _
      (checkIndexed_of_no_equality ?_ ?_)
    · exact fun free => (restrictedMetadata_eq_nil_iff hbound).mp free hmetadata
    · rwa [ne_eq, any_isIndexedEquality_iff hbound]
  · obtain ⟨limit, selection, bound, hlimit, htable, hselection, hbound, hclustering⟩ :=
      wellFormed_iff.mp h
    obtain ⟨values, hvalues, several⟩ := (exists_values_iff hbound layout.keyField_mem).mpr hlists
    refine (compile_of_wellFormed hlimit htable hselection hbound hclustering).1 _
      (checkIndexed_of_several ?_ ?_ several hvalues)
    · exact fun free => (restrictedMetadata_eq_nil_iff hbound).mp free hmetadata
    · rwa [any_isIndexedEquality_iff hbound]

/-- A table of visits by day and hour, with the room. -/
def visits : Layout :=
  { name := "visits", kind := .sparse, key := ⟨"guest", .utf8⟩
    clustering := [⟨"day", .utf8⟩, ⟨"hour", .int32⟩], metadata := [⟨"room", .utf8⟩]
    fits_kind := by decide, names_nodup := by decide }

/-- The visits of one guest to a room, from some hour of a day on. -/
def visitsToRoom : Query :=
  { table := "visits"
    conditions := [.compare ⟨"hour", true⟩ .gte (.bind 2), .oneOf ⟨"guest", true⟩ [.bind 0],
      .compare ⟨"day", true⟩ .eq (.bind 1), .compare ⟨"room", true⟩ .eq (.bind 3)] }

/-- A list of one guest goes with an index, but not in descending order; and without the
index the query is refused. -/
theorem compile_accepted_iff_visits :
    visitsToRoom.Accepted { identifierCase := .preserve } visits ["room"] ∧
      ¬ { visitsToRoom with reversed := true }.Accepted { identifierCase := .preserve } visits
        ["room"] ∧
      compile { identifierCase := .preserve } visitsToRoom visits [] =
        .error .noIndexedEquality := by
  have haccepted := (compile_accepted_iff { identifierCase := .preserve } visitsToRoom visits
    ["room"]).1.mp ⟨_, rfl⟩
  refine ⟨haccepted, fun hreversed => ?_, ?_⟩
  · obtain ⟨plan, hplan⟩ := (compile_accepted_iff _ _ _ _).1.mpr hreversed
    cases hplan
  · refine (compile_accepted_iff _ _ _ _).2.1 haccepted.toWellFormed ?_ ?_
    · exact ⟨⟨"room", .metadata, .utf8⟩, by decide, by unfold Query.Restricts; decide⟩
    · rintro ⟨field, -, hindexed, -⟩
      cases hindexed

end Plan

end WideColumn
