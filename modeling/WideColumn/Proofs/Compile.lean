import WideColumn.Plan.Keys
import WideColumn.Proofs.Binding

/-!
# `WideColumn.Proofs.Compile`: what an accepted query guarantees

The checks of `compile` are independent of each other, so a plan is described by
one equation for each of them. The theorems:

* `compile_eq_ok`: the checks a plan has passed, as a `Compiled` record, and
  `Compiled.compile_eq` back.
* `checkIndexed_eq_ok`: the three ways through the check of restricted metadata.
* `Compiled.restriction?_eq`: only the partition key's restriction is rewritten
  after the where clause has been bound.
* `Compiled.isKeyRange_eq`: partitions are read by their keys exactly where the partition
  key has an equality.
* `Compiled.field_mem`: only fields of the layout are selected.
* `Compiled.equalityRun`: the restricted clustering fields are an equality run.
* `Compiled.admit_iff`: the restriction a plan has for a field says what the where
  clause says of it.
-/

set_option autoImplicit false

namespace WideColumn.Plan

open Outcome (bind_eq_ok_iff)

variable {settings : Settings} {query : Query} {layout : Layout} {indexed : List String}
  {plan : Plan} {bound : Restrictions}

/-- Fields an equality run begins with: each has a single value, until one has a range
or nothing, after which none has anything. -/
inductive EqualityRun (restrictions : Restrictions) : List Field → Prop
  | nil : EqualityRun restrictions []
  | open (field : Field) (rest : List Field) (free : restrictions.get? field.name = none)
    (free_rest : ∀ other ∈ rest, restrictions.get? other.name = none) :
    EqualityRun restrictions (field :: rest)
  | range (field : Field) (rest : List Field) (lower upper : Option Bound)
    (ranged : restrictions.get? field.name = some (.range lower upper))
    (free_rest : ∀ other ∈ rest, restrictions.get? other.name = none) :
    EqualityRun restrictions (field :: rest)
  | equality (field : Field) (rest : List Field) (value : Term)
    (equal : restrictions.get? field.name = some (.equality [value]))
    (run : EqualityRun restrictions rest) : EqualityRun restrictions (field :: rest)

/-- Restrictions that agree on the fields have the same equality runs of them. -/
theorem EqualityRun.congr {restrictions others : Restrictions} {fields : List Field}
    (h : EqualityRun restrictions fields)
    (agree : ∀ field ∈ fields, others.get? field.name = restrictions.get? field.name) :
    EqualityRun others fields := by
  induction h with
  | nil => exact .nil
  | «open» field rest free free_rest =>
      have hfield := agree field List.mem_cons_self
      refine .open field rest (hfield.trans free) fun other hother => ?_
      exact (agree other (List.mem_cons_of_mem _ hother)).trans (free_rest other hother)
  | range field rest lower upper ranged free_rest =>
      have hfield := agree field List.mem_cons_self
      refine .range field rest lower upper (hfield.trans ranged) fun other hother => ?_
      exact (agree other (List.mem_cons_of_mem _ hother)).trans (free_rest other hother)
  | equality field rest value equal run ih =>
      have hfield := agree field List.mem_cons_self
      refine .equality field rest value (hfield.trans equal) (ih fun other hother => ?_)
      exact agree other (List.mem_cons_of_mem _ hother)

/-- Past a field that closes the run, nothing is restricted. -/
theorem checkClusteringFrom_closed {previous : String} {fields : List Field}
    (h : checkClusteringFrom bound (some previous) fields = .ok ()) :
    ∀ field ∈ fields, bound.get? field.name = none := by
  induction fields generalizing previous with
  | nil => simp
  | cons field rest ih =>
      cases hget : bound.get? field.name with
      | none =>
          simp only [checkClusteringFrom, hget] at h
          intro other hother
          rcases List.mem_cons.mp hother with rfl | hrest
          · exact hget
          · exact ih h other hrest
      | some restriction => simp [checkClusteringFrom, hget] at h

/-- The walk over fields without lists of values accepts equality runs only. -/
theorem equalityRun_of_check {fields : List Field}
    (single : ∀ field ∈ fields, ∀ values,
      bound.get? field.name = some (.equality values) → ∃ value, values = [value])
    (h : checkClusteringFrom bound none fields = .ok ()) : EqualityRun bound fields := by
  induction fields with
  | nil => exact .nil
  | cons field rest ih =>
      cases hget : bound.get? field.name with
      | none =>
          simp only [checkClusteringFrom, hget] at h
          exact .open field rest hget (checkClusteringFrom_closed h)
      | some restriction =>
          simp only [checkClusteringFrom, hget] at h
          -- An equality leaves the walk open, and a range closes it.
          cases restriction with
          | equality values =>
              obtain ⟨value, rfl⟩ := single field List.mem_cons_self values hget
              refine .equality field rest value hget (ih (fun other hother => ?_) h)
              exact single other (List.mem_cons_of_mem _ hother)
          | range lower upper =>
              exact .range field rest lower upper hget (checkClusteringFrom_closed h)

/-- The checks a compiled plan has passed. `bound` are the restrictions of the where
clause, before an equality on the partition key may be rewritten. -/
structure Compiled (settings : Settings) (query : Query) (layout : Layout)
    (indexed : List String) (plan : Plan) (bound : Restrictions) : Prop where
  limit : checkLimit query = .ok plan.limit
  table : checkTable settings query layout = .ok ()
  selection : bindSelection settings query layout = .ok plan.selection
  conditions : bindConditions settings query layout = .ok bound
  clustering : checkClustering bound layout = .ok ()
  index : checkIndexed bound layout indexed = .ok (plan.restrictions, plan.indexed)
  reversal : checkReversal query plan.restrictions layout = .ok ()
  layout_eq : plan.layout = layout
  reversed_eq : plan.reversed = query.reversed
  count_eq : plan.count = query.count
  consistency_eq : plan.consistency = query.consistency
  countColumn_eq : plan.countColumn = settings.countColumn

/-- An accepted query has passed all checks, and its plan keeps what they have found. -/
theorem compile_eq_ok (h : compile settings query layout indexed = .ok plan) :
    ∃ bound, Compiled settings query layout indexed plan bound := by
  unfold compile at h
  obtain ⟨limit, hlimit, h⟩ := bind_eq_ok_iff.mp h
  obtain ⟨⟨⟩, htable, h⟩ := bind_eq_ok_iff.mp h
  obtain ⟨selection, hselection, h⟩ := bind_eq_ok_iff.mp h
  obtain ⟨bound, hbound, h⟩ := bind_eq_ok_iff.mp h
  obtain ⟨⟨⟩, hclustering, h⟩ := bind_eq_ok_iff.mp h
  obtain ⟨⟨restrictions, isIndexed⟩, hindexed, h⟩ := bind_eq_ok_iff.mp h
  obtain ⟨⟨⟩, hreversal, h⟩ := bind_eq_ok_iff.mp h
  cases h
  exact ⟨bound, hlimit, htable, hselection, hbound, hclustering, hindexed, hreversal,
    rfl, rfl, rfl, rfl, rfl⟩

/-- The plan that has passed the checks is the one a query is compiled to. -/
theorem Compiled.compile_eq (h : Compiled settings query layout indexed plan bound) :
    compile settings query layout indexed = .ok plan := by
  unfold compile
  simp only [h.limit, h.table, h.selection, h.conditions, h.clustering, h.index, h.reversal,
    Outcome.ok_bind, Outcome.pure_eq_ok]
  rw [← h.layout_eq, ← h.consistency_eq, ← h.reversed_eq, ← h.count_eq, ← h.countColumn_eq]

/-- The restrictions an index is read with. Where metadata is restricted, the partition key
is left without an equality. -/
inductive IndexChecked (bound : Restrictions) (layout : Layout) (indexed : List String) :
    Restrictions → Bool → Prop
  | plain (free : restrictedMetadata bound layout = []) :
    IndexChecked bound layout indexed bound false
  | unequal (restricted : restrictedMetadata bound layout ≠ [])
    (equality : (restrictedMetadata bound layout).any (isIndexedEquality bound indexed) = true)
    (key : (bound.get? layout.keyField.name).any Restriction.isEquality = false) :
    IndexChecked bound layout indexed bound true
  | rewritten (restricted : restrictedMetadata bound layout ≠ [])
    (equality : (restrictedMetadata bound layout).any (isIndexedEquality bound indexed) = true)
    (value : Term) (key : bound.get? layout.keyField.name = some (.equality [value])) :
    IndexChecked bound layout indexed
      (bound.set layout.keyField.name (.range (some ⟨value, true⟩) (some ⟨value, true⟩))) true

/-- What the check lets through, where an equality on the partition key has a value. -/
theorem checkIndexed_eq_ok {restrictions : Restrictions} {isIndexed : Bool}
    (some_value : ∀ values,
      bound.get? layout.keyField.name = some (.equality values) → values ≠ [])
    (h : checkIndexed bound layout indexed = .ok (restrictions, isIndexed)) :
    IndexChecked bound layout indexed restrictions isIndexed := by
  unfold checkIndexed at h
  simp only at h
  split at h
  · next hfree =>
      cases h
      exact .plain hfree
  · next hrestricted =>
      split at h
      · cases h
      · next hequality =>
          have hequality : (restrictedMetadata bound layout).any
              (isIndexedEquality bound indexed) = true := by simpa using hequality
          split at h
          · next hnone =>
              cases h
              exact .unequal hrestricted hequality (by rw [hnone]; rfl)
          · next restriction hsome =>
              split at h
              · cases h
              · next hfew =>
                  cases h
                  -- A range is left as it is, and one value is left of an equality.
                  cases restriction with
                  | range lower upper =>
                      rw [Restrictions.equalityToRange?_eq, hsome]
                      exact .unequal hrestricted hequality (by rw [hsome]; rfl)
                  | equality values =>
                      match values, some_value values hsome, hfew with
                      | [value], _, _ =>
                          rw [Restrictions.equalityToRange?_eq, hsome]
                          exact .rewritten hrestricted hequality value hsome
                      | [], hne, _ => exact absurd rfl hne
                      | _ :: _ :: _, _, hfew => exact absurd (by simp [Restriction.values]) hfew

/-- The partition key keeps its equality where no metadata is restricted, and only there. -/
theorem IndexChecked.isEquality_key_iff {restrictions : Restrictions} {isIndexed : Bool}
    (h : IndexChecked bound layout indexed restrictions isIndexed) :
    (restrictions.get? layout.keyField.name).any Restriction.isEquality = true ↔
      (bound.get? layout.keyField.name).any Restriction.isEquality = true ∧
        restrictedMetadata bound layout = [] := by
  cases h with
  | plain free => simp [free]
  | unequal restricted _ key => simp [key]
  | rewritten restricted =>
      simp [Restrictions.get?_set, Restriction.isEquality, restricted]

namespace Compiled

/-- An equality on a field other than the partition key has one value. -/
theorem single (h : Compiled settings query layout indexed plan bound) {field : Field}
    (hmem : field ∈ layout.fields) (hrole : field.role ≠ .partitionKey) {values : List Term}
    (hvalues : bound.get? field.name = some (.equality values)) :
    ∃ value, values = [value] := by
  obtain ⟨before, relation, hextends⟩ := exists_extends h.conditions hmem hvalues
  exact (hextends.single_or_key rfl).resolve_right hrole

/-- The limit is the query's, which is positive. -/
theorem limit_eq (h : Compiled settings query layout indexed plan bound) :
    (plan.limit : Int) = query.limit.toInt ∧ 0 < plan.limit := by
  have hlimit := h.limit
  unfold checkLimit at hlimit
  split at hlimit
  · cases hlimit
  · next hpositive =>
      have heq := Except.ok.inj hlimit
      omega

/-- Only fields of the layout are selected. -/
theorem field_mem (h : Compiled settings query layout indexed plan bound) {selected : Selected}
    (hselected : selected ∈ plan.columns) : selected.field ∈ layout.fields := by
  unfold columns at hselected
  rw [h.layout_eq] at hselected
  split at hselected
  · obtain ⟨field, hfield, rfl⟩ := List.mem_map.mp hselected
    exact hfield
  · have hbind := h.selection
    unfold bindSelection at hbind
    split at hbind
    · -- A count selects nothing.
      split at hbind
      · rw [← Except.ok.inj hbind] at hselected
        cases hselected
      · cases hbind
    · obtain ⟨name, -, hname⟩ :=
        Outcome.exists_of_forall₂ (Outcome.mapM_eq_ok_iff.mp hbind).flip hselected
      obtain ⟨field, hfield, hname⟩ := Outcome.bind_eq_ok_iff.mp hname
      cases hname
      exact (Layout.lookup_eq_some_iff.mp (resolve_eq_ok hfield)).1

/-- The check of the index has gone one of its three ways. -/
theorem indexChecked (h : Compiled settings query layout indexed plan bound) :
    IndexChecked bound layout indexed plan.restrictions plan.indexed :=
  checkIndexed_eq_ok (fun _ => bindConditions_some_value h.conditions layout.keyField_mem) h.index

/-- What the where clause says of a field other than the partition key is what the
plan keeps. -/
theorem restriction?_eq (h : Compiled settings query layout indexed plan bound)
    {field : Field} (hmem : field ∈ layout.fields) (hrole : field.role ≠ .partitionKey) :
    plan.restriction? field = bound.get? field.name := by
  have hname := Layout.name_ne_keyField hmem hrole
  have hchecked := h.indexChecked
  unfold restriction?
  generalize plan.restrictions = restrictions, plan.indexed = isIndexed at hchecked ⊢
  cases hchecked with
  | plain | unequal => rfl
  | rewritten => rw [Restrictions.get?_set, if_neg hname]

/-- What the where clause says of metadata is what the plan keeps. -/
theorem restriction?_metadata (h : Compiled settings query layout indexed plan bound)
    {field : Field} (hfield : field ∈ layout.metadataFields) :
    plan.restriction? field = bound.get? field.name := by
  refine h.restriction?_eq (Layout.metadataFields_subset hfield) ?_
  rw [Layout.role_of_mem_metadataFields hfield]
  nofun

/-- Where metadata is restricted, the partition key has no equality. -/
theorem hasEquality_key (h : Compiled settings query layout indexed plan bound)
    (hindexed : plan.indexed = true) : plan.hasEquality layout.keyField = false := by
  have hchecked := h.indexChecked
  unfold hasEquality restriction?
  rw [hindexed] at hchecked
  generalize plan.restrictions = restrictions at hchecked ⊢
  cases hchecked with
  | unequal restricted equality key => exact key
  | rewritten => rw [Restrictions.get?_set, if_pos rfl]; rfl

/-- Partitions are read by their keys exactly where the partition key has an equality. -/
theorem isKeyRange_eq (h : Compiled settings query layout indexed plan bound) :
    plan.isKeyRange = !plan.hasEquality layout.keyField := by
  unfold isKeyRange
  rw [h.layout_eq]
  cases hindexed : plan.indexed with
  | false => rfl
  | true => rw [h.hasEquality_key hindexed]; rfl

/-- The restriction of a field other than the partition key says what all relations on
the field say together. -/
theorem admit_iff (h : Compiled settings query layout indexed plan bound) {field : Field}
    (hmem : field ∈ layout.fields) (hrole : field.role ≠ .partitionKey)
    (check : Operator → Term → Prop) :
    (∀ restriction, plan.restriction? field = some restriction → restriction.Admits check) ↔
      ∀ relation ∈ query.conditions, settings.normalize relation.field = field.name →
        relation.Admits check := by
  rw [h.restriction?_eq hmem hrole]
  exact bindConditions_gathers h.conditions check field.name

/-- The restrictions a plan has for the clustering fields are an equality run. -/
theorem equalityRun (h : Compiled settings query layout indexed plan bound) :
    EqualityRun plan.restrictions layout.clusteringFields := by
  have hother : ∀ field ∈ layout.clusteringFields,
      field ∈ layout.fields ∧ field.role ≠ .partitionKey := fun field hfield =>
    ⟨Layout.clusteringFields_subset hfield, Layout.role_ne_of_mem_clusteringFields hfield⟩
  have hrun : EqualityRun bound layout.clusteringFields := by
    refine equalityRun_of_check (fun field hfield values hvalues => ?_) h.clustering
    obtain ⟨hmem, hrole⟩ := hother field hfield
    exact h.single hmem hrole hvalues
  refine hrun.congr fun field hfield => ?_
  obtain ⟨hmem, hrole⟩ := hother field hfield
  exact h.restriction?_eq hmem hrole

end Compiled

end WideColumn.Plan
