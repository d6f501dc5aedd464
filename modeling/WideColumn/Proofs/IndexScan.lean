import WideColumn.Plan.Index
import WideColumn.Proofs.Access
import WideColumn.Proofs.Acceptance
import WideColumn.Proofs.Comparisons

/-!
# `WideColumn.Proofs.IndexScan`: the predicates an index is read with

The comparisons of metadata fields are written in any order, and pass through a
restriction for each field on their way to the index. The predicates are the same
comparisons again, sorted. The theorems:

* `Compiled.indexed_iff`: an index is read exactly where a metadata field is restricted.
* `Compiled.indexPredicates_eq`: so predicates are read off the comparisons a plan keeps,
  although a plan that reads no index does not look at them.
* `Compiled.metadataComparisons_perm`: these are the comparisons of the query.
* `pairwise_precedes`: they are in the order of the fields, lower bounds first.
* `Compiled.metadataComparisons_eq_nil_iff` and `Compiled.exists_indexed_comparison`: when
  there are none, and what is always among them.
-/

set_option autoImplicit false

namespace WideColumn

/-- A comparison of a field with a term. -/
structure Comparison where
  field : Field
  operator : Operator
  term : Term
  deriving DecidableEq

namespace Comparison

/-- A comparison of this field. -/
def on (field : Field) (comparison : Operator × Term) : Comparison :=
  ⟨field, comparison.1, comparison.2⟩

/-- The predicate says what the comparison says. -/
structure Reads (vars : List Bytes) (comparison : Comparison) (predicate : IndexPredicate) :
    Prop where
  column : predicate.column = comparison.field.key
  operator : predicate.operator = comparison.operator
  value : comparison.term.value comparison.field vars = .ok predicate.value

/-- The predicate of a comparison. -/
def predicate (vars : List Bytes) (comparison : Comparison) : Except Error IndexPredicate := do
  let value ← comparison.term.value comparison.field vars
  return ⟨comparison.field.key, comparison.operator, value⟩

/-- A comparison gives the predicate that reads it, with the bytes of its term. -/
theorem predicate_eq_ok_iff {vars : List Bytes} {comparison : Comparison}
    {predicate : IndexPredicate} :
    comparison.predicate vars = .ok predicate ↔ comparison.Reads vars predicate := by
  unfold Comparison.predicate
  rw [Outcome.bind_eq_ok_iff]
  constructor
  · intro h
    obtain ⟨value, hvalue, h⟩ := h
    cases h
    exact ⟨rfl, rfl, hvalue⟩
  · intro h
    obtain ⟨hcolumn, hoperator, hvalue⟩ := h
    exact ⟨predicate.value, hvalue, by rw [← hcolumn, ← hoperator]; rfl⟩

/-- The order of predicates: that of the fields in the schema, and on one field the
lower bound before the upper one. -/
def Precedes (layout : Layout) (one other : Comparison) : Prop :=
  layout.metadataFields.idxOf one.field < layout.metadataFields.idxOf other.field ∨
    one.field = other.field ∧ (∃ inclusive, one.operator = Side.operator .lower inclusive) ∧
      ∃ inclusive, other.operator = Side.operator .upper inclusive

end Comparison

namespace Relation

/-- The comparisons a relation makes of a field, none where it is on another one. -/
def comparisonsOn (settings : Settings) (field : Field) (relation : Relation) :
    List Comparison :=
  if settings.normalize relation.field = field.name then
    relation.comparisons.map (Comparison.on field)
  else []

end Relation

/-- The comparisons a query makes of metadata fields, in the order it is written in. -/
def Query.metadataComparisons (query : Query) (settings : Settings) (layout : Layout) :
    List Comparison :=
  query.conditions.flatMap fun relation =>
    layout.metadataFields.flatMap fun field => relation.comparisonsOn settings field

namespace Plan

open Restrictions (comparisonsOf)

variable {settings : Settings} {query : Query} {layout : Layout} {indexed : List String}
  {plan : Plan} {bound : Restrictions} {vars : List Bytes} {predicates : List IndexPredicate}

/-- The comparisons a plan keeps of metadata fields. -/
def metadataComparisons (plan : Plan) : List Comparison :=
  plan.layout.metadataFields.flatMap fun field =>
    (comparisonsOf (plan.restriction? field)).map (Comparison.on field)

/-- The predicates on a field are those of the comparisons its restriction makes. -/
theorem fieldPredicates_eq (field : Field) :
    plan.fieldPredicates vars field =
      ((comparisonsOf (plan.restriction? field)).map (Comparison.on field)).mapM
        (Comparison.predicate vars) := by
  unfold fieldPredicates
  rw [List.mapM_map]
  cases plan.restriction? field <;> rfl

/-- A plan that reads an index goes through the comparisons one by one. -/
theorem indexPredicates_of_indexed (hindexed : plan.indexed = true) :
    plan.indexPredicates vars = plan.metadataComparisons.mapM (Comparison.predicate vars) := by
  rw [indexPredicates, hindexed, metadataComparisons, ← Outcome.flatten_mapM]
  simp only [← fieldPredicates_eq]
  rfl

/-! ### The comparisons of a query -/

/-- Two nested loops give the same elements either way round. -/
theorem flatMap_flatMap_perm {α β γ : Type} (xs : List α) (ys : List β) (g : α → β → List γ) :
    (xs.flatMap fun x => ys.flatMap (g x)).Perm (ys.flatMap fun y => xs.flatMap (g · y)) := by
  induction xs with
  | nil => simp
  | cons x xs ih =>
      simp only [List.flatMap_cons]
      exact (ih.append_left _).trans (List.flatMap_append_perm ys (g x) _)

/-- The comparisons on a field are those of the relations on the field. -/
theorem flatMap_comparisonsOn (relations : List Relation) (field : Field) :
    (relations.flatMap fun relation => relation.comparisonsOn settings field) =
      ((relationsOn settings relations field.name).flatMap Relation.comparisons).map
        (Comparison.on field) := by
  induction relations with
  | nil => rfl
  | cons relation rest ih =>
      rw [List.flatMap_cons, ih]
      by_cases h : settings.normalize relation.field = field.name
      · simp [Relation.comparisonsOn, relationsOn, h]
      · simp [Relation.comparisonsOn, relationsOn, h]

namespace Compiled

/-- The restriction of a metadata field is gathered from the relations on it. -/
theorem gathers_metadata (h : Compiled settings query layout indexed plan bound) {field : Field}
    (hfield : field ∈ layout.metadataFields) :
    Restrictions.Gathers field.role (relationsOn settings query.conditions field.name)
      (plan.restriction? field) := by
  rw [h.restriction?_metadata hfield]
  exact bindConditions_gathered h.conditions (Layout.metadataFields_subset hfield)

/-- The comparisons a plan keeps are those of the query. -/
theorem metadataComparisons_perm (h : Compiled settings query layout indexed plan bound) :
    plan.metadataComparisons.Perm (query.metadataComparisons settings layout) := by
  -- The query goes through its relations, and the plan through the fields.
  refine .trans ?_ (flatMap_flatMap_perm _ _ _).symm
  unfold metadataComparisons
  rw [h.layout_eq]
  refine List.Perm.flatMap_left _ fun field hfield => ?_
  rw [flatMap_comparisonsOn]
  exact (h.gathers_metadata hfield).comparisons_perm.map _

/-- Without a restricted metadata field there are no comparisons. -/
theorem metadataComparisons_eq_nil_iff (h : Compiled settings query layout indexed plan bound) :
    plan.metadataComparisons = [] ↔ ¬ query.RestrictsMetadata settings layout := by
  unfold metadataComparisons Query.RestrictsMetadata Query.Restricts
  rw [h.layout_eq]
  simp only [List.flatMap_eq_nil_iff, List.map_eq_nil_iff, not_exists, not_and, not_not]
  exact forall₂_congr fun field hfield => (h.gathers_metadata hfield).comparisons_eq_nil_iff

/-- Some comparison is the equality that lets the index be read. -/
theorem exists_indexed_comparison (h : Compiled settings query layout indexed plan bound)
    (hmetadata : query.RestrictsMetadata settings layout) :
    ∃ comparison ∈ plan.metadataComparisons, comparison.operator = .eq ∧
      comparison.field ∈ layout.metadataFields ∧ comparison.field.name ∈ indexed := by
  have hindex := (exists_checkIndexed_iff h.conditions).mp ⟨_, _, h.index⟩ hmetadata
  obtain ⟨field, hfield, hindexed, name, value, hequates⟩ := hindex.1
  refine ⟨⟨field, .eq, value⟩, ?_, rfl, hfield, hindexed⟩
  rw [metadataComparisons, h.layout_eq, List.mem_flatMap]
  refine ⟨field, hfield, List.mem_map.mpr ⟨(.eq, value), ?_, rfl⟩⟩
  rw [(h.gathers_metadata hfield).comparisons_perm.mem_iff]
  exact List.mem_flatMap.mpr ⟨_, hequates, List.mem_singleton.mpr rfl⟩

/-- A plan reads an index exactly where a metadata field is restricted. -/
theorem indexed_iff (h : Compiled settings query layout indexed plan bound) :
    plan.indexed = true ↔ query.RestrictsMetadata settings layout := by
  rw [← not_iff_not, ← restrictedMetadata_eq_nil_iff h.conditions, Bool.not_eq_true]
  have hchecked := h.indexChecked
  generalize plan.restrictions = restrictions, plan.indexed = isIndexed at hchecked ⊢
  cases hchecked with
  | plain free => exact iff_of_true rfl free
  | unequal restricted | rewritten restricted => exact iff_of_false nofun restricted

/-- Predicates are read off the comparisons. A plan that reads no index does not look at them,
and there are none. -/
theorem indexPredicates_eq (h : Compiled settings query layout indexed plan bound)
    (vars : List Bytes) :
    plan.indexPredicates vars = plan.metadataComparisons.mapM (Comparison.predicate vars) := by
  cases hindexed : plan.indexed with
  | true => exact indexPredicates_of_indexed hindexed
  | false =>
      have hfree : ¬ query.RestrictsMetadata settings layout := by
        rw [← h.indexed_iff, hindexed]
        exact Bool.false_ne_true
      rw [indexPredicates, hindexed, h.metadataComparisons_eq_nil_iff.mpr hfree]
      rfl

end Compiled

/-! ### The order of the comparisons -/

/-- On one field an equality stands alone, and the lower bound before the upper one. -/
theorem pairwise_comparisons (h : Compiled settings query layout indexed plan bound)
    {field : Field} (hfield : field ∈ layout.metadataFields) :
    ((comparisonsOf (plan.restriction? field)).map (Comparison.on field)).Pairwise
      (Comparison.Precedes layout) := by
  have hmem := Layout.metadataFields_subset hfield
  have hrole : field.role ≠ .partitionKey := by
    rw [Layout.role_of_mem_metadataFields hfield]
    nofun
  rw [h.restriction?_metadata hfield]
  -- A single field has one equality or two bounds at most, the lower one first.
  cases hget : bound.get? field.name with
  | none => exact .nil
  | some restriction =>
      cases restriction with
      | equality values =>
          obtain ⟨value, rfl⟩ := h.single hmem hrole hget
          exact List.pairwise_singleton _ _
      | range lower upper =>
          cases lower with
          | none => cases upper <;> simp [comparisonsOf, Restriction.comparisons]
          | some lower =>
              cases upper with
              | none => exact List.pairwise_singleton _ _
              | some upper =>
                  refine List.pairwise_pair.mpr (.inr ⟨rfl, ?_⟩)
                  exact ⟨⟨lower.inclusive, rfl⟩, upper.inclusive, rfl⟩

/-- Elements of a list that has each once stand in the order of their places. -/
theorem pairwise_idxOf {α : Type} [DecidableEq α] {xs : List α} (h : xs.Nodup) :
    xs.Pairwise fun x y => xs.idxOf x < xs.idxOf y := by
  refine List.pairwise_iff_getElem.mpr fun i j hi hj hlt => ?_
  rw [h.idxOf_getElem, h.idxOf_getElem]
  exact hlt

/-- The comparisons a plan keeps are in order. -/
theorem pairwise_precedes (h : Compiled settings query layout indexed plan bound) :
    plan.metadataComparisons.Pairwise (Comparison.Precedes layout) := by
  unfold metadataComparisons
  rw [h.layout_eq, List.pairwise_flatMap]
  refine ⟨fun field hfield => pairwise_comparisons h hfield, ?_⟩
  -- Comparisons of different fields are ordered as the fields are.
  refine (pairwise_idxOf layout.nodup_metadataFields).imp fun {field other} hlt => ?_
  intro one hone next hnext
  obtain ⟨_, -, rfl⟩ := List.mem_map.mp hone
  obtain ⟨_, -, rfl⟩ := List.mem_map.mp hnext
  exact .inl hlt

/-! ### Accepted queries -/

/-- The predicates of an accepted query say what its relations on metadata fields say, each
relation once and with its own operator, in the order of the fields and with lower bounds
first. There are none exactly where no metadata field is restricted, and this is where the plan
reads no index. Otherwise one of them is an equality on an indexed field. -/
theorem indexPredicates_reads (h : compile settings query layout indexed = .ok plan)
    (hpredicates : plan.indexPredicates vars = .ok predicates) :
    (∃ comparisons, comparisons.Perm (query.metadataComparisons settings layout) ∧
      comparisons.Pairwise (Comparison.Precedes layout) ∧
      List.Forall₂ (Comparison.Reads vars) comparisons predicates) ∧
    (predicates = [] ↔ ¬ query.RestrictsMetadata settings layout) ∧
    (plan.indexed = false ↔ ¬ query.RestrictsMetadata settings layout) ∧
    (predicates ≠ [] → ∃ predicate ∈ predicates, predicate.operator = .eq ∧
      ∃ field ∈ layout.metadataFields, field.name ∈ indexed ∧ predicate.column = field.key) := by
  obtain ⟨bound, hcompiled⟩ := compile_eq_ok h
  have hreads : List.Forall₂ (Comparison.Reads vars) plan.metadataComparisons predicates := by
    rw [hcompiled.indexPredicates_eq, Outcome.mapM_eq_ok_iff] at hpredicates
    exact hpredicates.imp fun comparison predicate => Comparison.predicate_eq_ok_iff.mp
  have hnone : predicates = [] ↔ ¬ query.RestrictsMetadata settings layout := by
    rw [← hcompiled.metadataComparisons_eq_nil_iff, ← List.length_eq_zero_iff,
      ← hreads.length_eq, List.length_eq_zero_iff]
  have hindexed : plan.indexed = false ↔ ¬ query.RestrictsMetadata settings layout := by
    rw [← hcompiled.indexed_iff, Bool.not_eq_true]
  refine ⟨⟨_, hcompiled.metadataComparisons_perm, pairwise_precedes hcompiled, hreads⟩, hnone,
    hindexed, fun hsome => ?_⟩
  have hmetadata := not_not.mp (mt hnone.mpr hsome)
  obtain ⟨comparison, hmem, hoperator, hfield, hindexed⟩ :=
    hcompiled.exists_indexed_comparison hmetadata
  obtain ⟨predicate, hpredicate, hread⟩ := Outcome.exists_of_forall₂ hreads hmem
  exact ⟨predicate, hpredicate, hread.operator.trans hoperator, _, hfield, hindexed, hread.column⟩

/-- Tickets, which are indexed by their owner. -/
def tickets : Layout :=
  { name := "tickets", kind := .static, key := ⟨"id", .utf8⟩
    metadata := [⟨"owner", .utf8⟩, ⟨"priority", .int32⟩]
    fits_kind := by decide, names_nodup := by decide }

/-- The tickets of an owner with a priority above 1 and up to 4. -/
def urgentTickets : Query :=
  { table := "tickets"
    conditions := [.compare ⟨"priority", true⟩ .lte (.literal "4"),
      .compare ⟨"owner", true⟩ .eq (.bind 0),
      .compare ⟨"priority", true⟩ .gt (.literal "1")] }

/-- The relations are handed over in another order than they are written in. -/
theorem indexPredicates_reads_tickets :
    ∃ plan, compile { identifierCase := .preserve } urgentTickets tickets ["owner"] = .ok plan ∧
      ∃ predicates, plan.indexPredicates [[0x61]] = .ok predicates ∧
        predicates.map IndexPredicate.operator = [.eq, .gt, .lte] ∧
        (∃ comparisons,
          comparisons.Perm (urgentTickets.metadataComparisons { identifierCase := .preserve }
            tickets) ∧
          comparisons.Pairwise (Comparison.Precedes tickets) ∧
          List.Forall₂ (Comparison.Reads [[0x61]]) comparisons predicates) ∧
        urgentTickets.RestrictsMetadata { identifierCase := .preserve } tickets := by
  have hreads := @indexPredicates_reads { identifierCase := .preserve } urgentTickets tickets
    ["owner"] _ [[0x61]] _ rfl rfl
  refine ⟨_, rfl, _, rfl, rfl, hreads.1, ?_⟩
  exact not_not.mp (mt hreads.2.1.mpr (List.cons_ne_nil _ _))

end Plan

end WideColumn
