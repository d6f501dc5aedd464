import Mathlib.Data.List.Perm.Basic
import WideColumn.Proofs.Binding

/-!
# `WideColumn.Proofs.Comparisons`: the comparisons a restriction keeps

A relation compares its field with one term, or with each of a list of them. A range
keeps no operators, only bounds that are inclusive or not. Nothing is lost by that: the
comparisons of a restriction are those of the relations it has been gathered from, each
of them once. The theorems:

* `Restriction.mem_comparisons_range_iff`: the bounds of a range are its comparisons.
* `Relation.admits_congr`: what a relation says is said of its comparisons.
* `Extends.comparisons_perm` and `Gathers.comparisons_perm`: one relation, and all
  relations on a field.
* `Gathers.comparisons_eq_nil_iff`: only a field without relations has no comparisons.
* `Plan.compares_iff`: the comparisons of a field that a where clause is bound to.
-/

set_option autoImplicit false

namespace WideColumn

/-- The comparisons a relation makes of its field, one per value of a list. -/
def Relation.comparisons : Relation → List (Operator × Term)
  | .compare _ operator value => [(operator, value)]
  | .oneOf _ values => values.map fun value => (.eq, value)

/-- An operator tells its side and whether the bound is included. -/
theorem Side.operator_inj {side other : Side} {inclusive inclusive' : Bool} :
    side.operator inclusive = other.operator inclusive' ↔
      side = other ∧ inclusive = inclusive' := by
  cases side <;> cases other <;> cases inclusive <;> cases inclusive' <;> decide

/-- No bound is an equality. -/
theorem Side.operator_ne_eq (side : Side) (inclusive : Bool) :
    side.operator inclusive ≠ .eq := by
  cases side <;> cases inclusive <;> decide

/-- A bound is its term and whether it is included. -/
theorem Bound.eq_iff {bound other : Bound} :
    bound = other ↔ bound.inclusive = other.inclusive ∧ bound.term = other.term := by
  cases bound
  cases other
  simp [and_comm]

/-- An operator tells its side and whether it is strict, so the comparisons of a range
tell its bounds. -/
theorem Restriction.mem_comparisons_range_iff {lower upper : Option Bound} {side : Side}
    {bound : Bound} :
    (side.operator bound.inclusive, bound.term) ∈ (range lower upper).comparisons ↔
      (range lower upper).bound? side = some bound := by
  have hmem : ∀ (other : Side) (bounds : Option Bound),
      (side.operator bound.inclusive, bound.term) ∈
        bounds.toList.map (fun b => (other.operator b.inclusive, b.term)) ↔
      other = side ∧ bounds = some bound := by
    intro other bounds
    cases bounds with
    | none => simp
    | some b =>
        simp only [Option.toList_some, List.map_cons, List.map_nil, List.mem_singleton,
          Prod.mk.injEq, Side.operator_inj, Option.some.injEq, @Bound.eq_iff b bound]
        grind
  rw [comparisons, List.mem_append, hmem, hmem]
  cases side <;> simp [bound?]

/-- A range says all its comparisons. -/
theorem Restriction.Admits.of_mem_comparisons {check : Operator → Term → Prop}
    {lower upper : Option Bound} {comparison : Operator × Term}
    (h : (range lower upper).Admits check)
    (hmem : comparison ∈ (range lower upper).comparisons) :
    check comparison.1 comparison.2 := by
  rw [comparisons, List.mem_append] at hmem
  rcases hmem with hmem | hmem
  · obtain ⟨bound, hbound, rfl⟩ := List.mem_map.mp hmem
    exact h.1 bound (Option.mem_toList.mp hbound)
  · obtain ⟨bound, hbound, rfl⟩ := List.mem_map.mp hmem
    exact h.2 bound (Option.mem_toList.mp hbound)

/-- What passes a check passes every weaker one. -/
theorem Relation.Admits.imp {relation : Relation} {check other : Operator → Term → Prop}
    (h : relation.Admits check) (himp : ∀ operator term, check operator term →
      other operator term) : relation.Admits other := by
  cases relation with
  | compare name operator value => exact himp operator value h
  | oneOf name values => exact Exists.imp (fun value => And.imp_right (himp .eq value)) h

/-- A relation says the same through checks that agree on its comparisons. -/
theorem Relation.admits_congr {relation : Relation} {check other : Operator → Term → Prop}
    (h : ∀ comparison ∈ relation.comparisons,
      check comparison.1 comparison.2 ↔ other comparison.1 comparison.2) :
    relation.Admits check ↔ relation.Admits other := by
  cases relation with
  | compare name operator value => exact h (operator, value) List.mem_cons_self
  | oneOf name values =>
      refine exists_congr fun value => and_congr_right fun hvalue => ?_
      exact h (.eq, value) (List.mem_map.mpr ⟨value, hvalue, rfl⟩)

namespace Restrictions

variable {role : Role}

/-- The comparisons of the restriction a field has, none without one. -/
def comparisonsOf (restriction : Option Restriction) : List (Operator × Term) :=
  (restriction.map Restriction.comparisons).getD []

/-- One relation adds its own comparisons to those there were. -/
theorem Extends.comparisons_perm {before : Option Restriction} {relation : Relation}
    {after : Restriction} (h : Extends role before relation after) :
    after.comparisons.Perm (comparisonsOf before ++ relation.comparisons) := by
  cases h with
  | equality name value => exact .refl _
  | oneOf name values key some_value => exact .refl _
  | bound name side bound => cases side <;> exact .refl _
  | lower name bound upper =>
      -- The lower bound is told first, wherever its relation stands.
      show ([(Side.operator .lower bound.inclusive, bound.term)] ++ _).Perm _
      exact List.perm_append_comm
  | upper name bound lower =>
      simp [comparisonsOf, Restriction.comparisons, Relation.comparisons]

/-- A restriction has comparisons. -/
theorem Extends.comparisons_ne_nil {before : Option Restriction} {relation : Relation}
    {after : Restriction} (h : Extends role before relation after) :
    after.comparisons ≠ [] := by
  cases h with
  | equality name value => exact List.cons_ne_nil _ _
  | oneOf name values key some_value => simpa [Restriction.comparisons] using some_value
  | bound name side bound => cases side <;> exact List.cons_ne_nil _ _
  | lower name bound upper => exact List.cons_ne_nil _ _
  | upper name bound lower => simp [Restriction.comparisons]

variable {relations : List Relation} {restriction : Option Restriction}

/-- The comparisons of a restriction are those of the relations on the field. -/
theorem Gathers.comparisons_perm (h : Gathers role relations restriction) :
    (comparisonsOf restriction).Perm (relations.flatMap Relation.comparisons) := by
  induction h with
  | nil => exact .refl _
  | snoc gathered extended ih =>
      rw [List.flatMap_append, List.flatMap_singleton]
      exact extended.comparisons_perm.trans (ih.append_right _)

/-- Only a field without relations has no comparisons. -/
theorem Gathers.comparisons_eq_nil_iff (h : Gathers role relations restriction) :
    comparisonsOf restriction = [] ↔ relations = [] := by
  cases h with
  | nil => exact iff_of_true rfl rfl
  | snoc gathered extended => exact iff_of_false extended.comparisons_ne_nil (by simp)

end Restrictions

/-- Some relation compares the field with the term. -/
def Query.Compares (query : Query) (settings : Settings) (field : Field) (operator : Operator)
    (term : Term) : Prop :=
  ∃ relation ∈ query.conditions, settings.normalize relation.field = field.name ∧
    (operator, term) ∈ relation.comparisons

/-- The comparisons of the restriction of a field are those of the query. -/
theorem Plan.compares_iff {settings : Settings} {query : Query} {layout : Layout}
    {bound : Restrictions} (h : bindConditions settings query layout = .ok bound)
    {field : Field} (hfield : field ∈ layout.fields) {operator : Operator} {term : Term} :
    query.Compares settings field operator term ↔
      (operator, term) ∈ Restrictions.comparisonsOf (bound.get? field.name) := by
  rw [(bindConditions_gathered h hfield).comparisons_perm.mem_iff, List.mem_flatMap]
  unfold Query.Compares relationsOn
  simp only [List.mem_filter, decide_eq_true_eq, and_assoc]

end WideColumn
