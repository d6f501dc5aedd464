import WideColumn.Plan.Compile
import WideColumn.Proofs.Layout
import WideColumn.Proofs.Outcome
import WideColumn.Proofs.Restriction

/-!
# `WideColumn.Proofs.Conditions`: the where clause and its restrictions

A relation and a restriction both say something of a field, and both say it through
single comparisons of an operator with a term: `Relation.Admits` and
`Restriction.Admits` leave open what such a comparison means. The theorems:

* `Restrictions.Extends`, `bindRelation_eq_ok` and `bindRelation_of_extends`: everything
  one relation can do to the restrictions.
* `bindConditions_gathers`: the restriction of a field says what all relations on
  it say together.
-/

set_option autoImplicit false

namespace WideColumn

/-- The comparison of byte strings an operator stands for. -/
def Operator.Holds : Operator → Bytes → Bytes → Prop
  | .eq, a, b => a = b
  | .lt, a, b => a < b
  | .lte, a, b => a ≤ b
  | .gt, a, b => b < a
  | .gte, a, b => b ≤ a

instance (operator : Operator) (a b : Bytes) : Decidable (operator.Holds a b) :=
  match operator with
  | .eq => inferInstanceAs (Decidable (a = b))
  | .lt => inferInstanceAs (Decidable (a < b))
  | .lte => inferInstanceAs (Decidable (a ≤ b))
  | .gt => inferInstanceAs (Decidable (b < a))
  | .gte => inferInstanceAs (Decidable (b ≤ a))

/-- What a relation says of its field, `check` telling which comparisons hold. -/
def Relation.Admits (check : Operator → Term → Prop) : Relation → Prop
  | .compare _ operator value => check operator value
  | .oneOf _ values => ∃ value ∈ values, check .eq value

instance {check : Operator → Term → Prop} [∀ operator term, Decidable (check operator term)]
    (relation : Relation) : Decidable (relation.Admits check) :=
  match relation with
  | .compare _ operator value => inferInstanceAs (Decidable (check operator value))
  | .oneOf _ values => inferInstanceAs (Decidable (∃ value ∈ values, check .eq value))

/-- What a bound on a side says. -/
def Bound.Admits (check : Operator → Term → Prop) (side : Side) (bound : Bound) : Prop :=
  check (side.operator bound.inclusive) bound.term

/-- What a restriction says of its field, `check` telling which comparisons hold. -/
def Restriction.Admits (check : Operator → Term → Prop) : Restriction → Prop
  | .equality values => ∃ value ∈ values, check .eq value
  | .range lower upper =>
    (∀ bound ∈ lower, bound.Admits check .lower) ∧ ∀ bound ∈ upper, bound.Admits check .upper

namespace Restrictions

/-- What the restrictions say of a field: nothing where it has none. -/
def Admit (restrictions : Restrictions) (check : Operator → Term → Prop) (field : String) :
    Prop :=
  ∀ restriction, restrictions.get? field = some restriction → restriction.Admits check

/-- How a relation on a field with a role turns the restriction the field has into
another. -/
inductive Extends (role : Role) : Option Restriction → Relation → Restriction → Prop
  | equality (name : Identifier) (value : Term) :
    Extends role none (.compare name .eq value) (.equality [value])
  | oneOf (name : Identifier) (values : List Term) (key : role = .partitionKey)
    (some_value : values ≠ []) : Extends role none (.oneOf name values) (.equality values)
  | bound (name : Identifier) (side : Side) (bound : Bound) :
    Extends role none (.compare name (side.operator bound.inclusive) bound.term)
      (.ofBound side bound)
  | lower (name : Identifier) (bound : Bound) (upper : Option Bound) :
    Extends role (some (.range none upper))
      (.compare name (Side.operator .lower bound.inclusive) bound.term)
      (.range (some bound) upper)
  | upper (name : Identifier) (bound : Bound) (lower : Option Bound) :
    Extends role (some (.range lower none))
      (.compare name (Side.operator .upper bound.inclusive) bound.term)
      (.range lower (some bound))

/-- The restriction a relation leads to says what the one before says and what the
relation says. -/
theorem Extends.admits_iff {role : Role} {before : Option Restriction} {relation : Relation}
    {after : Restriction} (h : Extends role before relation after)
    (check : Operator → Term → Prop) :
    after.Admits check ↔
      (∀ restriction, before = some restriction → restriction.Admits check) ∧
        relation.Admits check := by
  cases h with
  | equality name value => simp [Restriction.Admits, Relation.Admits]
  | oneOf name values key some_value => simp [Restriction.Admits, Relation.Admits]
  | bound name side bound =>
      cases side <;>
        simp [Restriction.ofBound, Restriction.Admits, Bound.Admits, Relation.Admits]
  | lower name bound upper =>
      simp [Restriction.Admits, Bound.Admits, Relation.Admits, and_comm]
  | upper name bound lower =>
      simp [Restriction.Admits, Bound.Admits, Relation.Admits]

/-- A restriction to several values comes from a list, and lists are for the
partition key. -/
theorem Extends.single_or_key {role : Role} {before : Option Restriction}
    {relation : Relation} {after : Restriction} (h : Extends role before relation after)
    {values : List Term} (hvalues : after = .equality values) :
    (∃ value, values = [value]) ∨ role = .partitionKey := by
  cases h with
  | equality name value =>
      cases hvalues
      exact .inl ⟨value, rfl⟩
  | oneOf name _ key some_value => exact .inr key
  | bound name side bound => cases side <;> cases hvalues
  | lower name bound upper => cases hvalues
  | upper name bound lower => cases hvalues

/-- A restriction to values has some. -/
theorem Extends.some_value {role : Role} {before : Option Restriction} {relation : Relation}
    {after : Restriction} (h : Extends role before relation after) {values : List Term}
    (hvalues : after = .equality values) : values ≠ [] := by
  cases h with
  | equality name value =>
      cases hvalues
      exact List.cons_ne_nil _ _
  | oneOf name _ key some_value =>
      cases hvalues
      exact some_value
  | bound name side bound => cases side <;> cases hvalues
  | lower name bound upper => cases hvalues
  | upper name bound lower => cases hvalues

/-! ### One relation -/

variable {restrictions next : Restrictions} {field : String}

/-- An equality is entered for a field of which nothing has been said. -/
theorem addEquality_eq_ok {value : Term} (h : restrictions.addEquality field value = .ok next) :
    restrictions.get? field = none ∧ next = restrictions.set field (.equality [value]) := by
  rw [addEquality_eq] at h
  split at h
  · cases h
  · cases h
    exact ⟨‹_›, rfl⟩

/-- The same for several values, of which there has to be one. -/
theorem addOneOf_eq_ok {values : List Term} (h : restrictions.addOneOf field values = .ok next) :
    restrictions.get? field = none ∧ values ≠ [] ∧
      next = restrictions.set field (.equality values) := by
  rw [addOneOf_eq] at h
  split at h
  · cases h
  · split at h
    · cases h
    · cases h
      exact ⟨‹_›, ‹_›, rfl⟩

/-- A bound is added to a field with no restriction, or to a range that is open on
its side. -/
theorem addBound_eq_ok {side : Side} (bound : Bound) (role : Role) (name : Identifier)
    (h : restrictions.addBound field side bound = .ok next) :
    ∃ restriction, next = restrictions.set field restriction ∧
      Extends role (restrictions.get? field)
        (.compare name (side.operator bound.inclusive) bound.term) restriction := by
  rw [addBound_eq] at h
  -- The field has no restriction, or a range that may be open on the side.
  split at h
  · next hnone =>
      cases h
      refine ⟨_, rfl, ?_⟩
      rw [hnone]
      exact .bound name _ bound
  · cases h
  · next upper hrange =>
      cases h
      refine ⟨_, rfl, ?_⟩
      rw [hrange]
      exact .lower name bound upper
  · next lower hrange =>
      cases h
      refine ⟨_, rfl, ?_⟩
      rw [hrange]
      exact .upper name bound lower
  · cases h

/-- Whatever its operator, a comparison extends what has been said of its field. -/
theorem addComparison_eq_ok {operator : Operator} {value : Term} (role : Role)
    (name : Identifier) (h : restrictions.addComparison field operator value = .ok next) :
    ∃ restriction, next = restrictions.set field restriction ∧
      Extends role (restrictions.get? field) (.compare name operator value) restriction := by
  cases operator with
  | eq =>
      obtain ⟨hnone, hnext⟩ := addEquality_eq_ok h
      refine ⟨_, hnext, ?_⟩
      rw [hnone]
      exact .equality name value
  | lt => exact addBound_eq_ok ⟨value, false⟩ role name h
  | lte => exact addBound_eq_ok ⟨value, true⟩ role name h
  | gt => exact addBound_eq_ok ⟨value, false⟩ role name h
  | gte => exact addBound_eq_ok ⟨value, true⟩ role name h

/-- Adding a comparison that bounds a side is adding the bound. -/
theorem addComparison_operator (restrictions : Restrictions) (field : String) (side : Side)
    (bound : Bound) :
    restrictions.addComparison field (side.operator bound.inclusive) bound.term =
      restrictions.addBound field side bound := by
  obtain ⟨term, inclusive⟩ := bound
  cases side <;> cases inclusive <;> rfl

end Restrictions

namespace Plan

open Outcome (bind_eq_ok_iff)
open Restrictions (Extends)

variable {settings : Settings} {query : Query} {layout : Layout} {restrictions : Restrictions}

/-- A name that is resolved is normalized to that of the field. -/
theorem resolve_eq_ok {name : Identifier} {clause : Clause} {field : Field}
    (h : resolve settings layout name clause = .ok field) :
    layout.lookup (settings.normalize name) = some field := by
  unfold resolve at h
  split at h
  · cases h
    exact ‹_›
  · cases h

/-- A relation that is accepted sets the restriction of its own field, which is no
value field, to an extension of what it was. -/
theorem bindRelation_eq_ok {next : Restrictions} {field : Field} {relation : Relation}
    (h : bindRelation restrictions field relation = .ok next) :
    field.role ≠ .value ∧ ∃ restriction, next = restrictions.set field.name restriction ∧
      Extends field.role (restrictions.get? field.name) relation restriction := by
  unfold bindRelation at h
  split at h
  · cases h
  · next hvalue =>
      refine ⟨hvalue, ?_⟩
      cases relation with
      | compare name operator value =>
          exact Restrictions.addComparison_eq_ok field.role name h
      | oneOf name values =>
          simp only at h
          split at h
          · cases h
          · next hkey =>
              obtain ⟨hnone, hvalues, hnext⟩ := Restrictions.addOneOf_eq_ok h
              refine ⟨_, hnext, ?_⟩
              -- Nothing has been said of the field, so its role let several values pass.
              have hrole : field.role = .partitionKey :=
                Classical.byContradiction fun hrole => hkey ⟨hrole, hnone⟩
              rw [hnone]
              exact .oneOf name values hrole hvalues

/-- A relation that extends the restriction of its field is accepted. -/
theorem bindRelation_of_extends {field : Field} {before : Option Restriction}
    {relation : Relation} {after : Restriction} (hrole : field.role ≠ .value)
    (hbefore : restrictions.get? field.name = before)
    (h : Extends field.role before relation after) :
    bindRelation restrictions field relation = .ok (restrictions.set field.name after) := by
  unfold bindRelation
  rw [if_neg hrole]
  cases h with
  | equality name value =>
      simp only [Restrictions.addComparison, Restrictions.addEquality_eq, hbefore]
  | oneOf name values key some_value =>
      simp only [Restrictions.addOneOf_eq, hbefore, key, ne_eq, not_true_eq_false, false_and,
        if_false, some_value]
  | bound name side bound =>
      simp only [Restrictions.addComparison_operator, Restrictions.addBound_eq, hbefore]
  | lower name bound upper =>
      simp only [Restrictions.addComparison_operator, Restrictions.addBound_eq, hbefore]
  | upper name bound lower =>
      simp only [Restrictions.addComparison_operator, Restrictions.addBound_eq, hbefore]

/-- One step of `bindConditions`: the field of a relation is looked up, and the
relation extends its restriction. -/
theorem bindStep_eq_ok {next : Restrictions} {relation : Relation}
    (h : (do
      let field ← resolve settings layout relation.field .condition
      bindRelation restrictions field relation) = .ok next) :
    ∃ field ∈ layout.fields, field.name = settings.normalize relation.field ∧
      field.role ≠ .value ∧ ∃ restriction,
        next = restrictions.set field.name restriction ∧
        Extends field.role (restrictions.get? field.name) relation restriction := by
  obtain ⟨field, hfield, h⟩ := bind_eq_ok_iff.mp h
  obtain ⟨hmem, hname⟩ := Layout.lookup_eq_some_iff.mp (resolve_eq_ok hfield)
  exact ⟨field, hmem, hname, bindRelation_eq_ok h⟩

/-- A property of the relations bound so far and the restrictions they have led to
holds of the whole where clause when it holds of no relations and every relation
keeps it. -/
theorem bindConditions_induction {motive : List Relation → Restrictions → Prop}
    (empty : motive [] Restrictions.empty)
    (step : ∀ seen restrictions relation field restriction, motive seen restrictions →
      field ∈ layout.fields → field.name = settings.normalize relation.field →
      field.role ≠ .value →
      Extends field.role (restrictions.get? field.name) relation restriction →
      motive (seen ++ [relation]) (restrictions.set field.name restriction))
    (h : bindConditions settings query layout = .ok restrictions) :
    motive query.conditions restrictions := by
  -- The induction is on the relations still to be bound.
  have key : ∀ (rest seen : List Relation) (before after : Restrictions), motive seen before →
      rest.foldlM (fun restrictions relation => do
        let field ← resolve settings layout relation.field .condition
        bindRelation restrictions field relation) before = .ok after →
      motive (seen ++ rest) after := by
    intro rest
    induction rest with
    | nil =>
        intro seen before after hbefore hfold
        cases hfold
        rwa [List.append_nil]
    | cons relation rest ih =>
        intro seen before after hbefore hfold
        rw [List.foldlM_cons] at hfold
        obtain ⟨next, hstep, hrest⟩ := bind_eq_ok_iff.mp hfold
        obtain ⟨field, hmem, hname, hrole, restriction, rfl, hextends⟩ := bindStep_eq_ok hstep
        have hnext := step seen before relation field restriction hbefore hmem hname hrole
          hextends
        have hall := ih _ _ _ hnext hrest
        rwa [List.append_assoc, List.singleton_append] at hall
  exact key query.conditions [] _ _ empty h

/-- The restriction of a field says what all relations on the field say together. -/
theorem bindConditions_gathers (h : bindConditions settings query layout = .ok restrictions)
    (check : Operator → Term → Prop) (name : String) :
    restrictions.Admit check name ↔
      ∀ relation ∈ query.conditions, settings.normalize relation.field = name →
        relation.Admits check := by
  refine bindConditions_induction (motive := fun seen restrictions =>
    restrictions.Admit check name ↔ ∀ relation ∈ seen,
      settings.normalize relation.field = name → relation.Admits check) ?_ ?_ h
  · simp [Restrictions.Admit, Restrictions.get?_empty]
  · intro seen before relation field restriction ih hmem hname hrole hextends
    simp only [List.mem_append, List.mem_singleton, or_imp, forall_and, forall_eq, ← ih]
    unfold Restrictions.Admit
    simp only [Restrictions.get?_set]
    -- A relation on another field changes neither side.
    by_cases heq : name = field.name
    · subst heq
      simp [hextends.admits_iff, hname]
    · have hother : settings.normalize relation.field ≠ name := fun h => heq (hname ▸ h.symm)
      simp [heq, hother]

end Plan

end WideColumn
