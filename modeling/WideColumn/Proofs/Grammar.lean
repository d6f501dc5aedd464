import WideColumn.Proofs.Binding

/-!
# `WideColumn.Proofs.Grammar`: relations on one field that go together

`Restrictions.Gathers` tells step by step what the relations on a field add up to. Here
the relations are told as a whole: they are one equality, or one list of keys, or bounds
of which each side has one at most. The theorems:

* `Gathers.addsUp`: what relations that have been gathered look like, and what they add up
  to.
* `exists_gathers_iff`: relations can be gathered exactly where they are `Compatible`.
* `get?_eq_none_iff`, `isEquality_iff` and `isEquality_iff_of_role`: what the restriction
  of a field tells of the where clause.
-/

set_option autoImplicit false

namespace WideColumn

/-- The side a relation bounds its field on. -/
def Relation.side? : Relation → Option Side
  | .compare _ .gt _ | .compare _ .gte _ => some .lower
  | .compare _ .lt _ | .compare _ .lte _ => some .upper
  | .compare _ .eq _ | .oneOf _ _ => none

/-- A comparison with the operator of a side is a bound of that side. -/
theorem Relation.side?_operator (name : Identifier) (side : Side) (inclusive : Bool)
    (term : Term) : (compare name (side.operator inclusive) term).side? = some side := by
  cases side <;> cases inclusive <;> rfl

/-- A relation that bounds a side is written with an operator of the side. -/
theorem Relation.exists_operator {relation : Relation} {side : Side}
    (h : relation.side? = some side) :
    ∃ (name : Identifier) (bound : Bound),
      relation = .compare name (side.operator bound.inclusive) bound.term := by
  cases relation with
  | oneOf name values => cases h
  | compare name operator term =>
      cases operator with
      | eq => cases h
      | lt => cases h; exact ⟨name, ⟨term, false⟩, rfl⟩
      | lte => cases h; exact ⟨name, ⟨term, true⟩, rfl⟩
      | gt => cases h; exact ⟨name, ⟨term, false⟩, rfl⟩
      | gte => cases h; exact ⟨name, ⟨term, true⟩, rfl⟩

/-- How many of the relations bound their field on the side. -/
def boundsOn (side : Side) (relations : List Relation) : Nat :=
  relations.countP fun relation => relation.side? = some side

/-- One more relation is one more bound, or none. -/
theorem boundsOn_snoc (side : Side) (seen : List Relation) (relation : Relation) :
    boundsOn side (seen ++ [relation]) =
      boundsOn side seen + if relation.side? = some side then 1 else 0 := by
  simp [boundsOn, List.countP_append, List.countP_singleton]

/-- Relations on a field with a role that do not exclude each other: one equality, or one
list of partition keys that is not empty, or any bounds with at most one on each side. -/
inductive Compatible (role : Role) : List Relation → Prop
  | equality (name : Identifier) (value : Term) : Compatible role [.compare name .eq value]
  | oneOf (name : Identifier) (values : List Term) (key : role = .partitionKey)
    (some_value : values ≠ []) : Compatible role [.oneOf name values]
  | bounds (relations : List Relation)
    (sided : ∀ relation ∈ relations, ∃ side, relation.side? = some side)
    (once : ∀ side, boundsOn side relations ≤ 1) : Compatible role relations

namespace Restrictions

/-- What compatible relations add up to. A range has a bound on the sides that the
relations bound. -/
inductive AddsUp (role : Role) : List Relation → Option Restriction → Prop
  | nothing : AddsUp role [] none
  | equality (name : Identifier) (value : Term) :
    AddsUp role [.compare name .eq value] (some (.equality [value]))
  | oneOf (name : Identifier) (values : List Term) (key : role = .partitionKey)
    (some_value : values ≠ []) : AddsUp role [.oneOf name values] (some (.equality values))
  | range (relations : List Relation) (lower upper : Option Bound)
    (some_relation : relations ≠ [])
    (sided : ∀ relation ∈ relations, ∃ side, relation.side? = some side)
    (once : ∀ side, boundsOn side relations =
      ((Restriction.range lower upper).bound? side).toList.length) :
    AddsUp role relations (some (.range lower upper))

variable {role : Role} {relations : List Relation} {restriction : Option Restriction}

/-- One more bound on a side where there was none. -/
theorem AddsUp.range_snoc {seen : List Relation} {lower upper lower' upper' : Option Bound}
    {name : Identifier} {side : Side} {bound : Bound}
    (sided : ∀ relation ∈ seen, ∃ side, relation.side? = some side)
    (once : ∀ side, boundsOn side seen =
      ((Restriction.range lower upper).bound? side).toList.length)
    (step : ∀ other, ((Restriction.range lower' upper').bound? other).toList.length =
      ((Restriction.range lower upper).bound? other).toList.length +
        if side = other then 1 else 0) :
    AddsUp role (seen ++ [.compare name (side.operator bound.inclusive) bound.term])
      (some (.range lower' upper')) := by
  refine .range _ _ _ (by simp) (fun relation hrelation => ?_) fun other => ?_
  · rcases List.mem_append.mp hrelation with hseen | hlast
    · exact sided relation hseen
    · rw [List.mem_singleton.mp hlast]
      exact ⟨side, Relation.side?_operator name side bound.inclusive bound.term⟩
  · rw [boundsOn_snoc, once, step, Relation.side?_operator]
    simp only [Option.some.injEq]

/-- Relations that are gathered are compatible, and add up to what they are gathered
to. -/
theorem Gathers.addsUp (h : Gathers role relations restriction) :
    AddsUp role relations restriction := by
  induction h with
  | nil => exact .nothing
  | snoc gathered extended ih =>
      -- A relation that is no bound comes first, and a bound comes after bounds only.
      cases extended with
      | equality name value =>
          cases ih
          exact .equality name value
      | oneOf name values key some_value =>
          cases ih
          exact .oneOf name values key some_value
      | bound name side bound =>
          cases ih
          have hopen : ∀ other, boundsOn other [] =
              ((Restriction.range none none).bound? other).toList.length := by
            intro other
            cases other <;> rfl
          cases side with
          | lower => exact .range_snoc (by simp) hopen fun other => by cases other <;> rfl
          | upper => exact .range_snoc (by simp) hopen fun other => by cases other <;> rfl
      | lower name bound upper =>
          cases ih with
          | range _ _ _ some_relation sided once =>
              exact .range_snoc sided once fun other => by cases other <;> rfl
      | upper name bound lower =>
          cases ih with
          | range _ _ _ some_relation sided once =>
              exact .range_snoc sided once fun other => by cases other <;> rfl

/-- Relations that add up to a restriction go together. -/
theorem AddsUp.compatible (h : AddsUp role relations restriction) :
    Compatible role relations := by
  cases h with
  | nothing => exact .bounds [] (by simp) fun side => Nat.zero_le 1
  | equality name value => exact .equality name value
  | oneOf name values key some_value => exact .oneOf name values key some_value
  | range _ lower upper some_relation sided once =>
      refine .bounds relations sided fun side => ?_
      rw [once side]
      cases (Restriction.range lower upper).bound? side <;> simp

/-- A bound extends what the bounds before it add up to, where none of them is on its
side. -/
theorem exists_extends_of_side {seen : List Relation} {relation : Relation}
    (sided : ∀ relation ∈ seen, ∃ side, relation.side? = some side) {side : Side}
    (hside : relation.side? = some side) (hopen : boundsOn side seen = 0)
    (h : Gathers role seen restriction) : ∃ after, Extends role restriction relation after := by
  obtain ⟨name, bound, rfl⟩ := Relation.exists_operator hside
  cases h.addsUp with
  | nothing => exact ⟨_, .bound name side bound⟩
  | equality | oneOf =>
      obtain ⟨side, hside⟩ := sided _ List.mem_cons_self
      cases hside
  | range _ lower upper some_relation _ once =>
      have hnone := (once side).symm.trans hopen
      cases side with
      | lower =>
          obtain rfl : lower = none := by simpa [Restriction.bound?] using hnone
          exact ⟨_, .lower name bound upper⟩
      | upper =>
          obtain rfl : upper = none := by simpa [Restriction.bound?] using hnone
          exact ⟨_, .upper name bound lower⟩

/-- Bounds of which each side has one at most can be gathered, one after the other. -/
theorem exists_gathers_bounds
    (sided : ∀ relation ∈ relations, ∃ side, relation.side? = some side)
    (once : ∀ side, boundsOn side relations ≤ 1) :
    ∃ restriction, Gathers role relations restriction := by
  -- The induction takes relations away at the end, where binding adds them.
  induction relations using List.reverseRecOn with
  | nil => exact ⟨none, .nil⟩
  | append_singleton seen relation ih =>
      have hseen : ∀ relation ∈ seen, ∃ side, relation.side? = some side :=
        fun other hother => sided other (List.mem_append_left _ hother)
      have honce : ∀ side, boundsOn side seen ≤ 1 := by
        intro side
        have hle := once side
        rw [boundsOn_snoc] at hle
        omega
      obtain ⟨restriction, hgathers⟩ := ih hseen honce
      obtain ⟨side, hside⟩ := sided relation (List.mem_append_right _ List.mem_cons_self)
      have hopen : boundsOn side seen = 0 := by
        have hle := once side
        rw [boundsOn_snoc, if_pos hside] at hle
        omega
      obtain ⟨after, hextends⟩ := exists_extends_of_side hseen hside hopen hgathers
      exact ⟨some after, .snoc hgathers hextends⟩

/-- Relations can be gathered exactly where they are compatible. -/
theorem exists_gathers_iff :
    (∃ restriction, Gathers role relations restriction) ↔ Compatible role relations := by
  constructor
  · rintro ⟨restriction, h⟩
    exact h.addsUp.compatible
  · intro h
    cases h with
    | equality name value => exact ⟨_, Gathers.nil.snoc (.equality name value)⟩
    | oneOf name values key some_value =>
        exact ⟨_, Gathers.nil.snoc (.oneOf name values key some_value)⟩
    | bounds _ sided once => exact exists_gathers_bounds sided once

end Restrictions

/-! ### What a query says of a field -/

namespace Query

variable {settings : Settings} {query : Query} {field : Field}

/-- Some relation is on the field. -/
def Restricts (query : Query) (settings : Settings) (field : Field) : Prop :=
  Plan.relationsOn settings query.conditions field.name ≠ []

/-- Some relation on the field is an equality. -/
def Equates (query : Query) (settings : Settings) (field : Field) : Prop :=
  ∃ name value, .compare name .eq value ∈
    Plan.relationsOn settings query.conditions field.name

/-- Some relation on the field lists the values. -/
def Lists (query : Query) (settings : Settings) (field : Field) (values : List Term) : Prop :=
  ∃ name, .oneOf name values ∈ Plan.relationsOn settings query.conditions field.name

end Query

namespace Plan

open Restrictions (Gathers AddsUp)

variable {settings : Settings} {query : Query} {layout : Layout} {bound : Restrictions}
  {field : Field}

/-- What is said of every field, where the where clause is bound. -/
theorem bindConditions_addsUp (h : bindConditions settings query layout = .ok bound)
    (hfield : field ∈ layout.fields) :
    AddsUp field.role (relationsOn settings query.conditions field.name)
      (bound.get? field.name) :=
  (bindConditions_gathered h hfield).addsUp

/-- Nothing has been said of a field that no relation restricts. -/
theorem get?_eq_none_iff (h : bindConditions settings query layout = .ok bound)
    (hfield : field ∈ layout.fields) :
    bound.get? field.name = none ↔ ¬ query.Restricts settings field := by
  have hadds := bindConditions_addsUp h hfield
  unfold Query.Restricts
  generalize relationsOn settings query.conditions field.name = relations,
    bound.get? field.name = restriction at hadds ⊢
  cases hadds with
  | nothing => simp
  | equality | oneOf => simp
  | range _ _ _ some_relation => simp [some_relation]

/-- A field has an equality where a relation is one or lists values. -/
theorem isEquality_iff (h : bindConditions settings query layout = .ok bound)
    (hfield : field ∈ layout.fields) :
    (bound.get? field.name).any Restriction.isEquality = true ↔
      query.Equates settings field ∨ ∃ values, query.Lists settings field values := by
  have hadds := bindConditions_addsUp h hfield
  unfold Query.Equates Query.Lists
  generalize relationsOn settings query.conditions field.name = relations,
    bound.get? field.name = restriction at hadds ⊢
  cases hadds with
  | nothing => simp
  | equality name value => simp [Restriction.isEquality]
  | oneOf name values => simp [Restriction.isEquality]
  | range _ lower upper _ sided =>
      -- A relation that is no bound is not among bounds.
      refine iff_of_false (by simp [Restriction.isEquality]) ?_
      rintro (⟨name, value, hmem⟩ | ⟨values, name, hmem⟩)
      · obtain ⟨side, hside⟩ := sided _ hmem
        cases hside
      · obtain ⟨side, hside⟩ := sided _ hmem
        cases hside

/-- Only the partition key has an equality without a relation that is one. -/
theorem isEquality_iff_of_role (h : bindConditions settings query layout = .ok bound)
    (hfield : field ∈ layout.fields) (hrole : field.role ≠ .partitionKey) :
    (bound.get? field.name).any Restriction.isEquality = true ↔
      query.Equates settings field := by
  have hadds := bindConditions_addsUp h hfield
  rw [isEquality_iff h hfield]
  refine or_iff_left ?_
  unfold Query.Lists
  generalize relationsOn settings query.conditions field.name = relations,
    bound.get? field.name = restriction at hadds ⊢
  rintro ⟨values, name, hmem⟩
  cases hadds with
  | nothing => cases hmem
  | equality => simp at hmem
  | oneOf _ _ key => exact hrole key
  | range _ _ _ _ sided =>
      obtain ⟨side, hside⟩ := sided _ hmem
      cases hside

/-- A field has several values where a relation lists them. -/
theorem exists_values_iff (h : bindConditions settings query layout = .ok bound)
    (hfield : field ∈ layout.fields) :
    (∃ values, bound.get? field.name = some (.equality values) ∧ 1 < values.length) ↔
      ∃ values, query.Lists settings field values ∧ 1 < values.length := by
  have hadds := bindConditions_addsUp h hfield
  unfold Query.Lists
  generalize relationsOn settings query.conditions field.name = relations,
    bound.get? field.name = restriction at hadds ⊢
  cases hadds with
  | nothing => simp
  | equality name value => simp
  | oneOf name values => simp
  | range _ lower upper _ sided =>
      refine iff_of_false (by simp) ?_
      rintro ⟨values, ⟨name, hmem⟩, -⟩
      obtain ⟨side, hside⟩ := sided _ hmem
      cases hside

end Plan

end WideColumn
