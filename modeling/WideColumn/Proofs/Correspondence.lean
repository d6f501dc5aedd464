import WideColumn.Proofs.Compile

/-!
# `WideColumn.Proofs.Correspondence`: queries that differ in their terms

Compilation looks at fields and operators. No check opens a term, and a name serves only
to find its field. So queries that differ in nothing else are both accepted or both
refused, and their plans differ in their terms as the queries do. Here `R` tells which
terms correspond on the field of a name. The theorems:

* `Restrictions.Alike.addComparison` and `bindRelation_alike`: one relation.
* `bindConditions_alike`, `checkClusteringFrom_alike` and `checkIndexed_alike`: the checks
  of the where clause.
* `compile_alike`: the whole query.
-/

set_option autoImplicit false

namespace WideColumn

/-- Errors that differ in the spelling of an unknown name, if in anything. -/
inductive Error.Alike : Error → Error → Prop
  | same (error : Error) : Alike error error
  | unknownField (name other : String) (clause : Clause) :
    Alike (.unknownField name clause) (.unknownField other clause)

/-- Relations with one operator on one field, with terms that correspond. -/
inductive Relation.Alike (settings : Settings) (R : String → Term → Term → Prop) :
    Relation → Relation → Prop
  | compare (name other : Identifier) (operator : Operator) (value value' : Term)
    (named : settings.normalize other = settings.normalize name)
    (terms : R (settings.normalize name) value value') :
    Alike settings R (.compare name operator value) (.compare other operator value')
  | oneOf (name other : Identifier) (values values' : List Term)
    (named : settings.normalize other = settings.normalize name)
    (terms : List.Forall₂ (R (settings.normalize name)) values values') :
    Alike settings R (.oneOf name values) (.oneOf other values')

/-- Corresponding relations are on the same field. -/
theorem Relation.Alike.named {settings : Settings} {R : String → Term → Term → Prop}
    {relation other : Relation} (h : relation.Alike settings R other) :
    settings.normalize other.field = settings.normalize relation.field := by
  cases h with
  | compare _ _ _ _ _ named => exact named
  | oneOf _ _ _ _ named => exact named

/-- Optional values that correspond are both absent, or two that do. -/
theorem rel_cases {α β : Type} {R : α → β → Prop} {one : Option α} {other : Option β}
    (h : Option.Rel R one other) :
    one = none ∧ other = none ∨ ∃ a b, one = some a ∧ other = some b ∧ R a b := by
  cases h with
  | none => exact .inl ⟨rfl, rfl⟩
  | some h => exact .inr ⟨_, _, rfl, rfl, h⟩

/-- Bounds that are both inclusive or both not, with terms that correspond. -/
structure Bound.Alike (R : Term → Term → Prop) (bound other : Bound) : Prop where
  term : R bound.term other.term
  inclusive : other.inclusive = bound.inclusive

/-- Restrictions of one shape, with terms that correspond. -/
inductive Restriction.Alike (R : Term → Term → Prop) : Restriction → Restriction → Prop
  | equality {values values' : List Term} (terms : List.Forall₂ R values values') :
    Alike R (.equality values) (.equality values')
  | range {lower lower' upper upper' : Option Bound}
    (lowers : Option.Rel (Bound.Alike R) lower lower')
    (uppers : Option.Rel (Bound.Alike R) upper upper') :
    Alike R (.range lower upper) (.range lower' upper')

namespace Restriction.Alike

variable {R : Term → Term → Prop} {restriction other : Restriction}

/-- Corresponding restrictions are of one form. -/
theorem isEquality (h : restriction.Alike R other) :
    other.isEquality = restriction.isEquality := by
  cases h <;> rfl

/-- They have as many values. -/
theorem length_values (h : restriction.Alike R other) :
    other.values.length = restriction.values.length := by
  cases h with
  | equality terms => exact terms.length_eq.symm
  | range => rfl

/-- They have bounds on the same sides. -/
theorem bound? (h : restriction.Alike R other) (side : Side) :
    Option.Rel (Bound.Alike R) (restriction.bound? side) (other.bound? side) := by
  cases h with
  | equality => exact .none
  | range lowers uppers =>
      cases side with
      | lower => exact lowers
      | upper => exact uppers

/-- Where one has a single value, so has the other. -/
theorem single? (h : restriction.Alike R other) :
    Option.Rel R restriction.single? other.single? := by
  cases h with
  | range => exact .none
  | equality terms =>
      cases terms with
      | nil => exact .none
      | cons hterm hrest =>
          cases hrest with
          | nil => exact .some hterm
          | cons => exact .none

/-- Their comparisons correspond one by one, with the same operators. -/
theorem comparisons (h : restriction.Alike R other) :
    List.Forall₂ (fun one other => other.1 = one.1 ∧ R one.2 other.2) restriction.comparisons
      other.comparisons := by
  cases h with
  | equality terms =>
      rw [Restriction.comparisons, Restriction.comparisons, List.forall₂_map_left_iff,
        List.forall₂_map_right_iff]
      exact terms.imp fun term term' hterm => ⟨rfl, hterm⟩
  | range lowers uppers =>
      have hside : ∀ (side : Side) (bound bound' : Option Bound),
          Option.Rel (Bound.Alike R) bound bound' →
          List.Forall₂ (fun one other : Operator × Term => other.1 = one.1 ∧ R one.2 other.2)
            (bound.toList.map fun b => (side.operator b.inclusive, b.term))
            (bound'.toList.map fun b => (side.operator b.inclusive, b.term)) := by
        intro side bound bound' hbound
        cases hbound with
        | none => exact .nil
        | some h => exact .cons ⟨congrArg side.operator h.inclusive, h.term⟩ .nil
      exact List.rel_append (hside .lower _ _ lowers) (hside .upper _ _ uppers)

end Restriction.Alike

namespace Restrictions

/-- The restrictions of every field correspond. -/
def Alike (R : String → Term → Term → Prop) (restrictions others : Restrictions) : Prop :=
  ∀ field, Option.Rel (Restriction.Alike (R field)) (restrictions.get? field)
    (others.get? field)

namespace Alike

variable {R : String → Term → Term → Prop} {restrictions others : Restrictions}

/-- Empty restrictions correspond. -/
theorem empty : Alike R Restrictions.empty Restrictions.empty :=
  fun _ => .none

/-- And they still do after corresponding ones have been entered for a field. -/
theorem set (h : Alike R restrictions others) {field : String} {restriction other : Restriction}
    (hfield : restriction.Alike (R field) other) :
    Alike R (restrictions.set field restriction) (others.set field other) := by
  intro name
  rw [get?_set, get?_set]
  by_cases hname : name = field
  · subst hname
    simpa using Option.Rel.some hfield
  · simpa [hname] using h name

/-- A field has no restriction on either side, or two that correspond. -/
theorem cases (h : Alike R restrictions others) (field : String) :
    restrictions.get? field = none ∧ others.get? field = none ∨
      ∃ restriction other, restrictions.get? field = some restriction ∧
        others.get? field = some other ∧ restriction.Alike (R field) other :=
  rel_cases (h field)

/-- The two sides take the same equalities. -/
theorem addEquality (h : Alike R restrictions others) {field : String} {value value' : Term}
    (hvalue : R field value value') :
    Outcome.Alike Error.Alike (Alike R) (restrictions.addEquality field value)
      (others.addEquality field value') := by
  simp only [Restrictions.addEquality_eq]
  rcases h.cases field with ⟨hone, hother⟩ | ⟨_, _, hone, hother, -⟩
  · rw [hone, hother]
    exact .ok (h.set (.equality (.cons hvalue .nil)))
  · rw [hone, hother]
    exact .error (.same _)

/-- The two sides take the same lists of values. -/
theorem addOneOf (h : Alike R restrictions others) {field : String}
    {values values' : List Term} (hvalues : List.Forall₂ (R field) values values') :
    Outcome.Alike Error.Alike (Alike R) (restrictions.addOneOf field values)
      (others.addOneOf field values') := by
  simp only [Restrictions.addOneOf_eq]
  rcases h.cases field with ⟨hone, hother⟩ | ⟨_, _, hone, hother, -⟩
  · rw [hone, hother]
    cases hvalues with
    | nil => exact .error (.same _)
    | cons hvalue hrest => exact .ok (h.set (.equality (.cons hvalue hrest)))
  · rw [hone, hother]
    exact .error (.same _)

/-- The two sides take the same bounds. -/
theorem addBound (h : Alike R restrictions others) {field : String} (side : Side)
    {bound bound' : Bound} (hbound : bound.Alike (R field) bound') :
    Outcome.Alike Error.Alike (Alike R) (restrictions.addBound field side bound)
      (others.addBound field side bound') := by
  have hadded : Option.Rel (Bound.Alike (R field)) (some bound) (some bound') := .some hbound
  simp only [Restrictions.addBound_eq]
  rcases h.cases field with ⟨hone, hother⟩ | ⟨_, _, hone, hother, hfield⟩
  · rw [hone, hother]
    cases side with
    | lower => exact .ok (h.set (.range hadded .none))
    | upper => exact .ok (h.set (.range .none hadded))
  · rw [hone, hother]
    -- A range takes the bound where its own side is open.
    cases hfield with
    | equality => exact .error (.same _)
    | range lowers uppers =>
        cases lowers with
        | none =>
            cases side with
            | lower => exact .ok (h.set (.range hadded uppers))
            | upper =>
                cases uppers with
                | none => exact .ok (h.set (.range .none hadded))
                | some => exact .error (.same _)
        | some hlower =>
            cases uppers with
            | none =>
                cases side with
                | lower => exact .error (.same _)
                | upper => exact .ok (h.set (.range (.some hlower) hadded))
            | some => cases side <;> exact .error (.same _)

/-- The two sides take the same comparisons. -/
theorem addComparison (h : Alike R restrictions others) {field : String} (operator : Operator)
    {value value' : Term} (hvalue : R field value value') :
    Outcome.Alike Error.Alike (Alike R) (restrictions.addComparison field operator value)
      (others.addComparison field operator value') := by
  cases operator with
  | eq => exact h.addEquality hvalue
  | gt => exact h.addBound .lower ⟨hvalue, rfl⟩
  | gte => exact h.addBound .lower ⟨hvalue, rfl⟩
  | lt => exact h.addBound .upper ⟨hvalue, rfl⟩
  | lte => exact h.addBound .upper ⟨hvalue, rfl⟩

/-- The two sides turn the same equalities into ranges. -/
theorem equalityToRange (h : Alike R restrictions others) (field : String) :
    Alike R ((restrictions.equalityToRange? field).getD restrictions)
      ((others.equalityToRange? field).getD others) := by
  simp only [equalityToRange?_eq]
  rcases h.cases field with ⟨hone, hother⟩ | ⟨_, _, hone, hother, hfield⟩
  · rw [hone, hother]
    exact h
  · rw [hone, hother]
    cases hfield with
    | range lowers uppers => exact h
    | equality terms =>
        -- Only an equality with one value is turned.
        cases terms with
        | nil => exact h
        | cons hterm hrest =>
            cases hrest with
            | nil =>
                have hclosed : Option.Rel (Bound.Alike (R field)) (some ⟨_, true⟩)
                    (some ⟨_, true⟩) := .some ⟨hterm, rfl⟩
                exact h.set (.range hclosed hclosed)
            | cons => exact h

end Alike

end Restrictions

/-- Queries with the same parameters, whose names find the same fields and whose relations
correspond. A count selects no fields, and so is written in one way. -/
structure Query.Alike (settings : Settings) (R : String → Term → Term → Prop)
    (query other : Query) : Prop where
  table : other.table = query.table
  selection : List.Forall₂ (fun name name' => settings.normalize name' = settings.normalize name)
    query.selection other.selection
  counted : query.count = true → other.selection = query.selection
  conditions : List.Forall₂ (Relation.Alike settings R) query.conditions other.conditions
  limit : other.limit = query.limit
  consistency : other.consistency = query.consistency
  reversed : other.reversed = query.reversed
  count : other.count = query.count

namespace Plan

open Outcome (ok_bind)

/-- Plans that differ in the names of columns and in their terms. -/
structure Alike (R : String → Term → Term → Prop) (plan other : Plan) : Prop where
  layout : other.layout = plan.layout
  limit : other.limit = plan.limit
  consistency : other.consistency = plan.consistency
  reversed : other.reversed = plan.reversed
  count : other.count = plan.count
  selection : other.selection.map Selected.field = plan.selection.map Selected.field
  restrictions : plan.restrictions.Alike R other.restrictions
  indexed : other.indexed = plan.indexed
  countColumn : other.countColumn = plan.countColumn

variable {settings : Settings} {query other : Query} {layout : Layout} {indexed : List String}
  {R : String → Term → Term → Prop} {bound bound' : Restrictions}

/-! ### The select clause -/

/-- Names that are normalized alike find one field, or none. -/
theorem resolve_alike {name name' : Identifier} (clause : Clause)
    (h : settings.normalize name' = settings.normalize name) :
    Outcome.Alike Error.Alike
      (fun field field' => field' = field ∧ field.name = settings.normalize name)
      (resolve settings layout name clause) (resolve settings layout name' clause) := by
  unfold resolve
  rw [h]
  cases hfield : layout.lookup (settings.normalize name) with
  | none => exact .error (.unknownField _ _ clause)
  | some field => exact .ok ⟨rfl, (Layout.lookup_eq_some_iff.mp hfield).2⟩

/-- Select clauses that are normalized to the same names select the same fields. -/
theorem bindSelection_alike (h : query.Alike settings R other) :
    Outcome.Alike Error.Alike (fun selection selection' =>
        selection'.map Selected.field = selection.map Selected.field)
      (bindSelection settings query layout) (bindSelection settings other layout) := by
  unfold bindSelection
  rw [h.count]
  cases hcount : query.count with
  | true =>
      rw [h.counted hcount]
      cases countsRows query.selection with
      | true => exact .ok rfl
      | false => exact .error (.same _)
  | false =>
      have hfields : ∀ selection selection' : List Selected,
          List.Forall₂ (fun one other => one.field = other.field) selection selection' →
          selection'.map Selected.field = selection.map Selected.field := by
        intro selection selection' hpairs
        rw [eq_comm, ← List.forall₂_eq_eq_eq, List.forall₂_map_left_iff,
          List.forall₂_map_right_iff]
        exact hpairs
      refine (Outcome.Alike.mapM h.selection fun name name' hname => ?_).imp hfields
      exact (resolve_alike .selection hname).bind fun field field' hfield => .ok hfield.1.symm

/-! ### The where clause -/

/-- Corresponding relations extend corresponding restrictions. -/
theorem bindRelation_alike (h : bound.Alike R bound') {field : Field}
    {relation relation' : Relation} (hname : field.name = settings.normalize relation.field)
    (hrelation : relation.Alike settings R relation') :
    Outcome.Alike Error.Alike (Restrictions.Alike R) (bindRelation bound field relation)
      (bindRelation bound' field relation') := by
  unfold bindRelation
  by_cases hvalue : field.role = .value
  · rw [if_pos hvalue, if_pos hvalue]
    exact .error (.same _)
  · rw [if_neg hvalue, if_neg hvalue]
    cases hrelation with
    | compare name name' operator value value' named terms =>
        exact h.addComparison operator (hname ▸ terms)
    | oneOf name name' values values' named terms =>
        have hfree : bound'.get? field.name = none ↔ bound.get? field.name = none := by
          rcases h.cases field.name with ⟨hone, hother⟩ | ⟨_, _, hone, hother, -⟩
          · rw [hone, hother]
          · rw [hone, hother]; simp
        simp only [hfree]
        split
        · exact .error (.same _)
        · exact h.addOneOf (hname ▸ terms)

/-- So where clauses that correspond are bound to corresponding restrictions. -/
theorem bindConditions_alike (h : query.Alike settings R other) :
    Outcome.Alike Error.Alike (Restrictions.Alike R) (bindConditions settings query layout)
      (bindConditions settings other layout) := by
  refine Outcome.Alike.foldlM h.conditions (fun bound bound' relation relation' hbound hrelation =>
    ?_) Restrictions.Alike.empty
  refine (resolve_alike .condition hrelation.named).bind fun field field' hfield => ?_
  obtain ⟨rfl, hname⟩ := hfield
  exact bindRelation_alike hbound hname hrelation

/-- The check of clustering fields looks at the forms of restrictions only. -/
theorem checkClusteringFrom_alike (h : bound.Alike R bound') (closed : Option String)
    (fields : List Field) :
    checkClusteringFrom bound' closed fields = checkClusteringFrom bound closed fields := by
  induction fields generalizing closed with
  | nil => rfl
  | cons field rest ih =>
      rcases h.cases field.name with ⟨hone, hother⟩ | ⟨_, _, hone, hother, hfield⟩
      · simp only [checkClusteringFrom, hone, hother, ih]
      · cases closed with
        | none => simp only [checkClusteringFrom, hone, hother, hfield.isEquality, ih]
        | some previous => simp only [checkClusteringFrom, hone, hother]

/-- The same metadata fields are restricted. -/
theorem restrictedMetadata_alike (h : bound.Alike R bound') :
    restrictedMetadata bound' layout = restrictedMetadata bound layout := by
  refine List.filter_congr fun field _ => ?_
  rcases h.cases field.name with ⟨hone, hother⟩ | ⟨_, _, hone, hother, -⟩
  · rw [hone, hother]
  · rw [hone, hother]; rfl

/-- A field has an equality in one where it has one in the other. -/
theorem any_isEquality_alike (h : bound.Alike R bound') (field : String) :
    (bound'.get? field).any Restriction.isEquality =
      (bound.get? field).any Restriction.isEquality := by
  rcases h.cases field with ⟨hone, hother⟩ | ⟨_, _, hone, hother, hfield⟩
  · rw [hone, hother]
  · rw [hone, hother]
    exact hfield.isEquality

/-- The check of restricted metadata looks at forms and numbers of values only. -/
theorem checkIndexed_alike (h : bound.Alike R bound') :
    Outcome.Alike Error.Alike (fun checked checked' : Restrictions × Bool =>
        checked.1.Alike R checked'.1 ∧ checked'.2 = checked.2)
      (checkIndexed bound layout indexed) (checkIndexed bound' layout indexed) := by
  -- The check goes the same way for both, because it looks at no term.
  have hequal : isIndexedEquality bound' indexed = isIndexedEquality bound indexed := by
    funext field
    rw [isIndexedEquality, isIndexedEquality, any_isEquality_alike h]
  simp only [checkIndexed, restrictedMetadata_alike h, hequal]
  split
  · exact .ok ⟨h, rfl⟩
  · split
    · exact .error (.same _)
    · rcases h.cases layout.keyField.name with ⟨hone, hother⟩ |
        ⟨restriction, restriction', hone, hother, hfield⟩
      · rw [hone, hother]
        exact .ok ⟨h, rfl⟩
      · rw [hone, hother]
        simp only [hfield.length_values]
        by_cases hseveral : restriction.values.length > 1
        · rw [if_pos hseveral, if_pos hseveral]
          exact .error (.same _)
        · rw [if_neg hseveral, if_neg hseveral]
          exact .ok ⟨h.equalityToRange layout.keyField.name, rfl⟩

/-! ### The whole query -/

/-- The check of the order looks at the form of one restriction. -/
theorem checkReversal_alike (h : bound.Alike R bound')
    (hreversed : other.reversed = query.reversed) :
    checkReversal other bound' layout = checkReversal query bound layout := by
  unfold checkReversal
  rw [any_isEquality_alike h, hreversed]

/-- Queries that correspond are both accepted, with plans that do, or both refused. -/
theorem compile_alike (h : query.Alike settings R other) (layout : Layout)
    (indexed : List String) :
    Outcome.Alike Error.Alike (Alike R) (compile settings query layout indexed)
      (compile settings other layout indexed) := by
  have hlimit : checkLimit other = checkLimit query := by
    unfold checkLimit
    rw [h.limit]
  have htable : checkTable settings other layout = checkTable settings query layout := by
    unfold checkTable
    rw [h.table]
  unfold compile
  refine (Outcome.Alike.of_eq Error.Alike.same hlimit.symm).bind fun limit _ hsame => ?_
  subst hsame
  refine (Outcome.Alike.of_eq Error.Alike.same htable.symm).bind fun _ _ _ => ?_
  refine (bindSelection_alike h).bind fun selection selection' hselection => ?_
  refine (bindConditions_alike h).bind fun bound bound' hbound => ?_
  have hclustering := checkClusteringFrom_alike hbound none layout.clusteringFields
  refine (Outcome.Alike.of_eq Error.Alike.same hclustering.symm).bind fun _ _ _ => ?_
  refine (checkIndexed_alike hbound).bind fun checked checked' hchecked => ?_
  have hreversal : checkReversal other checked'.1 layout = checkReversal query checked.1 layout :=
    checkReversal_alike hchecked.1 h.reversed
  refine (Outcome.Alike.of_eq Error.Alike.same hreversal.symm).bind fun _ _ _ => ?_
  exact .ok ⟨rfl, rfl, h.consistency, h.reversed, h.count, hselection, hchecked.1, hchecked.2, rfl⟩

end Plan

end WideColumn
