import Mathlib.Data.List.Induction
import WideColumn.Proofs.Conditions

/-!
# `WideColumn.Proofs.Binding`: exactly when a where clause is bound

Relations are bound one after the other, and each one only touches the restriction of
its own field. So what a where clause is bound to can be told field by field, from the
relations on the field in their order. The theorems:

* `Gathers`: relations on one field that add up to a restriction, and to one only
  (`Gathers.unique`).
* `bindConditions_resolved` / `bindConditions_gathered`: what a where clause that is
  bound says of every relation and of every field.
* `exists_bindConditions`: a where clause of which this can be said is bound.
-/

set_option autoImplicit false

namespace WideColumn

namespace Restrictions

variable {role : Role} {seen : List Relation} {relation : Relation}
  {restriction : Option Restriction}

/-- Relations on a field with a role that add up to one restriction, or to none where
there are no relations. -/
inductive Gathers (role : Role) : List Relation → Option Restriction → Prop
  | nil : Gathers role [] none
  | snoc {seen : List Relation} {before : Option Restriction} {relation : Relation}
    {after : Restriction} (gathered : Gathers role seen before)
    (extended : Extends role before relation after) :
    Gathers role (seen ++ [relation]) (some after)

/-- No relations say nothing. -/
theorem gathers_nil_iff : Gathers role [] restriction ↔ restriction = none := by
  constructor
  · intro h
    generalize hrelations : [] = relations at h
    cases h with
    | nil => rfl
    | snoc gathered extended => exact absurd hrelations.symm (by simp)
  · rintro rfl
    exact .nil

/-- What relations say together is what the last one adds to the others. -/
theorem gathers_snoc_iff :
    Gathers role (seen ++ [relation]) restriction ↔ ∃ before after,
      Gathers role seen before ∧ Extends role before relation after ∧
        restriction = some after := by
  constructor
  · intro h
    generalize hrelations : seen ++ [relation] = relations at h
    cases h with
    | nil => exact absurd hrelations (by simp)
    | snoc gathered extended =>
        obtain ⟨rfl, hlast⟩ := List.append_inj' hrelations rfl
        cases hlast
        exact ⟨_, _, gathered, extended, rfl⟩
  · rintro ⟨before, after, gathered, extended, rfl⟩
    exact .snoc gathered extended

/-- A relation turns a restriction into one other restriction only. -/
theorem Extends.unique {before : Option Restriction} {after other : Restriction}
    (hrole : role ≠ .value) (h : Extends role before relation after)
    (h' : Extends role before relation other) : after = other := by
  -- Both are what a field of the role gets when the relation is bound.
  obtain ⟨restrictions, hbefore⟩ : ∃ restrictions : Restrictions,
      restrictions.get? "" = before := by
    cases before with
    | none => exact ⟨empty, rfl⟩
    | some restriction => exact ⟨empty.set "" restriction, by simp [get?_set]⟩
  have hbind : ∀ result, Extends role before relation result →
      Plan.bindRelation restrictions ⟨"", role, .bytes⟩ relation =
        .ok (restrictions.set "" result) := fun result hresult =>
    @Plan.bindRelation_of_extends restrictions ⟨"", role, .bytes⟩ before relation result hrole
      hbefore hresult
  have hsame := Except.ok.inj ((hbind after h).symm.trans (hbind other h'))
  have hget := congrArg (get? · "") hsame
  simpa only [get?_set, if_true, Option.some.injEq] using hget

/-- Relations add up to one restriction only. -/
theorem Gathers.unique {relations : List Relation} {other : Option Restriction}
    (hrole : role ≠ .value) (h : Gathers role relations restriction)
    (h' : Gathers role relations other) : restriction = other := by
  induction h generalizing other with
  | nil => exact (gathers_nil_iff.mp h').symm
  | snoc gathered extended ih =>
      obtain ⟨before, after, gathered', extended', rfl⟩ := gathers_snoc_iff.mp h'
      obtain rfl := ih gathered'
      rw [extended.unique hrole extended']

end Restrictions

namespace Plan

open Restrictions (Extends Gathers gathers_snoc_iff)

variable {settings : Settings} {query : Query} {layout : Layout} {restrictions : Restrictions}

/-- The relations on the field of a name. -/
def relationsOn (settings : Settings) (relations : List Relation) (name : String) :
    List Relation :=
  relations.filter fun relation => settings.normalize relation.field = name

/-- A relation on the field comes after the ones before. -/
theorem relationsOn_snoc_self {seen : List Relation} {relation : Relation} {name : String}
    (h : settings.normalize relation.field = name) :
    relationsOn settings (seen ++ [relation]) name =
      relationsOn settings seen name ++ [relation] := by
  simp [relationsOn, List.filter_append, h]

/-- A relation on another field is left out. -/
theorem relationsOn_snoc_other {seen : List Relation} {relation : Relation} {name : String}
    (h : settings.normalize relation.field ≠ name) :
    relationsOn settings (seen ++ [relation]) name = relationsOn settings seen name := by
  simp [relationsOn, List.filter_append, h]

/-- Every relation is on a field of the table, and on no value field. -/
def Resolved (settings : Settings) (layout : Layout) (relations : List Relation) : Prop :=
  ∀ relation ∈ relations, ∃ field ∈ layout.fields,
    field.name = settings.normalize relation.field ∧ field.role ≠ .value

/-- All names of a where clause that can be bound are names of fields. -/
theorem bindConditions_resolved (h : bindConditions settings query layout = .ok restrictions) :
    Resolved settings layout query.conditions := by
  refine bindConditions_induction (motive := fun seen _ => Resolved settings layout seen)
    (by simp [Resolved]) ?_ h
  intro seen before relation field restriction ih hmem hname hrole _ other hother
  rcases List.mem_append.mp hother with hseen | hlast
  · exact ih other hseen
  · rw [List.mem_singleton.mp hlast]
    exact ⟨field, hmem, hname, hrole⟩

/-- The relations on a field add up to the field's restriction. -/
theorem bindConditions_gathered (h : bindConditions settings query layout = .ok restrictions)
    {field : Field} (hfield : field ∈ layout.fields) :
    Gathers field.role (relationsOn settings query.conditions field.name)
      (restrictions.get? field.name) := by
  refine bindConditions_induction (motive := fun seen restrictions =>
    Gathers field.role (relationsOn settings seen field.name)
      (restrictions.get? field.name)) .nil ?_ h
  intro seen before relation other restriction ih hmem hname _ hextends
  rw [Restrictions.get?_set]
  by_cases heq : field.name = other.name
  · obtain rfl := Layout.eq_of_name_eq hfield hmem heq
    rw [if_pos rfl, relationsOn_snoc_self hname.symm]
    exact .snoc ih hextends
  · have hne : settings.normalize relation.field ≠ field.name := fun h => heq (h ▸ hname.symm)
    rw [if_neg heq, relationsOn_snoc_other hne]
    exact ih

/-- Every restriction is what some relation has turned another one into, or no
restriction. -/
theorem exists_extends (h : bindConditions settings query layout = .ok restrictions)
    {field : Field} (hfield : field ∈ layout.fields) {restriction : Restriction}
    (hget : restrictions.get? field.name = some restriction) :
    ∃ before relation, Extends field.role before relation restriction := by
  have hgathered := bindConditions_gathered h hfield
  rw [hget] at hgathered
  generalize relationsOn settings query.conditions field.name = relations at hgathered
  cases hgathered with
  | snoc gathered extended => exact ⟨_, _, extended⟩

/-- An equality has a value. -/
theorem bindConditions_some_value
    (h : bindConditions settings query layout = .ok restrictions) {field : Field}
    (hfield : field ∈ layout.fields) {values : List Term}
    (hvalues : restrictions.get? field.name = some (.equality values)) : values ≠ [] := by
  obtain ⟨before, relation, hextends⟩ := exists_extends h hfield hvalues
  exact hextends.some_value rfl

/-- Binding one more relation. -/
theorem bindConditions_snoc {seen : List Relation} {relation : Relation} {field : Field}
    {after : Restriction}
    (hseen : bindConditions settings { query with conditions := seen } layout = .ok restrictions)
    (hfield : field ∈ layout.fields) (hname : field.name = settings.normalize relation.field)
    (hrole : field.role ≠ .value)
    (hextends : Extends field.role (restrictions.get? field.name) relation after) :
    bindConditions settings { query with conditions := seen ++ [relation] } layout =
      .ok (restrictions.set field.name after) := by
  have hresolve : resolve settings layout relation.field .condition = .ok field := by
    rw [resolve, Layout.lookup_eq_some_iff.mpr ⟨hfield, hname⟩]
  unfold bindConditions at hseen ⊢
  simp only [List.foldlM_append, List.foldlM_cons, List.foldlM_nil, hseen, hresolve,
    bindRelation_of_extends hrole rfl hextends, Outcome.ok_bind, Outcome.pure_eq_ok]

/-- A where clause is bound where its relations are on fields of the table and those on
every field add up to one restriction. -/
theorem exists_bindConditions (resolved : Resolved settings layout query.conditions)
    (gathered : ∀ field ∈ layout.fields, ∃ restriction,
      Gathers field.role (relationsOn settings query.conditions field.name) restriction) :
    ∃ restrictions, bindConditions settings query layout = .ok restrictions := by
  -- The induction is on the last relation, because restrictions are gathered from the front.
  generalize hquery : query.conditions = relations at resolved gathered
  suffices h : ∃ restrictions,
      bindConditions settings { query with conditions := relations } layout = .ok restrictions by
    rwa [← hquery] at h
  clear hquery
  induction relations using List.reverseRecOn with
  | nil => exact ⟨Restrictions.empty, rfl⟩
  | append_singleton seen relation ih =>
      obtain ⟨field, hfield, hname, hrole⟩ :=
        resolved relation (List.mem_append_right _ List.mem_cons_self)
      have hlast : ∀ restriction,
          Gathers field.role (relationsOn settings (seen ++ [relation]) field.name) restriction →
          ∃ before after, Gathers field.role (relationsOn settings seen field.name) before ∧
            Extends field.role before relation after := by
        intro restriction h
        rw [relationsOn_snoc_self hname.symm] at h
        obtain ⟨before, after, hbefore, hextends, -⟩ := gathers_snoc_iff.mp h
        exact ⟨before, after, hbefore, hextends⟩
      obtain ⟨restrictions, hbind⟩ := ih
        (fun other h => resolved other (List.mem_append_left _ h)) fun other hmem => by
          obtain ⟨restriction, h⟩ := gathered other hmem
          by_cases heq : other.name = settings.normalize relation.field
          · obtain rfl := Layout.eq_of_name_eq hmem hfield (heq.trans hname.symm)
            obtain ⟨before, -, hbefore, -⟩ := hlast restriction h
            exact ⟨before, hbefore⟩
          · rw [relationsOn_snoc_other (Ne.symm heq)] at h
            exact ⟨restriction, h⟩
      -- What the field has been restricted to so far is what the relation extends.
      obtain ⟨restriction, h⟩ := gathered field hfield
      obtain ⟨before, after, hbefore, hextends⟩ := hlast restriction h
      obtain rfl := (bindConditions_gathered hbind hfield).unique hrole hbefore
      exact ⟨_, bindConditions_snoc hbind hfield hname hrole hextends⟩

end Plan

end WideColumn
