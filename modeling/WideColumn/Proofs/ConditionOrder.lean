import WideColumn.Plan.Reconstruct
import WideColumn.Proofs.Acceptance
import WideColumn.Proofs.Answers

/-!
# `WideColumn.Proofs.ConditionOrder`: the order of the where clause

Relations are bound one after the other, and whether one is taken depends on what its field
has already. Still the order of the where clause does not matter. Relations on different
fields do not see each other. Of two relations on one field that are both taken, one bounds
it below and the other above, and these two can change places. The theorems:

* `Extends.swap`: two relations that are taken one after the other can change places.
* `Gathers.perm`: relations on one field add up to the same restriction in every order.
* `exists_bindConditions_perm`: so do those of a whole where clause, field by field.
* `compile_reordered`: a query is compiled to the same plan, up to the order in which its
  restrictions are listed.
* `compile_perm`: acceptance, restrictions and answers are the same.

Nothing is said of the errors. A query that is refused can be refused for another relation
when its relations stand in another order.
-/

set_option autoImplicit false

namespace WideColumn

namespace Restrictions

variable {role : Role} {relations others : List Relation} {restriction : Option Restriction}

/-- Two relations that are taken one after the other can change places. The second one finds
a range, so both are bounds, of different sides. -/
theorem Extends.swap {before : Option Restriction} {first second : Relation}
    {between after : Restriction} (hfirst : Extends role before first between)
    (hsecond : Extends role (some between) second after) :
    ∃ between', Extends role before second between' ∧
      Extends role (some between') first after := by
  -- Only a bound is taken after another relation, and then the first one has left its side
  -- open: it is a bound of the other side.
  cases hsecond with
  | lower name bound upper =>
      generalize hopen : Restriction.range none upper = between at hfirst
      cases hfirst with
      | equality | oneOf | lower => cases hopen
      | bound name' side bound' =>
          cases side with
          | lower => cases hopen
          | upper =>
              cases hopen
              exact ⟨_, .bound name .lower bound, .upper name' bound' (some bound)⟩
      | upper name' bound' lower =>
          cases hopen
          exact ⟨_, .lower name bound none, .upper name' bound' (some bound)⟩
  | upper name bound lower =>
      generalize hopen : Restriction.range lower none = between at hfirst
      cases hfirst with
      | equality | oneOf | upper => cases hopen
      | bound name' side bound' =>
          cases side with
          | upper => cases hopen
          | lower =>
              cases hopen
              exact ⟨_, .bound name .upper bound, .lower name' bound' (some bound)⟩
      | lower name' bound' upper =>
          cases hopen
          exact ⟨_, .upper name bound none, .lower name' bound' (some bound)⟩

/-- Relations on one field add up to the same restriction in every order. -/
theorem Gathers.perm (h : Gathers role relations restriction) (hperm : relations.Perm others) :
    Gathers role others restriction := by
  -- The last relation is gathered last, so it comes first when the list is read backwards.
  have hreverse : ∀ {one other : List Relation}, one.Perm other → ∀ {restriction},
      Gathers role one.reverse restriction → Gathers role other.reverse restriction := by
    intro one other hperm
    induction hperm with
    | nil => exact id
    | cons relation _ ih =>
        intro restriction h
        rw [List.reverse_cons] at h ⊢
        obtain ⟨before, after, hbefore, hextends, rfl⟩ := gathers_snoc_iff.mp h
        exact .snoc (ih hbefore) hextends
    | swap last relation rest =>
        intro restriction h
        simp only [List.reverse_cons] at h ⊢
        obtain ⟨_, after, hbetween, hlast, rfl⟩ := gathers_snoc_iff.mp h
        obtain ⟨before, between, hbefore, hrelation, rfl⟩ := gathers_snoc_iff.mp hbetween
        obtain ⟨between', hlast', hrelation'⟩ := hrelation.swap hlast
        exact .snoc (.snoc hbefore hlast') hrelation'
    | trans _ _ ih ih' => exact fun h => ih' (ih h)
  have hback : relations.reverse.Perm others.reverse :=
    (List.reverse_perm relations).trans (hperm.trans (List.reverse_perm others).symm)
  have hgathers := @hreverse _ _ hback restriction
  rw [List.reverse_reverse, List.reverse_reverse] at hgathers
  exact hgathers h

end Restrictions

/-! ### Restrictions with the same terms -/

namespace Restriction

variable {restriction other : Restriction}

/-- A restriction is like itself. -/
theorem Alike.refl (restriction : Restriction) : restriction.Alike Eq restriction := by
  have hbound : ∀ bound : Option Bound, Option.Rel (Bound.Alike Eq) bound bound := by
    intro bound
    cases bound with
    | none => exact .none
    | some bound => exact .some ⟨rfl, rfl⟩
  cases restriction with
  | equality values => exact .equality (List.forall₂_refl values)
  | range lower upper => exact .range (hbound lower) (hbound upper)

/-- With equality of terms, restrictions that are alike are the same. -/
theorem Alike.eq (h : restriction.Alike Eq other) : other = restriction := by
  have hbound : ∀ bound bound' : Option Bound, Option.Rel (Bound.Alike Eq) bound bound' →
      bound' = bound := by
    intro bound bound' hrel
    cases hrel with
    | none => rfl
    | some h => rw [Bound.eq_iff.mpr ⟨h.inclusive, h.term.symm⟩]
  cases h with
  | equality terms =>
      rw [List.forall₂_eq_eq_eq] at terms
      rw [terms]
  | range lowers uppers => rw [hbound _ _ lowers, hbound _ _ uppers]

end Restriction

namespace Restrictions

variable {restrictions others : Restrictions}

/-- Restrictions with the same terms are the same for every field. They can still be listed in
another order. -/
theorem alike_eq_iff : Alike (fun _ => Eq) restrictions others ↔
    ∀ field, others.get? field = restrictions.get? field := by
  constructor
  · intro h field
    rcases h.cases field with ⟨hone, hother⟩ | ⟨_, _, hone, hother, hfield⟩
    · rw [hone, hother]
    · rw [hone, hother, hfield.eq]
  · intro h field
    rw [h field]
    cases restrictions.get? field with
    | none => exact .none
    | some restriction => exact .some (.refl restriction)

end Restrictions

/-! ### The whole query -/

namespace Plan

open Restrictions (Gathers)

variable {settings : Settings} {query : Query} {layout : Layout} {indexed : List String}
  {plan : Plan} {bound : Restrictions} {conditions : List Relation}

/-- Fields are restricted by relations on them only, and a value field by none. -/
theorem get?_eq_none_of_name (h : bindConditions settings query layout = .ok bound)
    {name : String} (hname : ∀ field ∈ layout.fields, field.name = name → field.role = .value) :
    bound.get? name = none := by
  refine bindConditions_induction (motive := fun _ restrictions =>
    restrictions.get? name = none) rfl ?_ h
  intro seen before relation field restriction ih hmem _ hrole _
  have hother : name ≠ field.name := fun heq => hrole (hname field hmem heq.symm)
  rw [Restrictions.get?_set, if_neg hother]
  exact ih

/-- A where clause is bound in every order, and every field gets the same restriction. -/
theorem exists_bindConditions_perm (h : bindConditions settings query layout = .ok bound)
    (hperm : query.conditions.Perm conditions) :
    ∃ bound', bindConditions settings { query with conditions } layout = .ok bound' ∧
      ∀ name, bound'.get? name = bound.get? name := by
  have hgathers : ∀ field ∈ layout.fields,
      Gathers field.role (relationsOn settings conditions field.name)
        (bound.get? field.name) :=
    fun field hfield => (bindConditions_gathered h hfield).perm (hperm.filter _)
  have hresolved : Resolved settings layout conditions := fun relation hrelation =>
    bindConditions_resolved h relation (hperm.mem_iff.mpr hrelation)
  obtain ⟨bound', hbound'⟩ := @exists_bindConditions settings { query with conditions } layout
    hresolved fun field hfield => ⟨_, hgathers field hfield⟩
  refine ⟨bound', hbound', fun name => ?_⟩
  -- Restrictions are kept by name, and not every name is that of a field.
  by_cases hname : ∀ field ∈ layout.fields, field.name = name → field.role = .value
  · rw [get?_eq_none_of_name h hname, get?_eq_none_of_name hbound' hname]
  · push Not at hname
    obtain ⟨field, hfield, rfl, hrole⟩ := hname
    exact (bindConditions_gathered hbound' hfield).unique hrole (hgathers field hfield)

/-- A query that is accepted is accepted with its relations in any order, and its plan differs
in nothing but the order in which restrictions are listed. -/
theorem compile_reordered (h : compile settings query layout indexed = .ok plan)
    (hperm : query.conditions.Perm conditions) :
    ∃ restrictions,
      compile settings { query with conditions } layout indexed =
        .ok { plan with restrictions } ∧
      ∀ name, restrictions.get? name = plan.restrictions.get? name := by
  obtain ⟨bound, hcompiled⟩ := compile_eq_ok h
  obtain ⟨bound', hbound', hsame⟩ := exists_bindConditions_perm hcompiled.conditions hperm
  have halike := Restrictions.alike_eq_iff.mpr hsame
  have hclustering : checkClustering bound' layout = .ok () :=
    (checkClusteringFrom_alike halike none layout.clusteringFields).trans hcompiled.clustering
  have hindexed : Outcome.Alike Error.Alike _ (checkIndexed bound layout indexed)
      (checkIndexed bound' layout indexed) := checkIndexed_alike halike
  rw [hcompiled.index] at hindexed
  obtain ⟨⟨restrictions, isIndexed⟩, hchecked, hrestrictions, rfl⟩ := hindexed.exists_ok
  have hreversal : checkReversal { query with conditions } restrictions layout = .ok () :=
    (checkReversal_alike hrestrictions rfl).trans hcompiled.reversal
  refine ⟨restrictions, ?_, Restrictions.alike_eq_iff.mp hrestrictions⟩
  -- The checks of the limit, the table and the select clause see no relations.
  have hlimit : checkLimit { query with conditions } = .ok plan.limit := hcompiled.limit
  have htable : checkTable settings { query with conditions } layout = .ok () := hcompiled.table
  have hselection : bindSelection settings { query with conditions } layout =
      .ok plan.selection := hcompiled.selection
  unfold compile
  simp only [hlimit, htable, hselection, hbound', hclustering, hchecked, hreversal,
    Outcome.ok_bind, Outcome.pure_eq_ok]
  rw [← hcompiled.layout_eq, ← hcompiled.consistency_eq, ← hcompiled.reversed_eq,
    ← hcompiled.count_eq, ← hcompiled.countColumn_eq]

/-- The order of the where clause does not matter. A query is accepted exactly where it is
accepted with its relations in another order. The two plans have the same restrictions, and so
they ask storage for the same and answer the same. -/
theorem compile_perm (settings : Settings) (query : Query) (layout : Layout)
    (indexed : List String) {conditions : List Relation}
    (hperm : conditions.Perm query.conditions) :
    ((∃ other, compile settings { query with conditions } layout indexed = .ok other) ↔
      ∃ plan, compile settings query layout indexed = .ok plan) ∧
    ∀ plan other, compile settings query layout indexed = .ok plan →
      compile settings { query with conditions } layout indexed = .ok other →
        other.indexed = plan.indexed ∧
        (∀ field, other.restriction? field = plan.restriction? field) ∧
        (∀ vars, SameAnswers plan other vars vars) ∧
        ∀ stored, other.process stored = plan.process stored := by
  refine ⟨⟨?_, ?_⟩, fun plan other hplan hother => ?_⟩
  · rintro ⟨other, hother⟩
    obtain ⟨restrictions, hcompile, -⟩ := compile_reordered hother hperm
    exact ⟨_, hcompile⟩
  · rintro ⟨plan, hplan⟩
    obtain ⟨restrictions, hcompile, -⟩ := compile_reordered hplan hperm.symm
    exact ⟨_, hcompile⟩
  · obtain ⟨restrictions, hcompile, hsame⟩ := compile_reordered hplan hperm.symm
    obtain rfl := Except.ok.inj (hcompile.symm.trans hother)
    -- The plans differ in their restrictions only, which reconstruction does not read.
    have halike : plan.Alike (fun _ => Eq) { plan with restrictions } :=
      ⟨rfl, rfl, rfl, rfl, rfl, rfl, Restrictions.alike_eq_iff.mpr hsame, rfl, rfl⟩
    refine ⟨rfl, fun field => hsame field.name, fun vars => halike.sameAnswers ?_, fun _ => rfl⟩
    rintro field - term _ rfl
    rfl

/-- The visits of one guest between two hours of a day. -/
def visitsBetween : Query :=
  { table := "visits"
    conditions := [.compare ⟨"hour", true⟩ .gte (.bind 2), .compare ⟨"hour", true⟩ .lt (.bind 3),
      .compare ⟨"guest", true⟩ .eq (.bind 0), .compare ⟨"day", true⟩ .eq (.bind 1)] }

/-- Read backwards the where clause starts with the day and gives the later hour first. -/
theorem compile_perm_visits :
    ∃ plan other, compile { identifierCase := .preserve } visitsBetween visits [] = .ok plan ∧
      compile { identifierCase := .preserve }
        { visitsBetween with conditions := visitsBetween.conditions.reverse } visits [] =
          .ok other ∧
      other.restriction? ⟨"hour", .clustering 1, .int32⟩ =
        some (.range (some ⟨.bind 2, true⟩) (some ⟨.bind 3, false⟩)) ∧
      ∀ vars, other.cellBound .lower vars = plan.cellBound .lower vars := by
  obtain ⟨haccepted, hsame⟩ := compile_perm { identifierCase := .preserve } visitsBetween visits
    [] (List.reverse_perm visitsBetween.conditions)
  obtain ⟨other, hother⟩ := haccepted.mpr ⟨_, rfl⟩
  obtain ⟨-, hrestriction, hanswers, -⟩ := hsame _ other rfl hother
  exact ⟨_, other, rfl, hother, (hrestriction _).trans rfl, fun vars => (hanswers vars).cellBound _⟩

end Plan

end WideColumn
