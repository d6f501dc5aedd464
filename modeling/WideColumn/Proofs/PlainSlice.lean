import WideColumn.Proofs.KeyScan
import WideColumn.Proofs.Pushdown

/-!
# `WideColumn.Proofs.PlainSlice`: slices of names that are not composite

In a dynamic table the name of a cell is the value of the one clustering field. Such a name
has no marker to leave it out of a slice it ends, so strict bounds are read as inclusive
ones. And it can be empty, like the name that tells an open end: a slice that is to end with
the empty name looks like one that has no end. The theorems:

* `within_iff_sides`: the two ends of a slice.
* `within_iff_boundHolds`: one end, and the bound it is made of.
* `Compiled.nameHolds_iff` / `Compiled.endsEmpty_iff`: what the query says of the two bounds.

A slice covers the names that the query asks for, and others exactly where it is to end with
the empty name.
-/

set_option autoImplicit false

namespace WideColumn

/-- The operator with the value itself let in. -/
def Operator.closed : Operator → Operator
  | .gt => .gte
  | .lt => .lte
  | operator => operator

/-- Closing an operator keeps its side. -/
theorem Side.closed_operator (side : Side) (inclusive : Bool) :
    (side.operator inclusive).closed = side.operator true := by
  cases side <;> cases inclusive <;> rfl

/-- A name compares with the component of a term as the operator says, where strict
operators let in the component itself. -/
def NameCheck (field : Field) (vars : List Bytes) (name : Bytes) (operator : Operator)
    (term : Term) : Prop :=
  ∃ bytes, term.component field vars = .ok bytes ∧ operator.closed.Holds name bytes

namespace Query

variable (query : Query) (settings : Settings) (layout : Layout) (vars : List Bytes)

/-- Every relation on a clustering field holds of a name, which is its value. -/
def NameHolds (name : Bytes) : Prop :=
  ∀ relation ∈ query.conditions, ∀ field ∈ layout.clusteringFields,
    settings.normalize relation.field = field.name →
      relation.Admits (NameCheck field vars name)

/-- Some relation bounds a clustering field from above by what is empty inside a name. -/
def EndsEmpty : Prop :=
  ∃ field ∈ layout.clusteringFields, ∃ inclusive term,
    query.Compares settings field (Side.operator .upper inclusive) term ∧
      term.component field vars = .ok []

end Query

/-- A name is within a slice where it is on the inner side of both ends. No name is before
the empty one, so an open start needs no mention. -/
theorem within_iff_sides (start finish name : Bytes) :
    Within start finish name ↔
      Side.Within .lower start true name ∧ Side.Within .upper finish true name := by
  have hopen : start = [] → start ≤ name := by
    rintro rfl
    exact List.nil_le name
  exact and_congr_left fun _ => (or_iff_right_of_imp hopen).symm

namespace Plan

open Restrictions (comparisonsOf)

variable {settings : Settings} {query : Query} {layout : Layout} {indexed : List String}
  {plan : Plan} {bound : Restrictions} {vars : List Bytes} {name : Bytes} {field : Field}
  {side : Side}

/-! ### One end -/

/-- The bound of a field on a side. -/
def fieldBound? (plan : Plan) (field : Field) (side : Side) : Option Bound :=
  (plan.restriction? field).bind fun restriction => restriction.bound? side

/-- The bound of a field on a side holds of a name, if there is a bound. -/
def BoundHolds (plan : Plan) (vars : List Bytes) (field : Field) (side : Side)
    (name : Bytes) : Prop :=
  ∀ b, plan.fieldBound? field side = some b → b.Admits (NameCheck field vars name) side

/-- Where the field has no bound on a side, every name is within. -/
theorem boundHolds_of_none (h : plan.fieldBound? field side = none) :
    plan.BoundHolds vars field side name := by
  intro b hb
  rw [h] at hb
  cases hb

/-- A bound that is there is compared with the name as bytes, and is always included. -/
theorem boundHolds_iff {b : Bound} {bytes : Bytes} (h : plan.fieldBound? field side = some b)
    (hbytes : b.term.component field vars = .ok bytes) :
    plan.BoundHolds vars field side name ↔ (side.operator true).Holds name bytes := by
  unfold BoundHolds
  simp [h, Bound.Admits, NameCheck, hbytes, Side.closed_operator]

/-- The end of a slice is the component of the bound there is. -/
theorem plainBound_cons (field : Field) (rest : List Field) :
    plan.plainBound side vars (field :: rest) =
      match plan.fieldBound? field side with
      | some b => b.term.component field vars
      | none => .ok [] :=
  rfl

/-- The end of a slice is open where there is no bound, and otherwise it is the component of
the bound. -/
theorem plainBound_cases {rest : List Field} {bytes : Bytes}
    (hbytes : plan.plainBound side vars (field :: rest) = .ok bytes) :
    plan.fieldBound? field side = none ∧ bytes = [] ∨
      ∃ b, plan.fieldBound? field side = some b ∧ b.term.component field vars = .ok bytes := by
  rw [plainBound_cons] at hbytes
  cases hbound : plan.fieldBound? field side with
  | none =>
      rw [hbound] at hbytes
      exact .inl ⟨rfl, (Except.ok.inj hbytes).symm⟩
  | some b =>
      rw [hbound] at hbytes
      exact .inr ⟨b, rfl, hbytes⟩

/-- A name is on the inner side of an end where the bound there holds of it, or the end looks
open. -/
theorem within_iff_boundHolds {rest : List Field} {bytes : Bytes}
    (hbytes : plan.plainBound side vars (field :: rest) = .ok bytes) :
    side.Within bytes true name ↔ bytes = [] ∨ plan.BoundHolds vars field side name := by
  rcases plainBound_cases hbytes with ⟨hnone, rfl⟩ | ⟨b, hsome, hcomponent⟩
  · exact iff_of_true (.inl rfl) (.inl rfl)
  · exact or_congr_right (boundHolds_iff hsome hcomponent).symm

/-- A lower bound by the empty name leaves no name out, as an open start does. -/
theorem within_lower_iff {rest : List Field} {start : Bytes}
    (hstart : plan.plainBound .lower vars (field :: rest) = .ok start) :
    Side.Within .lower start true name ↔ plan.BoundHolds vars field .lower name := by
  rw [within_iff_boundHolds hstart]
  refine or_iff_right_of_imp ?_
  rintro rfl
  rcases plainBound_cases hstart with ⟨hnone, -⟩ | ⟨b, hsome, hempty⟩
  · exact boundHolds_of_none hnone
  · exact (boundHolds_iff hsome hempty).mpr (List.nil_le name)

/-- An upper bound by the empty name leaves out all names but that one, and an open end leaves
out none. -/
theorem within_upper_iff {rest : List Field} {finish : Bytes}
    (hfinish : plan.plainBound .upper vars (field :: rest) = .ok finish)
    (hbound : ∀ b, plan.fieldBound? field .upper = some b →
      b.term.component field vars ≠ .ok []) :
    Side.Within .upper finish true name ↔ plan.BoundHolds vars field .upper name := by
  rw [within_iff_boundHolds hfinish]
  refine or_iff_right_of_imp ?_
  rintro rfl
  rcases plainBound_cases hfinish with ⟨hnone, -⟩ | ⟨b, hsome, hempty⟩
  · exact boundHolds_of_none hnone
  · exact absurd hempty (hbound b hsome)

/-! ### The bounds and the query -/

namespace Compiled

/-- A slice of plain names is over one field, which has no equality. -/
theorem exists_sliceField (h : Compiled settings query layout indexed plan bound)
    (hkind : layout.kind = .dynamic) (hslice : plan.isCellSlice = true) :
    ∃ field, layout.clusteringFields = [field] ∧ plan.hasEquality field = false := by
  have hone : layout.clusteringFields.length = 1 := by
    rw [Layout.length_clusteringFields, Layout.length_clustering_of_dynamic hkind]
  obtain ⟨field, hfields⟩ := List.length_eq_one_iff.mp hone
  refine ⟨field, hfields, ?_⟩
  rw [isCellSlice, h.layout_eq, hfields] at hslice
  simpa using (Bool.and_eq_true_iff.mp hslice).2

/-- The relations on the field of a slice say what its bounds say. -/
theorem nameHolds_iff (h : Compiled settings query layout indexed plan bound)
    (hfields : layout.clusteringFields = [field]) (hequality : plan.hasEquality field = false) :
    query.NameHolds settings layout vars name ↔
      plan.BoundHolds vars field .lower name ∧ plan.BoundHolds vars field .upper name := by
  have hmem : field ∈ layout.clusteringFields := hfields ▸ List.mem_singleton_self field
  have hrelations : query.NameHolds settings layout vars name ↔
      ∀ relation ∈ query.conditions, settings.normalize relation.field = field.name →
        relation.Admits (NameCheck field vars name) := by
    unfold Query.NameHolds
    simp only [hfields, List.mem_singleton, forall_eq]
  rw [hrelations, ← h.admit_iff (Layout.clusteringFields_subset hmem)
    (Layout.role_ne_of_mem_clusteringFields hmem)]
  unfold BoundHolds fieldBound?
  unfold hasEquality at hequality
  cases hget : plan.restriction? field with
  | none => simp
  | some restriction =>
      cases restriction with
      | equality values => rw [hget] at hequality; cases hequality
      | range lower upper => simp [Restriction.Admits, Restriction.bound?]

/-- The upper bound is what the query compares the field of a slice with. -/
theorem fieldBound?_iff (h : Compiled settings query layout indexed plan bound)
    (hmem : field ∈ layout.clusteringFields) (hequality : plan.hasEquality field = false)
    {b : Bound} :
    plan.fieldBound? field side = some b ↔
      query.Compares settings field (side.operator b.inclusive) b.term := by
  have hfield := Layout.clusteringFields_subset hmem
  rw [compares_iff h.conditions hfield,
    ← h.restriction?_eq hfield (Layout.role_ne_of_mem_clusteringFields hmem)]
  unfold hasEquality at hequality
  unfold fieldBound?
  cases hget : plan.restriction? field with
  | none => simp [comparisonsOf]
  | some restriction =>
      cases restriction with
      | equality values => rw [hget] at hequality; cases hequality
      | range lower upper => exact Restriction.mem_comparisons_range_iff.symm

/-- The query ends a slice with the empty name where its upper bound has no bytes. -/
theorem endsEmpty_iff (h : Compiled settings query layout indexed plan bound)
    (hfields : layout.clusteringFields = [field]) (hequality : plan.hasEquality field = false) :
    query.EndsEmpty settings layout vars ↔
      ∃ b, plan.fieldBound? field .upper = some b ∧ b.term.component field vars = .ok [] := by
  have hmem : field ∈ layout.clusteringFields := hfields ▸ List.mem_singleton_self field
  unfold Query.EndsEmpty
  simp only [hfields, List.mem_singleton, exists_eq_left]
  constructor
  · rintro ⟨inclusive, term, hcompares, hempty⟩
    exact ⟨⟨term, inclusive⟩, (h.fieldBound?_iff hmem hequality).mpr hcompares, hempty⟩
  · rintro ⟨b, hbound, hempty⟩
    exact ⟨b.inclusive, b.term, (h.fieldBound?_iff hmem hequality).mp hbound, hempty⟩

end Compiled

/-! ### What a slice covers -/

/-- The bounds of a slice of plain names are those of its field. -/
theorem cellBound_dynamic (hkind : plan.layout.kind = .dynamic) (hslice : plan.isCellSlice = true)
    (hfields : plan.layout.clusteringFields = [field]) (side : Side) :
    plan.cellBound side vars = plan.plainBound side vars [field] := by
  rw [cellBound, hslice, hkind, hfields]
  rfl

/-- A slice that is to end with the empty name has no end. -/
theorem Compiled.within_of_endsEmpty (h : Compiled settings query layout indexed plan bound)
    (hfields : layout.clusteringFields = [field]) (hequality : plan.hasEquality field = false)
    {finish : Bytes} (hfinish : plan.plainBound .upper vars [field] = .ok finish)
    (hends : query.EndsEmpty settings layout vars) (start name : Bytes) :
    (Within start finish name ↔ start ≤ name) ∧
      (query.NameHolds settings layout vars name → name = []) := by
  obtain ⟨b, hbound, hcomponent⟩ := (h.endsEmpty_iff hfields hequality).mp hends
  rw [plainBound_cons, hbound] at hfinish
  obtain rfl : [] = finish := Except.ok.inj (hcomponent.symm.trans hfinish)
  refine ⟨and_iff_left (.inl rfl), fun hname => ?_⟩
  have hupper := ((h.nameHolds_iff hfields hequality).mp hname).2
  exact List.le_nil.mp ((boundHolds_iff hbound hcomponent).mp hupper)

/-- A slice covers every name the query asks for. It covers no other one exactly where the
query does not end it with the empty name. Where it does, all names from the start on are
covered, though no other than the empty one is asked for. -/
theorem plainSlice_covers_iff (h : compile settings query layout indexed = .ok plan)
    (hkind : layout.kind = .dynamic) (hslice : plan.isCellSlice = true) {start finish : Bytes}
    (hstart : plan.cellBound .lower vars = .ok start)
    (hfinish : plan.cellBound .upper vars = .ok finish) :
    ((∀ name, Within start finish name ↔ query.NameHolds settings layout vars name) ↔
      ¬ query.EndsEmpty settings layout vars) ∧
    (∀ name, query.NameHolds settings layout vars name → Within start finish name) ∧
    (query.EndsEmpty settings layout vars → ∀ name,
      (Within start finish name ↔ start ≤ name) ∧
        (query.NameHolds settings layout vars name → name = [])) := by
  obtain ⟨bound, hcompiled⟩ := compile_eq_ok h
  obtain ⟨field, hfields, hequality⟩ := hcompiled.exists_sliceField hkind hslice
  obtain rfl := hcompiled.layout_eq
  rw [cellBound_dynamic hkind hslice hfields] at hstart hfinish
  have hempty : query.EndsEmpty settings plan.layout vars → ∀ name,
      (Within start finish name ↔ start ≤ name) ∧
        (query.NameHolds settings plan.layout vars name → name = []) :=
    fun hends => hcompiled.within_of_endsEmpty hfields hequality hfinish hends start
  refine ⟨⟨fun hexact hends => ?_, fun hends name => ?_⟩, fun name hname => ?_, hempty⟩
  · -- One byte more than the start is covered, and is not the empty name.
    obtain ⟨hcovers, hasked⟩ := hempty hends (start ++ [0])
    have hwithin : Within start finish (start ++ [0]) := hcovers.mpr List.le_append_left
    exact absurd (hasked ((hexact _).mp hwithin)) (by simp)
  · have hbound : ∀ b, plan.fieldBound? field .upper = some b →
        b.term.component field vars ≠ .ok [] := fun b hsome hcomponent =>
      hends ((hcompiled.endsEmpty_iff hfields hequality).mpr ⟨b, hsome, hcomponent⟩)
    rw [within_iff_sides, hcompiled.nameHolds_iff hfields hequality, within_lower_iff hstart,
      within_upper_iff hfinish hbound]
  · obtain ⟨hlower, hupper⟩ := (hcompiled.nameHolds_iff hfields hequality).mp hname
    rw [within_iff_sides, within_lower_iff hstart, within_iff_boundHolds hfinish]
    exact ⟨hlower, .inr hupper⟩

/-- A table of what users have posted, by the time of it. -/
def timeline : Layout :=
  { name := "timeline", kind := .dynamic, key := ⟨"user", .utf8⟩
    clustering := [⟨"posted", .utf8⟩], value := some ⟨"body", .utf8⟩
    fits_kind := by decide, names_nodup := by decide }

/-- What a user has posted from one time on and before another. -/
def postedBetween : Query :=
  { table := "timeline"
    conditions := [.compare ⟨"user", true⟩ .eq (.bind 0), .compare ⟨"posted", true⟩ .gte (.bind 1),
      .compare ⟨"posted", true⟩ .lt (.bind 2)] }

/-- From the first time on and up to the second one, which is let in. -/
theorem plainSlice_covers_iff_timeline :
    ∃ plan start finish,
      compile { identifierCase := .preserve } postedBetween timeline [] = .ok plan ∧
      plan.cellBound .lower [[0x75], [0x61], [0x63]] = .ok start ∧
      plan.cellBound .upper [[0x75], [0x61], [0x63]] = .ok finish ∧
      (∀ name, Within start finish name ↔ postedBetween.NameHolds { identifierCase := .preserve }
        timeline [[0x75], [0x61], [0x63]] name) ∧
      Within start finish [0x63] ∧ ¬ Within start finish [0x63, 0x00] := by
  have hcovers := @plainSlice_covers_iff { identifierCase := .preserve } postedBetween timeline
    [] _ [[0x75], [0x61], [0x63]] rfl rfl rfl _ _ rfl rfl
  refine ⟨_, _, _, rfl, rfl, rfl, hcovers.1.mpr ?_, by decide, by decide⟩
  rintro ⟨field, hfield, inclusive, term, ⟨relation, hrelation, hname, hmem⟩, hempty⟩
  obtain rfl := List.mem_singleton.mp hfield
  simp only [postedBetween, List.mem_cons, List.not_mem_nil, or_false] at hrelation
  -- Of the three relations only the last is on the field and bounds it from above.
  rcases hrelation with rfl | rfl | rfl
  · exact absurd hname (by decide)
  · cases inclusive <;> simp [Relation.comparisons, Side.operator] at hmem
  · obtain ⟨-, rfl⟩ := Prod.mk.inj (List.mem_singleton.mp hmem)
    cases hempty

/-- Nothing is before the empty name, and yet everything that was posted from the first time
on is read. -/
theorem plainSlice_excess_timeline :
    ∃ plan start finish,
      compile { identifierCase := .preserve } postedBetween timeline [] = .ok plan ∧
      plan.cellBound .lower [[0x75], [0x61], []] = .ok start ∧
      plan.cellBound .upper [[0x75], [0x61], []] = .ok finish ∧
      Within start finish [0x62] ∧
      ¬ postedBetween.NameHolds { identifierCase := .preserve } timeline
        [[0x75], [0x61], []] [0x62] := by
  refine ⟨_, _, _, rfl, rfl, rfl, by decide, fun hname => ?_⟩
  have hbefore := hname (.compare ⟨"posted", true⟩ .lt (.bind 2)) (by simp [postedBetween])
    ⟨"posted", .clustering 0, .utf8⟩ (List.mem_singleton_self _) rfl
  obtain ⟨bytes, hbytes, hholds⟩ := hbefore
  cases hbytes
  exact absurd hholds (by decide)

end Plan

end WideColumn
