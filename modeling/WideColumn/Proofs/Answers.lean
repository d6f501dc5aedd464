import WideColumn.Proofs.CellParts
import WideColumn.Proofs.Correspondence
import WideColumn.Proofs.IndexScan

/-!
# `WideColumn.Proofs.Answers`: plans that differ in their terms answer alike

A plan reads its terms through their values only. So plans that correspond give the same
answers with variables that make terms stand for the same values. The theorems:

* `Alike.single?_rel` and `Alike.bound?_rel`: what the plans read off a restriction.
* `Alike.keyScan_eq`, with `keys_eq` and `keyBound_eq`: the partitions.
* `Alike.cellNames_eq` and `Alike.cellBound_eq`: the cells.
* `Alike.indexPredicates_eq`: the index.
* `Alike.sameAnswers`: all of them.
-/

set_option autoImplicit false

namespace WideColumn.Plan

open Outcome (mapM_eq_of_forall₂)

/-- Terms that correspond stand for the same values of every field. -/
def SameValues (R : String → Term → Term → Prop) (layout : Layout) (vars vars' : List Bytes) :
    Prop :=
  ∀ field ∈ layout.fields, ∀ term term', R field.name term term' →
    term'.value field vars' = term.value field vars

/-- The answers of a plan are those of another one, each given its own variables. -/
structure SameAnswers (plan other : Plan) (vars vars' : List Bytes) : Prop where
  keyScan : other.keyScan vars' = plan.keyScan vars
  keys : other.keys vars' = plan.keys vars
  keyBound : ∀ side, other.keyBound side vars' = plan.keyBound side vars
  cellNames : other.cellNames vars' = plan.cellNames vars
  cellBound : ∀ side, other.cellBound side vars' = plan.cellBound side vars
  indexPredicates : other.indexPredicates vars' = plan.indexPredicates vars

namespace Alike

variable {R : String → Term → Term → Prop} {plan other : Plan} {vars vars' : List Bytes}

/-- A field has no restriction in either plan, or two that correspond. -/
theorem restriction?_cases (h : plan.Alike R other) (field : Field) :
    plan.restriction? field = none ∧ other.restriction? field = none ∨
      ∃ restriction restriction', plan.restriction? field = some restriction ∧
        other.restriction? field = some restriction' ∧
        restriction.Alike (R field.name) restriction' :=
  h.restrictions.cases field.name

/-- The same fields have an equality, because corresponding restrictions are of one form. -/
theorem hasEquality_eq (h : plan.Alike R other) (field : Field) :
    other.hasEquality field = plan.hasEquality field :=
  any_isEquality_alike h.restrictions field.name

/-- A field has no single value in either plan, or two that correspond. -/
theorem single?_rel (h : plan.Alike R other) (field : Field) :
    Option.Rel (R field.name) (plan.single? field) (other.single? field) := by
  unfold Plan.single?
  rcases h.restriction?_cases field with ⟨hone, hother⟩ | ⟨_, _, hone, hother, hfield⟩
  · rw [hone, hother]
    exact .none
  · rw [hone, hother]
    exact hfield.single?

/-- A field has no bound on a side in either plan, or two that correspond. -/
theorem bound?_rel (h : plan.Alike R other) (field : Field) (side : Side) :
    Option.Rel (Bound.Alike (R field.name)) ((plan.restriction? field).bind (·.bound? side))
      ((other.restriction? field).bind (·.bound? side)) := by
  rcases h.restriction?_cases field with ⟨hone, hother⟩ | ⟨_, _, hone, hother, hfield⟩
  · rw [hone, hother]
    exact .none
  · rw [hone, hother]
    exact hfield.bound? side

/-! ### Partitions -/

/-- So partitions are read in the same way. -/
theorem isKeyRange_eq (h : plan.Alike R other) : other.isKeyRange = plan.isKeyRange := by
  unfold isKeyRange
  rw [h.indexed, h.layout, h.hasEquality_eq]

/-- The keys are the same where corresponding terms have the same values. -/
theorem keys_eq (h : plan.Alike R other) (hvalues : SameValues R plan.layout vars vars') :
    other.keys vars' = plan.keys vars := by
  unfold keys
  rw [h.layout]
  rcases h.restriction?_cases plan.layout.keyField with ⟨hone, hother⟩ |
    ⟨_, _, hone, hother, hfield⟩
  · rw [hone, hother]
  · rw [hone, hother]
    cases hfield with
    | equality terms => exact mapM_eq_of_forall₂ (terms.imp (hvalues _ plan.layout.keyField_mem))
    | range => rfl

/-- And so is each bound of a range of keys. -/
theorem keyBound_eq (h : plan.Alike R other) (hvalues : SameValues R plan.layout vars vars')
    (side : Side) : other.keyBound side vars' = plan.keyBound side vars := by
  have hkey := hvalues _ plan.layout.keyField_mem
  unfold keyBound
  rw [h.layout]
  rcases h.restriction?_cases plan.layout.keyField with ⟨hone, hother⟩ |
    ⟨_, _, hone, hother, hfield⟩
  · rw [hone, hother]
  · rw [hone, hother]
    have hbounds := rel_cases (hfield.bound? side)
    cases hfield with
    | equality terms =>
        cases terms with
        | nil => rfl
        | cons hterm hrest =>
            cases hrest with
            | nil => exact hkey _ _ hterm
            | cons => rfl
    | range =>
        rcases hbounds with ⟨hone, hother⟩ | ⟨_, _, hone, hother, hbound⟩
        · simp only [hone, hother]
        · simp only [hone, hother, hkey _ _ hbound.term]

/-- Whether the bound is a key of the range does not depend on its term. -/
theorem includesKeyBound_eq (h : plan.Alike R other) (side : Side) :
    other.includesKeyBound side = plan.includesKeyBound side := by
  unfold includesKeyBound
  rw [h.layout]
  rcases rel_cases (h.bound?_rel plan.layout.keyField side) with ⟨hone, hother⟩ |
    ⟨_, _, hone, hother, hbound⟩
  · rw [hone, hother]
  · rw [hone, hother]
    exact hbound.inclusive

/-- Put together, the same partitions are asked for. -/
theorem keyScan_eq (h : plan.Alike R other) (hvalues : SameValues R plan.layout vars vars') :
    other.keyScan vars' = plan.keyScan vars := by
  unfold keyScan
  simp only [h.isKeyRange_eq, h.keys_eq hvalues, h.keyBound_eq hvalues, h.includesKeyBound_eq]

/-! ### Cells -/

/-- Cells are read in the same way as well. -/
theorem isCellSlice_eq (h : plan.Alike R other) : other.isCellSlice = plan.isCellSlice := by
  unfold isCellSlice
  simp only [h.layout, h.hasEquality_eq]

/-- One plan selects all fields where the other does. -/
theorem isWildcard_eq (h : plan.Alike R other) : other.isWildcard = plan.isWildcard := by
  have hlength := congrArg List.isEmpty h.selection
  rwa [List.isEmpty_map, List.isEmpty_map] at hlength

/-- The plans select the same fields. -/
theorem map_field_columns (h : plan.Alike R other) :
    other.columns.map Selected.field = plan.columns.map Selected.field := by
  unfold columns
  rw [h.isWildcard_eq, h.layout]
  cases plan.isWildcard with
  | true => rfl
  | false => exact h.selection

/-- The selected metadata fields are the same, in the same order. -/
theorem metadataColumns_eq (h : plan.Alike R other) :
    other.metadataColumns = plan.metadataColumns := by
  unfold metadataColumns
  rw [h.map_field_columns]

/-- Corresponding terms have the same form inside cell names, or fail in the same way. -/
theorem component_eq (hvalues : SameValues R plan.layout vars vars') {field : Field}
    (hfield : field ∈ plan.layout.fields) {term term' : Term} (hterm : R field.name term term') :
    term'.component field vars' = term.component field vars := by
  unfold Term.component
  rw [hvalues field hfield term term' hterm]

/-- So exact names start with the same components. -/
theorem exactComponents_eq (h : plan.Alike R other)
    (hvalues : SameValues R plan.layout vars vars') :
    other.exactComponents vars' = plan.exactComponents vars := by
  unfold exactComponents
  rw [h.layout]
  refine mapM_eq_of_forall₂ (List.forall₂_same.mpr fun field hfield => ?_)
  have hmem := Layout.clusteringFields_subset hfield
  unfold exactComponent
  rcases rel_cases (h.single?_rel field) with ⟨hone, hother⟩ | ⟨_, _, hone, hother, hterm⟩
  · rw [hone, hother]
  · rw [hone, hother]
    exact component_eq hvalues hmem hterm

/-- The same for a name that is not composite. -/
theorem plainName_eq (h : plan.Alike R other) (hvalues : SameValues R plan.layout vars vars')
    {fields : List Field} (hfields : fields ⊆ plan.layout.fields) :
    other.plainName vars' fields = plan.plainName vars fields := by
  cases fields with
  | nil => rfl
  | cons field rest =>
      have hmem := hfields List.mem_cons_self
      unfold plainName
      rcases rel_cases (h.single?_rel field) with ⟨hone, hother⟩ | ⟨_, _, hone, hother, hterm⟩
      · simp only [hone, hother]
      · simp only [hone, hother, component_eq hvalues hmem hterm]

/-- Put together, the same cells are asked for by name. -/
theorem cellNames_eq (h : plan.Alike R other) (hvalues : SameValues R plan.layout vars vars') :
    other.cellNames vars' = plan.cellNames vars := by
  cases hslice : plan.isCellSlice with
  | true =>
      unfold cellNames
      rw [h.isCellSlice_eq, hslice]
      rfl
  | false =>
      have hslice' := h.isCellSlice_eq.trans hslice
      cases hkind : plan.layout.kind with
      | static =>
          unfold cellNames
          rw [hslice, hslice', h.layout, hkind, h.metadataColumns_eq]
      | sparse =>
          rw [cellNames_sparse hslice hkind, cellNames_sparse hslice' (by rw [h.layout, hkind]),
            h.exactComponents_eq hvalues, h.metadataColumns_eq]
      | dynamic =>
          unfold cellNames
          rw [hslice, hslice', h.layout, hkind]
          exact h.plainName_eq hvalues fun field => Layout.clusteringFields_subset
      | dense =>
          rw [cellNames_dense hslice hkind, cellNames_dense hslice' (by rw [h.layout, hkind]),
            h.exactComponents_eq hvalues]

/-- The parts of a bound are the same up to the first field without an equality, and there. -/
theorem boundParts_eq (h : plan.Alike R other) (hvalues : SameValues R plan.layout vars vars')
    (side : Side) {fields : List Field} (hfields : fields ⊆ plan.layout.fields) :
    other.boundParts side vars' fields = plan.boundParts side vars fields := by
  induction fields with
  | nil => rfl
  | cons field rest ih =>
      have hmem := hfields List.mem_cons_self
      have hrest := ih fun other hother => hfields (List.mem_cons_of_mem _ hother)
      unfold boundParts
      rcases h.restriction?_cases field with ⟨hone, hother⟩ | ⟨_, _, hone, hother, hfield⟩
      · rw [hone, hother]
      · rw [hone, hother]
        rcases rel_cases hfield.single? with ⟨hone, hother⟩ | ⟨_, _, hone, hother, hterm⟩
        · rcases rel_cases (hfield.bound? side) with ⟨hlow, hhigh⟩ |
            ⟨_, _, hlow, hhigh, hbound⟩
          · simp only [hone, hother, hlow, hhigh]
          · simp only [hone, hother, hlow, hhigh, component_eq hvalues hmem hbound.term,
              hbound.inclusive]
        · simp only [hone, hother, component_eq hvalues hmem hterm, hrest]

/-- The same for a bound that is not composite. -/
theorem plainBound_eq (h : plan.Alike R other) (hvalues : SameValues R plan.layout vars vars')
    (side : Side) {fields : List Field} (hfields : fields ⊆ plan.layout.fields) :
    other.plainBound side vars' fields = plan.plainBound side vars fields := by
  cases fields with
  | nil => rfl
  | cons field rest =>
      have hmem := hfields List.mem_cons_self
      unfold plainBound
      rcases rel_cases (h.bound?_rel field side) with ⟨hone, hother⟩ | ⟨_, _, hone, hother, hbound⟩
      · simp only [hone, hother]
      · simp only [hone, hother, component_eq hvalues hmem hbound.term]

/-- Put together, both bounds of a slice are the same. -/
theorem cellBound_eq (h : plan.Alike R other) (hvalues : SameValues R plan.layout vars vars')
    (side : Side) : other.cellBound side vars' = plan.cellBound side vars := by
  have hfields : plan.layout.clusteringFields ⊆ plan.layout.fields :=
    fun field => Layout.clusteringFields_subset
  have hparts := h.boundParts_eq hvalues side hfields
  -- Composite names are bounded through their parts, and the two other kinds in ways of their own.
  cases hslice : plan.isCellSlice with
  | false =>
      unfold cellBound
      rw [h.isCellSlice_eq, hslice]
      rfl
  | true =>
      have hslice' := h.isCellSlice_eq.trans hslice
      cases hkind : plan.layout.kind with
      | static =>
          unfold cellBound
          rw [hslice, hslice', h.layout, hkind, h.isWildcard_eq]
      | dynamic =>
          unfold cellBound
          rw [hslice, hslice', h.layout, hkind]
          exact h.plainBound_eq hvalues side hfields
      | sparse | dense =>
          have hcomposite : plan.layout.kind.isComposite = true := by rw [hkind]; rfl
          rw [cellBound_composite side hslice hcomposite,
            cellBound_composite side hslice' (h.layout ▸ hcomposite), h.layout, hparts]

/-! ### Index predicates -/

/-- The same index is read with the same predicates, or neither plan reads one. -/
theorem indexPredicates_eq (h : plan.Alike R other)
    (hvalues : SameValues R plan.layout vars vars') :
    other.indexPredicates vars' = plan.indexPredicates vars := by
  unfold indexPredicates
  rw [h.layout, h.indexed]
  have hpredicates : plan.layout.metadataFields.mapM (other.fieldPredicates vars') =
      plan.layout.metadataFields.mapM (plan.fieldPredicates vars) := by
    refine mapM_eq_of_forall₂ (List.forall₂_same.mpr fun field hfield => ?_)
    have hmem := Layout.metadataFields_subset hfield
    unfold fieldPredicates
    rcases h.restriction?_cases field with ⟨hone, hother⟩ | ⟨_, _, hone, hother, hrestriction⟩
    · rw [hone, hother]
    · rw [hone, hother]
      refine mapM_eq_of_forall₂ (hrestriction.comparisons.imp fun one other hpair => ?_)
      obtain ⟨operator, term⟩ := one
      obtain ⟨operator', term'⟩ := other
      obtain ⟨rfl, hterm⟩ := hpair
      simp only [hvalues field hmem term term' hterm]
  rw [hpredicates]

/-! ### All answers -/

/-- Plans that correspond give the same answers with variables that make their terms
stand for the same values. -/
theorem sameAnswers (h : plan.Alike R other) (hvalues : SameValues R plan.layout vars vars') :
    SameAnswers plan other vars vars' where
  keyScan := h.keyScan_eq hvalues
  keys := h.keys_eq hvalues
  keyBound := h.keyBound_eq hvalues
  cellNames := h.cellNames_eq hvalues
  cellBound := h.cellBound_eq hvalues
  indexPredicates := h.indexPredicates_eq hvalues

end Alike

end WideColumn.Plan
