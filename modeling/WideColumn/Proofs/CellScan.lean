import WideColumn.Proofs.ByteOrder
import WideColumn.Proofs.CellParts
import WideColumn.Proofs.Compile

/-!
# `WideColumn.Proofs.CellScan`: the cells a plan reads and the where clause

A stored cell has a composite name, and the name has all clustering components of
its row. A plan reads the cells between two names, or the cells of exact names. Both
ways it reads a cell exactly where the components of its name are what the where
clause says. The theorems:

* `atLeast_equal_cons` / `atMost_equal_cons`: an equality at the start of both bounds
  leaves the names that start with its component, and the rest of the bounds to
  tell them apart.
* `between_iff_satisfied`: the two bounds together, by induction on the equality
  run that the restrictions of the clustering fields are.
* `exactComponents_iff_satisfied`: the exact names.
* `clusteringHolds_iff`: the restrictions and the relations they come from.
* `between_cellBounds_iff` / `mem_cellNames_sparse` / `mem_cellNames_dense`: the cells
  that are read.
-/

set_option autoImplicit false

namespace WideColumn

namespace Composite

/-- Only a name without parts is empty. -/
theorem write_eq_nil_iff {parts : List (Bytes × Marker)} : write parts = [] ↔ parts = [] := by
  cases parts with
  | nil => simp
  | cons part parts => simp [write_cons_ne_nil]

/-- Two lists of components have two names. -/
theorem encode_injective {components others : List Bytes}
    (h : encode components = encode others) : components = others := by
  have hcompare := compare_encode components others
  rw [h, Std.ReflOrd.compare_self] at hcompare
  exact Std.LawfulEqOrd.eq_of_compare hcompare.symm

end Composite

namespace Plan

open Composite
open Outcome (map_eq_ok_iff bind_eq_ok_iff mapM_eq_ok_iff)

variable {plan : Plan} {vars : List Bytes}

/-- What a field's component has to be by the plan's restrictions. -/
def Satisfied (plan : Plan) (vars : List Bytes) (field : Field) (component : Bytes) : Prop :=
  ∀ restriction, plan.restriction? field = some restriction →
    restriction.Admits fun operator term =>
      ∃ bytes, term.component field vars = .ok bytes ∧ operator.Holds component bytes

/-- What the components of some fields have to be. -/
def AllSatisfied (plan : Plan) (vars : List Bytes) (fields : List Field)
    (components : List Bytes) : Prop :=
  ∀ pair ∈ fields.zip components, plan.Satisfied vars pair.1 pair.2

/-- Components are what the restrictions say, one field after the other. -/
theorem allSatisfied_cons (field : Field) (rest : List Field) (component : Bytes)
    (components : List Bytes) :
    plan.AllSatisfied vars (field :: rest) (component :: components) ↔
      plan.Satisfied vars field component ∧ plan.AllSatisfied vars rest components := by
  unfold AllSatisfied
  rw [List.zip_cons_cons, List.forall_mem_cons]

/-- Fields that are not restricted may have any components. -/
theorem allSatisfied_of_free {fields : List Field}
    (free : ∀ field ∈ fields, plan.restriction? field = none) (components : List Bytes) :
    plan.AllSatisfied vars fields components := by
  intro pair hpair restriction hrestriction
  have hnone := free pair.1 (List.of_mem_zip hpair).1
  rw [hnone] at hrestriction
  cases hrestriction

/-- A field with a single value has to have its component. -/
theorem satisfied_equality {field : Field} {term : Term} {bytes : Bytes}
    (hterm : plan.restriction? field = some (.equality [term]))
    (hbytes : term.component field vars = .ok bytes) (component : Bytes) :
    plan.Satisfied vars field component ↔ component = bytes := by
  unfold Satisfied
  simp [hterm, hbytes, Restriction.Admits, Operator.Holds, eq_comm]

/-! ### A name and the parts of one bound -/

/-- The stored name of the components is not before the parts of a lower bound. -/
def AtLeast (parts : List (Bytes × Operator)) (components : List Bytes) : Prop :=
  (compareParts (boundMarks .lower parts) (exact components)).isLE

/-- The stored name of the components is not after the parts of an upper bound, of
which none mean that the slice is open. -/
def AtMost (parts : List (Bytes × Operator)) (components : List Bytes) : Prop :=
  parts = [] ∨ (compareParts (exact components) (boundMarks .upper parts)).isLE

/-- A lower bound is marked as its parts say. -/
theorem boundMarks_lower (parts : List (Bytes × Operator)) :
    boundMarks .lower parts = marked parts := by
  simp [boundMarks]

/-- Only the last part of an upper bound is closed otherwise than its operator says. -/
theorem boundMarks_upper_cons_cons (part next : Bytes × Operator)
    (parts : List (Bytes × Operator)) :
    boundMarks .upper (part :: next :: parts) =
      (part.1, markerOf part.2) :: boundMarks .upper (next :: parts) := by
  have hlast : lastOperator none (part :: next :: parts) = lastOperator none (next :: parts) := by
    rw [lastOperator_cons, lastOperator_cons, lastOperator_cons]
  unfold boundMarks
  rw [hlast]
  split <;> rfl

/-- An upper bound has a mark for every part, though not the same one. -/
theorem boundMarks_upper_eq_nil_iff {parts : List (Bytes × Operator)} :
    boundMarks .upper parts = [] ↔ parts = [] := by
  cases parts with
  | nil => exact iff_of_true rfl rfl
  | cons part parts =>
      cases parts with
      | nil =>
          unfold boundMarks
          split <;> simp [raiseLast]
      | cons next parts => simp [boundMarks_upper_cons_cons]

/-- Without parts there is no lower bound. -/
theorem atLeast_nil (components : List Bytes) : AtLeast [] components := by
  unfold AtLeast
  rw [boundMarks_lower]
  cases components <;> rfl

/-- And no upper bound either. -/
theorem atMost_nil (components : List Bytes) : AtMost [] components :=
  .inl rfl

/-- Where the parts' markers agree, the components decide first. -/
theorem compareParts_exact_cons_isLE (component other : Bytes)
    (parts others : List (Bytes × Marker)) :
    (compareParts ((component, .exact) :: parts) ((other, .exact) :: others)).isLE ↔
      component ≤ other ∧ (component < other ∨ (compareParts parts others).isLE) := by
  rw [compareParts_cons_cons]
  simp only [comparePart, Std.ReflOrd.compare_self, Ordering.then_eq]
  rw [Ordering.isLE_then_iff_and, Std.isLE_compare, Bytes.compare_eq_lt]

/-- Where the first marker is the smaller one, equal components are in order. -/
theorem compareParts_of_marker_lt {marker other : Marker}
    (h : compare marker.toByte other.toByte = .lt) (component bytes : Bytes)
    (parts others : List (Bytes × Marker)) :
    (compareParts ((component, marker) :: parts) ((bytes, other) :: others)).isLE ↔
      component ≤ bytes := by
  rw [compareParts_cons_cons, ← Std.isLE_compare]
  simp only [comparePart, h]
  cases compare component bytes <;> simp

/-- Where the first marker is the greater one, equal components are not in order. -/
theorem compareParts_of_marker_gt {marker other : Marker}
    (h : compare marker.toByte other.toByte = .gt) (component bytes : Bytes)
    (parts others : List (Bytes × Marker)) :
    (compareParts ((component, marker) :: parts) ((bytes, other) :: others)).isLE ↔
      component < bytes := by
  rw [compareParts_cons_cons, ← Bytes.compare_eq_lt]
  simp only [comparePart, h]
  cases compare component bytes <;> simp

/-- After a part with an equality, the others decide only where the component is equal. -/
theorem atLeast_equal_cons (bytes component : Bytes) (parts : List (Bytes × Operator))
    (components : List Bytes) :
    AtLeast (equalPart bytes :: parts) (component :: components) ↔
      bytes ≤ component ∧ (bytes < component ∨ AtLeast parts components) := by
  unfold AtLeast
  rw [boundMarks_lower, boundMarks_lower]
  exact compareParts_exact_cons_isLE bytes component (marked parts) (exact components)

/-- The same for an upper bound. -/
theorem atMost_equal_cons (bytes component : Bytes) (parts : List (Bytes × Operator))
    (components : List Bytes) :
    AtMost (equalPart bytes :: parts) (component :: components) ↔
      component ≤ bytes ∧ (component < bytes ∨ AtMost parts components) := by
  cases parts with
  | nil =>
      -- The equality is the last part, and closed so that every name with it is before it.
      have hlast : (compareParts ((component, .exact) :: exact components)
          [(bytes, .after)]).isLE ↔ component ≤ bytes :=
        compareParts_of_marker_lt rfl component bytes (exact components) []
      simp only [atMost_nil, or_true, and_true]
      refine Iff.trans ⟨fun h => h.resolve_left (List.cons_ne_nil _ _), .inr⟩ hlast
  | cons next parts =>
      have hcons := compareParts_exact_cons_isLE component bytes (exact components)
        (boundMarks .upper (next :: parts))
      unfold AtMost
      simp only [boundMarks_upper_cons_cons, List.cons_ne_nil, false_or]
      exact hcons

/-- A lower bound on the first component alone. -/
theorem atLeast_bound (inclusive : Bool) (bytes component : Bytes) (components : List Bytes) :
    AtLeast [(bytes, Side.operator .lower inclusive)] (component :: components) ↔
      (Side.operator .lower inclusive).Holds component bytes := by
  unfold AtLeast
  rw [boundMarks_lower]
  -- An inclusive bound stands before the names with its component, another one after them.
  cases inclusive with
  | true => exact compareParts_of_marker_lt rfl bytes component [] (exact components)
  | false => exact compareParts_of_marker_gt rfl bytes component [] (exact components)

/-- An upper bound on the first component alone. -/
theorem atMost_bound (inclusive : Bool) (bytes component : Bytes) (components : List Bytes) :
    AtMost [(bytes, Side.operator .upper inclusive)] (component :: components) ↔
      (Side.operator .upper inclusive).Holds component bytes := by
  unfold AtMost
  simp only [List.cons_ne_nil, false_or]
  -- On this side it is the other way round.
  cases inclusive with
  | true => exact compareParts_of_marker_lt rfl component bytes (exact components) []
  | false => exact compareParts_of_marker_gt rfl component bytes (exact components) []

/-! ### Both bounds -/

/-- A field with a single value gives both bounds its component to start with. -/
theorem boundParts_equality {side : Side} {field : Field} {rest : List Field} {term : Term}
    {parts : List (Bytes × Operator)}
    (hterm : plan.restriction? field = some (.equality [term]))
    (h : plan.boundParts side vars (field :: rest) = .ok parts) :
    ∃ bytes more, term.component field vars = .ok bytes ∧
      plan.boundParts side vars rest = .ok more ∧ parts = equalPart bytes :: more := by
  unfold boundParts at h
  simp only [hterm, Restriction.single?] at h
  obtain ⟨bytes, hbytes, h⟩ := bind_eq_ok_iff.mp h
  obtain ⟨more, hmore, h⟩ := bind_eq_ok_iff.mp h
  cases h
  exact ⟨bytes, more, hbytes, hmore, rfl⟩

/-- A field with a range gives each bound the component of its side, if there is
one. -/
theorem boundParts_range {side : Side} {field : Field} {rest : List Field}
    {lower upper : Option Bound} {parts : List (Bytes × Operator)}
    (hrange : plan.restriction? field = some (.range lower upper))
    (h : plan.boundParts side vars (field :: rest) = .ok parts) :
    (Restriction.range lower upper).bound? side = none ∧ parts = [] ∨
      ∃ bound bytes, (Restriction.range lower upper).bound? side = some bound ∧
        bound.term.component field vars = .ok bytes ∧
        parts = [(bytes, side.operator bound.inclusive)] := by
  unfold boundParts at h
  simp only [hrange, Restriction.single?] at h
  cases hbound : (Restriction.range lower upper).bound? side with
  | none =>
      simp only [hbound] at h
      cases h
      exact .inl ⟨rfl, rfl⟩
  | some bound =>
      simp only [hbound] at h
      obtain ⟨bytes, hbytes, h⟩ := bind_eq_ok_iff.mp h
      cases h
      exact .inr ⟨bound, bytes, rfl, hbytes, rfl⟩

/-- A field that is not restricted ends the bound. -/
theorem boundParts_of_free {side : Side} {field : Field} {rest : List Field}
    {parts : List (Bytes × Operator)} (hfree : plan.restriction? field = none)
    (h : plan.boundParts side vars (field :: rest) = .ok parts) : parts = [] := by
  unfold boundParts at h
  simp only [hfree] at h
  cases h
  rfl

/-- A field with a range: each bound says of its component what the range says on
that side. -/
theorem between_range {field : Field} {rest : List Field} {lower upper : Option Bound}
    {low high : List (Bytes × Operator)}
    (hrange : plan.restriction? field = some (.range lower upper))
    (hlow : plan.boundParts .lower vars (field :: rest) = .ok low)
    (hhigh : plan.boundParts .upper vars (field :: rest) = .ok high)
    (component : Bytes) (components : List Bytes) :
    AtLeast low (component :: components) ∧ AtMost high (component :: components) ↔
      plan.Satisfied vars field component := by
  have hsatisfied : plan.Satisfied vars field component ↔
      (Restriction.range lower upper).Admits fun operator term =>
        ∃ bytes, term.component field vars = .ok bytes ∧ operator.Holds component bytes := by
    unfold Satisfied
    simp [hrange]
  rw [hsatisfied]
  refine and_congr ?_ ?_
  · rcases boundParts_range hrange hlow with ⟨hnone, rfl⟩ | ⟨bound, bytes, hsome, hbytes, rfl⟩
    · obtain rfl : lower = none := hnone
      simp [atLeast_nil]
    · obtain rfl : lower = some bound := hsome
      simp [atLeast_bound, Bound.Admits, hbytes]
  · rcases boundParts_range hrange hhigh with ⟨hnone, rfl⟩ | ⟨bound, bytes, hsome, hbytes, rfl⟩
    · obtain rfl : upper = none := hnone
      simp [atMost_nil]
    · obtain rfl : upper = some bound := hsome
      simp [atMost_bound, Bound.Admits, hbytes]

/-- The stored names between the two bounds of an equality run are those whose
components are what the restrictions say. -/
theorem between_iff_satisfied {fields : List Field} {components : List Bytes}
    {low high : List (Bytes × Operator)} (run : EqualityRun plan.restrictions fields)
    (hlow : plan.boundParts .lower vars fields = .ok low)
    (hhigh : plan.boundParts .upper vars fields = .ok high)
    (hlength : fields.length ≤ components.length) :
    AtLeast low components ∧ AtMost high components ↔
      plan.AllSatisfied vars fields components := by
  induction run generalizing components low high with
  | nil =>
      cases hlow
      cases hhigh
      simp [AllSatisfied, atLeast_nil, atMost_nil]
  | «open» field rest free free_rest =>
      -- From a field without a restriction on, both bounds are open.
      obtain rfl := boundParts_of_free free hlow
      obtain rfl := boundParts_of_free free hhigh
      have hfree : ∀ other ∈ field :: rest, plan.restriction? other = none := by
        intro other hother
        rcases List.mem_cons.mp hother with rfl | hrest
        · exact free
        · exact free_rest other hrest
      simp only [atLeast_nil, atMost_nil, allSatisfied_of_free hfree, and_self]
  | range field rest lower upper ranged free_rest =>
      cases components with
      | nil => cases hlength
      | cons component components =>
          -- The range decides by its own component, and the fields after it are free.
          rw [between_range ranged hlow hhigh, allSatisfied_cons]
          exact (and_iff_left (allSatisfied_of_free free_rest components)).symm
  | equality field rest value equal run ih =>
      cases components with
      | nil => cases hlength
      | cons component components =>
          obtain ⟨bytes, lows, hbytes, hlows, rfl⟩ := boundParts_equality equal hlow
          obtain ⟨other, highs, hother, hhighs, rfl⟩ := boundParts_equality equal hhigh
          obtain rfl : bytes = other := Except.ok.inj (hbytes.symm.trans hother)
          have hrest := ih hlows hhighs (Nat.le_of_succ_le_succ hlength)
          rw [allSatisfied_cons, satisfied_equality equal hbytes, ← hrest, atLeast_equal_cons,
            atMost_equal_cons]
          constructor
          · rintro ⟨⟨hle, hleft⟩, hge, hright⟩
            -- Two names around a component that is equal to neither would be out of order.
            have heq : component = bytes := List.le_antisymm hge hle
            subst heq
            exact ⟨rfl, hleft.resolve_left (List.lt_irrefl _),
              hright.resolve_left (List.lt_irrefl _)⟩
          · rintro ⟨rfl, hleft, hright⟩
            exact ⟨⟨List.le_refl _, .inr hleft⟩, List.le_refl _, .inr hright⟩

/-! ### Exact names -/

/-- A component comes from the only value that the field has. -/
theorem exactComponent_eq_ok {field : Field} {bytes : Bytes}
    (h : plan.exactComponent vars field = .ok bytes) :
    ∃ term, plan.restriction? field = some (.equality [term]) ∧
      term.component field vars = .ok bytes := by
  unfold exactComponent at h
  split at h
  · next term hterm =>
      refine ⟨term, ?_, h⟩
      obtain ⟨restriction, hrestriction, hsingle⟩ := Option.bind_eq_some_iff.mp hterm
      unfold Restriction.single? at hsingle
      split at hsingle
      · cases hsingle
        exact hrestriction
      · cases hsingle
  · cases h

/-- The components of fields that all have single values are what the restrictions
say of a name that starts with as many. -/
theorem exactComponents_iff_satisfied {fields : List Field} {exacts components : List Bytes}
    (h : fields.mapM (plan.exactComponent vars) = .ok exacts)
    (hlength : fields.length ≤ components.length) :
    components.take fields.length = exacts ↔ plan.AllSatisfied vars fields components := by
  have hpairs := mapM_eq_ok_iff.mp h
  clear h
  -- The induction is on the fields side by side with their components.
  induction hpairs generalizing components with
  | nil => simp [AllSatisfied]
  | @cons field bytes rest exacts hfield _ ih =>
      cases components with
      | nil => cases hlength
      | cons component components =>
          obtain ⟨term, hterm, hbytes⟩ := exactComponent_eq_ok hfield
          have hrest : components.take rest.length = exacts ↔
              plan.AllSatisfied vars rest components := ih (Nat.le_of_succ_le_succ hlength)
          rw [List.length_cons, List.take_succ_cons, List.cons_eq_cons, hrest,
            allSatisfied_cons, satisfied_equality hterm hbytes]

/-- The exact names of a sparse table hold a name when its leading components are
what the restrictions say and its last one is the key of a selected field. -/
theorem mem_cellNames_sparse {names : List Bytes} {components : List Bytes}
    (hslice : plan.isCellSlice = false) (hkind : plan.layout.kind = .sparse)
    (hnames : plan.cellNames vars = .ok names)
    (hlength : components.length = plan.layout.arity) :
    encode components ∈ names ↔
      plan.AllSatisfied vars plan.layout.clusteringFields components ∧
        ∃ field ∈ plan.metadataColumns, components.getLast? = some field.key := by
  rw [cellNames_sparse hslice hkind] at hnames
  obtain ⟨exacts, hexacts, rfl⟩ := map_eq_ok_iff.mp hnames
  have harity := Layout.arity_of_sparse hkind
  have hcount := length_exactComponents hexacts
  have hfields : plan.layout.clusteringFields.length = exacts.length := by
    rw [Layout.length_clusteringFields, hcount]
  have hroom : plan.layout.clusteringFields.length ≤ components.length := by omega
  rw [← exactComponents_iff_satisfied hexacts hroom, hfields]
  constructor
  · intro hmem
    obtain ⟨field, hfield, hname⟩ := List.mem_map.mp hmem
    obtain rfl := encode_injective hname
    exact ⟨List.take_left, field, hfield, List.getLast?_concat⟩
  · rintro ⟨htake, field, hfield, hlast⟩
    refine List.mem_map.mpr ⟨field, hfield, ?_⟩
    -- One component is left after the leading ones, and it is the last.
    have hdrop : components.drop exacts.length = [field.key] := by
      have hone : (components.drop exacts.length).length = 1 := by
        rw [List.length_drop]
        omega
      obtain ⟨last, hdrop⟩ := List.length_eq_one_iff.mp hone
      rw [← List.take_append_drop exacts.length components, hdrop, List.getLast?_concat] at hlast
      rw [hdrop, Option.some.inj hlast]
    have hcomponents := List.take_append_drop exacts.length components
    rw [htake, hdrop] at hcomponents
    rw [hcomponents]

/-- The exact name of a dense table is the name whose components are what the
restrictions say. -/
theorem mem_cellNames_dense {names : List Bytes} {components : List Bytes}
    (hslice : plan.isCellSlice = false) (hkind : plan.layout.kind = .dense)
    (hnames : plan.cellNames vars = .ok names)
    (hlength : components.length = plan.layout.arity) :
    encode components ∈ names ↔
      plan.AllSatisfied vars plan.layout.clusteringFields components := by
  rw [cellNames_dense hslice hkind] at hnames
  obtain ⟨exacts, hexacts, rfl⟩ := map_eq_ok_iff.mp hnames
  have hfields : components.length = plan.layout.clusteringFields.length := by
    rw [hlength, Layout.length_clusteringFields, Layout.arity_of_dense hkind]
  rw [← exactComponents_iff_satisfied hexacts (Nat.le_of_eq hfields.symm), ← hfields,
    List.take_length, List.mem_singleton]
  exact ⟨encode_injective, congrArg encode⟩

/-! ### The where clause -/

/-- The relations on clustering fields hold of the components of a name, each of the
component at its field's position. -/
def ClusteringHolds (settings : Settings) (query : Query) (layout : Layout)
    (vars components : List Bytes) : Prop :=
  ∀ relation ∈ query.conditions, ∀ field position,
    layout.lookup (settings.normalize relation.field) = some field →
    field.role = .clustering position →
    relation.Admits fun operator term =>
      ∃ bytes, term.component field vars = .ok bytes ∧
        operator.Holds (componentAt components position) bytes

/-- The components of fields stand at the fields' positions. -/
theorem allSatisfied_iff_position {fields : List Field} {components : List Bytes}
    (hlength : fields.length ≤ components.length) :
    plan.AllSatisfied vars fields components ↔
      ∀ (position : Nat) (field : Field), fields[position]? = some field →
        plan.Satisfied vars field (componentAt components position) := by
  constructor
  · intro h position field hfield
    obtain ⟨hposition, rfl⟩ := List.getElem?_eq_some_iff.mp hfield
    have hcomponent : position < components.length := Nat.lt_of_lt_of_le hposition hlength
    -- The pair at a position is there because there are no fewer components than fields.
    have hpair : (fields[position], components[position]) ∈ fields.zip components := by
      have hzip : position < (fields.zip components).length := by
        rw [List.length_zip]
        omega
      rw [← List.getElem_zip (h := hzip)]
      exact List.getElem_mem hzip
    have hsatisfied := h _ hpair
    rwa [componentAt, List.getD_eq_getElem?_getD, List.getElem?_eq_getElem hcomponent,
      Option.getD_some]
  · intro h pair hpair
    obtain ⟨position, hposition⟩ := List.getElem?_of_mem hpair
    rw [List.getElem?_zip_eq_some] at hposition
    obtain ⟨hfield, hcomponent⟩ := hposition
    have hsatisfied := h position pair.1 hfield
    rwa [componentAt, List.getD_eq_getElem?_getD, hcomponent, Option.getD_some] at hsatisfied

variable {settings : Settings} {query : Query} {layout : Layout} {indexed : List String}
  {bound : Restrictions}

/-- The restrictions of the clustering fields say what the relations on them say. -/
theorem clusteringHolds_iff (h : Compiled settings query layout indexed plan bound)
    {components : List Bytes} (hlength : layout.clusteringFields.length ≤ components.length) :
    ClusteringHolds settings query layout vars components ↔
      plan.AllSatisfied vars layout.clusteringFields components := by
  rw [allSatisfied_iff_position hlength]
  have hother : ∀ {field : Field} {position : Nat}, field.role = .clustering position →
      field.role ≠ .partitionKey := by
    intro field position hrole hkey
    rw [hrole] at hkey
    cases hkey
  constructor
  · -- The restriction of a field says what all relations on the field say.
    intro hholds position field hfield
    obtain ⟨hmem, hrole⟩ := Layout.getElem?_clusteringFields_iff.mp hfield
    refine (h.admit_iff hmem (hother hrole) _).mpr fun relation hrelation hname => ?_
    have hlookup : layout.lookup (settings.normalize relation.field) = some field :=
      Layout.lookup_eq_some_iff.mpr ⟨hmem, hname.symm⟩
    exact hholds relation hrelation field position hlookup hrole
  · intro hsatisfied relation hrelation field position hlookup hrole
    obtain ⟨hmem, hname⟩ := Layout.lookup_eq_some_iff.mp hlookup
    have hfield := Layout.getElem?_clusteringFields_iff.mpr ⟨hmem, hrole⟩
    exact (h.admit_iff hmem (hother hrole) _).mp (hsatisfied position field hfield) relation
      hrelation hname.symm

/-- The stored names between the two bounds of a slice are those whose components are
what the restrictions say. -/
theorem between_cellBounds_iff {start finish : Bytes} {components : List Bytes}
    (run : EqualityRun plan.restrictions plan.layout.clusteringFields)
    (hslice : plan.isCellSlice = true) (hkind : plan.layout.kind.isComposite = true)
    (hstart : plan.cellBound .lower vars = .ok start)
    (hfinish : plan.cellBound .upper vars = .ok finish)
    (hlength : plan.layout.clusteringFields.length ≤ components.length) :
    start ≤ encode components ∧ (finish = [] ∨ encode components ≤ finish) ↔
      plan.AllSatisfied vars plan.layout.clusteringFields components := by
  rw [cellBound_composite .lower hslice hkind] at hstart
  rw [cellBound_composite .upper hslice hkind] at hfinish
  obtain ⟨low, hlow, rfl⟩ := map_eq_ok_iff.mp hstart
  obtain ⟨high, hhigh, rfl⟩ := map_eq_ok_iff.mp hfinish
  rw [← between_iff_satisfied run hlow hhigh hlength]
  refine and_congr ?_ (or_congr ?_ ?_)
  · rw [AtLeast, ← Std.isLE_compare, ← write_exact, compare_write]
  · rw [write_eq_nil_iff, boundMarks_upper_eq_nil_iff]
  · rw [← Std.isLE_compare, ← write_exact, compare_write]

/-- A plan for composite names reads exactly the cells the where clause asks for. Of
the stored names of a table, the bounds of a slice enclose those whose components
are what the relations on clustering fields say; and the exact names are those
among them that, in a sparse table, end with the key of a selected metadata
field. -/
theorem reads_cell_iff (h : compile settings query layout indexed = .ok plan)
    (hkind : layout.kind.isComposite = true) {components : List Bytes}
    (hlength : components.length = layout.arity) (vars : List Bytes) :
    (plan.isCellSlice = true → ∀ start finish,
      plan.cellBound .lower vars = .ok start → plan.cellBound .upper vars = .ok finish →
        (start ≤ encode components ∧ (finish = [] ∨ encode components ≤ finish) ↔
          ClusteringHolds settings query layout vars components)) ∧
    (plan.isCellSlice = false → ∀ names, plan.cellNames vars = .ok names →
      (encode components ∈ names ↔
        ClusteringHolds settings query layout vars components ∧
          (layout.kind = .sparse → ∃ selected ∈ plan.columns,
            selected.field.role = .metadata ∧
              components.getLast? = some selected.field.key))) := by
  obtain ⟨bound, hcompiled⟩ := compile_eq_ok h
  obtain rfl := hcompiled.layout_eq
  have hroom : plan.layout.clusteringFields.length ≤ components.length := by
    rw [hlength, Layout.length_clusteringFields]
    exact Layout.length_clustering_le_arity hkind
  rw [clusteringHolds_iff hcompiled hroom]
  -- What remains is about the plan alone, and no longer about the query.
  refine ⟨fun hslice start finish hstart hfinish => ?_, fun hslice names hnames => ?_⟩
  · exact between_cellBounds_iff hcompiled.equalityRun hslice hkind hstart hfinish hroom
  · cases hcases : plan.layout.kind with
    | sparse =>
        rw [mem_cellNames_sparse hslice hcases hnames hlength]
        simp [metadataColumns, and_assoc]
    | dense =>
        rw [mem_cellNames_dense hslice hcases hnames hlength]
        simp
    | static => rw [hcases] at hkind; cases hkind
    | dynamic => rw [hcases] at hkind; cases hkind

/-- A table of measurements by day and by time. -/
def measurements : Layout :=
  { name := "measurements", kind := .dense, key := ⟨"station", .utf8⟩
    clustering := [⟨"day", .utf8⟩, ⟨"time", .int32⟩], value := some ⟨"level", .bytes⟩
    fits_kind := by decide, names_nodup := by decide }

/-- The measurements of one day up to some time. -/
def measurementsUntil : Query :=
  { table := "measurements"
    conditions := [.compare ⟨"day", true⟩ .eq (.bind 0), .compare ⟨"time", true⟩ .lte (.bind 1)] }

/-- A day that ends with a zero byte, and a time before zero. -/
theorem reads_cell_iff_measurements :
    ∃ plan start finish,
      compile { identifierCase := .preserve } measurementsUntil measurements [] = .ok plan ∧
      plan.isCellSlice = true ∧
      plan.cellBound .lower [[0x61, 0x00], [0, 0, 0, 9]] = .ok start ∧
      plan.cellBound .upper [[0x61, 0x00], [0, 0, 0, 9]] = .ok finish ∧
      ClusteringHolds { identifierCase := .preserve } measurementsUntil measurements
        [[0x61, 0x00], [0, 0, 0, 9]] [[0x61, 0x00], [0x7F, 0xFF, 0xFF, 0xFF]] := by
  refine ⟨_, _, _, rfl, rfl, rfl, rfl, ?_⟩
  refine ((@reads_cell_iff _ _ _ _ [] rfl rfl _ rfl _).1 rfl _ _ rfl rfl).mp ?_
  exact ⟨by decide, .inr (by decide)⟩

end Plan

end WideColumn
