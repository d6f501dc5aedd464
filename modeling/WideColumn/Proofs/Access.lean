import WideColumn.Plan.Index
import WideColumn.Proofs.CellParts
import WideColumn.Proofs.Compile

/-!
# `WideColumn.Proofs.Access`: the calls a plan answers

A plan reads either exact keys or a range of them, and in every partition either exact
cell names or a slice. The calls of the other way are out of turn and are answered with
a violation; the calls of its own way fail for nothing but a term that has no value. The
theorems:

* `keys_failsOnly` / `keyBound_failsOnly` / `keyScan_failsOnly`: the calls for partitions.
* `cellNames_failsOnly` / `cellBound_failsOnly`: the calls for cells. No builder is ever
  full, because names and bounds are written from parts (`Proofs.CellParts`).
* `Compiled.single?_of_names`: where cells are read by name, every clustering field has a
  single value.
-/

set_option autoImplicit false

namespace WideColumn

open Outcome (FailsOnly failsOnly_ok failsOnly_error)

/-- The error says that a term has no value: a literal or bound value is none of the
field's, or there is no variable to bind. -/
inductive Error.OfTerm : Error → Prop
  | invalid (field : String) (fault : FieldType.Fault) : OfTerm (.invalidTerm field fault)
  | missing (index provided : Nat) : OfTerm (.missingVariable index provided)

/-- The call has been answered as one that is out of turn. -/
def Violates {α : Type} (answer : Except Error α) : Prop :=
  ∃ cause, answer = .error (.violation cause)

/-- A call that fails for a term is in turn. -/
theorem not_violates {α : Type} {answer : Except Error α}
    (h : FailsOnly Error.OfTerm answer) : ¬ Violates answer := by
  rintro ⟨cause, rfl⟩
  cases h _ rfl

namespace Term

/-- What a term has for a value can only fail for the term. -/
theorem value_failsOnly (term : Term) (field : Field) (vars : List Bytes) :
    FailsOnly Error.OfTerm (term.value field vars) := by
  unfold value
  cases term with
  | literal text =>
      simp only
      cases field.type.parse text with
      | ok bytes => exact failsOnly_ok bytes
      | error fault => exact failsOnly_error (.invalid field.name fault)
  | bind index =>
      simp only
      split
      · exact failsOnly_error (.missing index vars.length)
      · split
        · exact failsOnly_ok _
        · exact failsOnly_error (.invalid field.name _)

/-- The same for its form inside cell names. -/
theorem component_failsOnly (term : Term) (field : Field) (vars : List Bytes) :
    FailsOnly Error.OfTerm (term.component field vars) :=
  (term.value_failsOnly field vars).map _

end Term

namespace Plan

variable {plan : Plan} {vars : List Bytes}

/-- A field has an equality where the plan keeps one for it. -/
theorem hasEquality_iff {field : Field} :
    plan.hasEquality field = true ↔
      ∃ values, plan.restriction? field = some (.equality values) := by
  unfold hasEquality
  cases plan.restriction? field with
  | none => simp
  | some restriction => cases restriction <;> simp [Restriction.isEquality]

/-! ### Partitions -/

/-- Where the partition key has an equality, its values can only fail for a term. -/
theorem keys_failsOnly (h : plan.hasEquality plan.layout.keyField = true) :
    FailsOnly Error.OfTerm (plan.keys vars) := by
  obtain ⟨values, hvalues⟩ := hasEquality_iff.mp h
  unfold keys
  rw [hvalues]
  exact FailsOnly.mapM fun term _ => term.value_failsOnly _ vars

/-- Where it has none, there are no keys to ask for. -/
theorem violates_keys (h : plan.hasEquality plan.layout.keyField = false) :
    Violates (plan.keys vars) := by
  unfold keys
  split
  · next values hvalues => rw [hasEquality_iff.mpr ⟨values, hvalues⟩] at h; cases h
  · exact ⟨_, rfl⟩

/-- Without an equality each side of the range of keys has a bound with one term, or
none. -/
theorem keyBound_failsOnly (h : plan.hasEquality plan.layout.keyField = false) (side : Side) :
    FailsOnly Error.OfTerm (plan.keyBound side vars) := by
  unfold keyBound
  split
  · exact failsOnly_ok _
  · next term _ => exact term.value_failsOnly _ vars
  · next values _ hvalues => rw [hasEquality_iff.mpr ⟨values, hvalues⟩] at h; cases h
  · split
    · next bound _ => exact bound.term.value_failsOnly _ vars
    · exact failsOnly_ok _

/-- Of keys and a range of keys one is always there to be asked for. -/
theorem keyScan_failsOnly (h : plan.isKeyRange = !plan.hasEquality plan.layout.keyField) :
    FailsOnly Error.OfTerm (plan.keyScan vars) := by
  unfold keyScan
  rw [h]
  cases hequality : plan.hasEquality plan.layout.keyField with
  | false =>
      refine (keyBound_failsOnly hequality .lower).bind fun start => ?_
      exact (keyBound_failsOnly hequality .upper).bind fun finish => failsOnly_ok _
  | true => exact (keys_failsOnly hequality).map _

/-- A scan is the list of keys, or the range between the two bounds. -/
theorem keyScan_cases {scan : KeyScan} (h : plan.keyScan vars = .ok scan) :
    (plan.isKeyRange = false ∧ ∃ listed, plan.keys vars = .ok listed ∧ scan = .keys listed) ∨
    (plan.isKeyRange = true ∧ ∃ start finish, plan.keyBound .lower vars = .ok start ∧
      plan.keyBound .upper vars = .ok finish ∧
      scan = .range start (plan.includesKeyBound .lower) finish
        (plan.includesKeyBound .upper)) := by
  unfold keyScan at h
  cases hrange : plan.isKeyRange with
  | true =>
      rw [hrange, if_pos rfl] at h
      obtain ⟨start, hstart, h⟩ := Outcome.bind_eq_ok_iff.mp h
      obtain ⟨finish, hfinish, h⟩ := Outcome.bind_eq_ok_iff.mp h
      cases h
      exact .inr ⟨rfl, start, finish, hstart, hfinish, rfl⟩
  | false =>
      rw [hrange, if_neg Bool.false_ne_true] at h
      obtain ⟨listed, hlisted, rfl⟩ := Outcome.map_eq_ok_iff.mp h
      exact .inl ⟨rfl, listed, hlisted, rfl⟩

/-- The partitions are told by their keys exactly where no range of keys is read. -/
theorem keyScan_eq_keys_iff {scan : KeyScan} (h : plan.keyScan vars = .ok scan) :
    (∃ keys, scan = .keys keys) ↔ plan.isKeyRange = false := by
  rcases keyScan_cases h with ⟨hrange, listed, -, rfl⟩ | ⟨hrange, start, finish, -, -, rfl⟩
  · exact iff_of_true ⟨listed, rfl⟩ hrange
  · simp [hrange]

/-! ### Cells -/

/-- A slice of cells is not read by names. -/
theorem violates_cellNames (h : plan.isCellSlice = true) : Violates (plan.cellNames vars) := by
  unfold cellNames
  rw [h]
  exact ⟨_, rfl⟩

/-- Cells that are read by names have no bounds. -/
theorem violates_cellBound (h : plan.isCellSlice = false) (side : Side) :
    Violates (plan.cellBound side vars) := by
  unfold cellBound
  rw [h]
  exact ⟨_, rfl⟩

/-- With one value for each clustering field, the components fail only for a term. -/
theorem exactComponents_failsOnly
    (single : ∀ field ∈ plan.layout.clusteringFields, ∃ term, plan.single? field = some term) :
    FailsOnly Error.OfTerm (plan.exactComponents vars) := by
  refine FailsOnly.mapM fun field hfield => ?_
  obtain ⟨term, hterm⟩ := single field hfield
  unfold exactComponent
  rw [hterm]
  exact term.component_failsOnly field vars

/-- The same for a name that is not composite. -/
theorem plainName_failsOnly {fields : List Field}
    (single : ∀ field ∈ fields, ∃ term, plan.single? field = some term) :
    FailsOnly Error.OfTerm (plan.plainName vars fields) := by
  cases fields with
  | nil => exact failsOnly_ok _
  | cons field rest =>
      obtain ⟨term, hterm⟩ := single field List.mem_cons_self
      unfold plainName
      simp only [hterm]
      exact (term.component_failsOnly field vars).bind fun component => failsOnly_ok _

/-- The same for the names to read. Those of a static table need no clustering field. -/
theorem cellNames_failsOnly (hslice : plan.isCellSlice = false)
    (single : plan.layout.kind ≠ .static →
      ∀ field ∈ plan.layout.clusteringFields, ∃ term, plan.single? field = some term) :
    FailsOnly Error.OfTerm (plan.cellNames vars) := by
  cases hkind : plan.layout.kind with
  | static =>
      unfold cellNames
      rw [hslice, hkind]
      exact failsOnly_ok _
  | sparse =>
      rw [cellNames_sparse hslice hkind]
      exact (exactComponents_failsOnly (single (by rw [hkind]; nofun))).map _
  | dynamic =>
      unfold cellNames
      rw [hslice, hkind]
      exact plainName_failsOnly (single (by rw [hkind]; nofun))
  | dense =>
      rw [cellNames_dense hslice hkind]
      exact (exactComponents_failsOnly (single (by rw [hkind]; nofun))).map _

/-- The parts of a bound fail only for a term. -/
theorem boundParts_failsOnly (side : Side) (fields : List Field) :
    FailsOnly Error.OfTerm (plan.boundParts side vars fields) := by
  induction fields with
  | nil => exact failsOnly_ok _
  | cons field rest ih =>
      unfold boundParts
      cases plan.restriction? field with
      | none => exact failsOnly_ok _
      | some restriction =>
          simp only
          split
          · next term _ =>
              refine (term.component_failsOnly field vars).bind fun component => ?_
              exact ih.bind fun parts => failsOnly_ok _
          · next bound _ _ =>
              exact (bound.term.component_failsOnly field vars).bind fun component =>
                failsOnly_ok _
          · exact failsOnly_ok _

/-- The same for a bound that is not composite. -/
theorem plainBound_failsOnly (side : Side) (fields : List Field) :
    FailsOnly Error.OfTerm (plan.plainBound side vars fields) := by
  cases fields with
  | nil => exact failsOnly_ok _
  | cons field rest =>
      unfold plainBound
      simp only
      split
      · next bound _ => exact bound.term.component_failsOnly field vars
      · exact failsOnly_ok _

/-- And so it is for both bounds of a slice. -/
theorem cellBound_failsOnly (hslice : plan.isCellSlice = true) (side : Side) :
    FailsOnly Error.OfTerm (plan.cellBound side vars) := by
  cases hkind : plan.layout.kind with
  | static => simp [isCellSlice, hkind] at hslice
  | dynamic =>
      unfold cellBound
      rw [hslice, hkind]
      exact plainBound_failsOnly side plan.layout.clusteringFields
  | sparse =>
      rw [cellBound_composite side hslice (by rw [hkind]; rfl)]
      exact (boundParts_failsOnly side plan.layout.clusteringFields).map _
  | dense =>
      rw [cellBound_composite side hslice (by rw [hkind]; rfl)]
      exact (boundParts_failsOnly side plan.layout.clusteringFields).map _

/-! ### Index predicates -/

/-- The predicates fail where a term of theirs does, and not where the index is not read. -/
theorem indexPredicates_failsOnly : FailsOnly Error.OfTerm (plan.indexPredicates vars) := by
  unfold indexPredicates
  split
  · exact failsOnly_ok _
  · refine FailsOnly.map (FailsOnly.mapM fun field _ => ?_) _
    unfold fieldPredicates
    split
    · exact failsOnly_ok _
    · refine FailsOnly.mapM fun comparison _ => ?_
      exact (comparison.2.value_failsOnly field vars).bind fun value => failsOnly_ok _

/-! ### Accepted queries -/

variable {settings : Settings} {query : Query} {layout : Layout} {indexed : List String}
  {bound : Restrictions}

/-- Where the cells of a table with clustering fields are read by name, each of the fields
has a single value. -/
theorem Compiled.single?_of_names (h : Compiled settings query layout indexed plan bound)
    (hslice : plan.isCellSlice = false) (hkind : plan.layout.kind ≠ .static) :
    ∀ field ∈ plan.layout.clusteringFields, ∃ term, plan.single? field = some term := by
  intro field hfield
  have hequality : plan.hasEquality field = true := by
    unfold isCellSlice at hslice
    rw [bne_iff_ne.mpr hkind, Bool.true_and, List.any_eq_false] at hslice
    simpa using hslice field hfield
  obtain ⟨values, hvalues⟩ := hasEquality_iff.mp hequality
  rw [h.layout_eq] at hfield
  have hmem := Layout.clusteringFields_subset hfield
  have hother := Layout.role_ne_of_mem_clusteringFields hfield
  rw [h.restriction?_eq hmem hother] at hvalues
  obtain ⟨value, rfl⟩ := h.single hmem hother hvalues
  rw [← h.restriction?_eq hmem hother] at hvalues
  exact ⟨value, by rw [single?, hvalues]; rfl⟩

/-- An accepted query has one way to its partitions and one way to its cells. Exact keys
are out of turn exactly where a range of keys is read; the key scan is never, and is told
by exact keys exactly where no range is read. Of cell names and slice bounds the one is
out of turn and the other is not, depending on whether a slice is read. Index predicates
are never out of turn. And all calls that are in turn fail for a term only. -/
theorem access_path (h : compile settings query layout indexed = .ok plan)
    (vars : List Bytes) :
    ((Violates (plan.keys vars) ↔ plan.isKeyRange = true) ∧
      ¬ Violates (plan.keyScan vars) ∧
      ∀ scan, plan.keyScan vars = .ok scan →
        ((∃ keys, scan = .keys keys) ↔ plan.isKeyRange = false)) ∧
    ((plan.isCellSlice = true →
        Violates (plan.cellNames vars) ∧ ∀ side, ¬ Violates (plan.cellBound side vars)) ∧
      (plan.isCellSlice = false →
        (∀ side, Violates (plan.cellBound side vars)) ∧ ¬ Violates (plan.cellNames vars))) ∧
    ¬ Violates (plan.indexPredicates vars) ∧
    ((plan.isKeyRange = false → FailsOnly Error.OfTerm (plan.keys vars)) ∧
      (plan.isKeyRange = true → ∀ side, FailsOnly Error.OfTerm (plan.keyBound side vars)) ∧
      FailsOnly Error.OfTerm (plan.keyScan vars) ∧
      (plan.isCellSlice = true → ∀ side, FailsOnly Error.OfTerm (plan.cellBound side vars)) ∧
      (plan.isCellSlice = false → FailsOnly Error.OfTerm (plan.cellNames vars)) ∧
      FailsOnly Error.OfTerm (plan.indexPredicates vars)) := by
  obtain ⟨bound, hcompiled⟩ := compile_eq_ok h
  have hrange : plan.isKeyRange = !plan.hasEquality plan.layout.keyField := by
    rw [hcompiled.isKeyRange_eq, hcompiled.layout_eq]
  have hequal : plan.isKeyRange = false → plan.hasEquality plan.layout.keyField = true := by
    intro hfalse
    simpa [hfalse] using hrange.symm
  have hunequal : plan.isKeyRange = true → plan.hasEquality plan.layout.keyField = false := by
    intro htrue
    simpa [htrue] using hrange.symm
  have hnames : plan.isCellSlice = false → FailsOnly Error.OfTerm (plan.cellNames vars) :=
    fun hslice => cellNames_failsOnly hslice (hcompiled.single?_of_names hslice)
  refine ⟨⟨⟨fun hviolates => ?_, fun htrue => violates_keys (hunequal htrue)⟩,
    not_violates (keyScan_failsOnly hrange), fun scan => keyScan_eq_keys_iff⟩,
    ⟨fun hslice => ⟨violates_cellNames hslice, fun side =>
      not_violates (cellBound_failsOnly hslice side)⟩,
      fun hslice => ⟨violates_cellBound hslice, not_violates (hnames hslice)⟩⟩,
    not_violates indexPredicates_failsOnly,
    fun hfalse => keys_failsOnly (hequal hfalse),
    fun htrue => keyBound_failsOnly (hunequal htrue), keyScan_failsOnly hrange,
    cellBound_failsOnly, hnames, indexPredicates_failsOnly⟩
  -- Exact keys that are not out of turn would be there.
  by_contra hrange
  exact not_violates (keys_failsOnly (hequal (Bool.eq_false_iff.mpr hrange))) hviolates

/-- Accounts, which are indexed by their city. -/
def accounts : Layout :=
  { name := "accounts", kind := .static, key := ⟨"id", .utf8⟩, metadata := [⟨"city", .utf8⟩]
    fits_kind := by decide, names_nodup := by decide }

/-- One account, if it is in a city. -/
def accountInCity : Query :=
  { table := "accounts"
    conditions := [.compare ⟨"id", true⟩ .eq (.bind 0), .compare ⟨"city", true⟩ .eq (.bind 1)] }

/-- The index is read over a range of keys, though the query gives a single one, and the
city is missing among the variables. -/
theorem access_path_accounts :
    ∃ plan, compile { identifierCase := .preserve } accountInCity accounts ["city"] = .ok plan ∧
      Violates (plan.keys [[0x61]]) ∧ ¬ Violates (plan.keyScan [[0x61]]) ∧
      plan.indexPredicates [[0x61]] = .error (.missingVariable 1 1) ∧
      ¬ Violates (plan.indexPredicates [[0x61]]) := by
  have hpath := @access_path _ { identifierCase := .preserve } accountInCity accounts ["city"]
    rfl [[0x61]]
  exact ⟨_, rfl, hpath.1.1.mpr rfl, hpath.1.2.1, rfl, hpath.2.2.1⟩

end Plan

end WideColumn
