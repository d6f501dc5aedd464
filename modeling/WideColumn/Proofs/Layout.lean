import Mathlib.Data.List.Nodup
import WideColumn.Layout

/-!
# `WideColumn.Proofs.Layout`: finding a layout's fields

A layout's fields have names of their own, so a field is found by its name, and a
role tells where in the declaration a field stands. The theorems:

* `build_toDeclaration`: layouts are exactly what declarations build to.
* `lookup_eq_some_iff`: a name finds the one field that has it.
* `place_of_role`: the role of a field tells its place, and so
  `getElem?_clusteringFields_iff`, `eq_keyField_iff` and `mem_metadataFields_iff` tell the
  fields of a role.
* `eq_of_key_eq`: a key is the key of one field only.
* `Kind.isComposite_eq_true_iff` and its siblings: which kinds a test lets through.
* `admits`: what the kind of a layout says of its fields, and of the number of
  components of its names.
-/

set_option autoImplicit false

namespace WideColumn

/-- Different texts have different bytes. -/
theorem Text.Utf8.ofString_injective {text other : String}
    (h : Text.Utf8.ofString text = Text.Utf8.ofString other) : text = other := by
  rw [← String.toByteArray_inj, ← String.utf8Encode_toList, ← String.utf8Encode_toList]
  exact congrArg List.toByteArray h

/-- What is found by a test only one element can pass. -/
theorem find?_eq_some_iff_of_unique {α : Type} {test : α → Bool} {xs : List α}
    (unique : ∀ a ∈ xs, ∀ b ∈ xs, test a = true → test b = true → a = b) {a : α} :
    xs.find? test = some a ↔ a ∈ xs ∧ test a = true := by
  constructor
  · intro h
    exact ⟨List.mem_of_find?_eq_some h, List.find?_some h⟩
  · rintro ⟨hmem, htest⟩
    cases hfind : xs.find? test with
    | none => exact absurd htest (List.find?_eq_none.mp hfind a hmem)
    | some b =>
        have hb := List.mem_of_find?_eq_some hfind
        rw [unique b hb a hmem (List.find?_some hfind) htest]

/-- Distinct names are not found to repeat. -/
theorem firstRepeated_of_nodup {names seen : List String} (h : names.Nodup)
    (apart : ∀ name ∈ names, name ∉ seen) : firstRepeated seen names = none := by
  induction names generalizing seen with
  | nil => rfl
  | cons name rest ih =>
      obtain ⟨hname, hrest⟩ := List.nodup_cons.mp h
      rw [firstRepeated, if_neg (apart name List.mem_cons_self)]
      refine ih hrest fun other hother => ?_
      rw [List.mem_cons, not_or]
      exact ⟨fun heq => hname (heq ▸ hother), apart other (List.mem_cons_of_mem _ hother)⟩

namespace Layout

/-- Every layout is what its own declaration builds to. -/
theorem build_toDeclaration (layout : Layout) : layout.toDeclaration.build = .ok layout := by
  have hnames : firstRepeated [] layout.names = none :=
    firstRepeated_of_nodup layout.names_nodup (by simp)
  unfold Declaration.build
  rw [dif_pos layout.fits_kind]
  split
  · next field hfield => rw [hnames] at hfield; cases hfield
  · rfl

variable {layout : Layout} {field : Field} {name : String}

/-- Fields of one name are one field. -/
theorem eq_of_name_eq {other : Field} (h : field ∈ layout.fields) (h' : other ∈ layout.fields)
    (hname : field.name = other.name) : field = other :=
  List.inj_on_of_nodup_map layout.names_nodup h h' hname

/-- Fields of one key are one field. -/
theorem eq_of_key_eq {other : Field} (h : field ∈ layout.fields) (h' : other ∈ layout.fields)
    (hkey : field.key = other.key) : field = other :=
  eq_of_name_eq h h' (Text.Utf8.ofString_injective hkey)

/-- A name finds the field it is the name of, and no other. -/
theorem lookup_eq_some_iff :
    layout.lookup name = some field ↔ field ∈ layout.fields ∧ field.name = name := by
  unfold Declaration.lookup
  rw [find?_eq_some_iff_of_unique, beq_iff_eq]
  intro one hone other hother hname hname'
  exact eq_of_name_eq hone hother ((beq_iff_eq.mp hname).trans (beq_iff_eq.mp hname').symm)

/-! ### Roles -/

/-- The partition key is one of the fields. -/
theorem keyField_mem (layout : Layout) : layout.keyField ∈ layout.fields :=
  List.mem_cons_self

/-- A field is the partition key, a clustering field, the value field or a metadata field. -/
theorem mem_fields_iff :
    field ∈ layout.fields ↔ field = layout.keyField ∨ field ∈ layout.clusteringFields ∨
      field ∈ layout.valueField? ∨ field ∈ layout.metadataFields := by
  simp [Declaration.fields]

/-- Clustering fields have a position. -/
theorem role_of_mem_clusteringFields (h : field ∈ layout.clusteringFields) :
    ∃ position, field.role = .clustering position := by
  obtain ⟨position, hposition, rfl⟩ := List.mem_mapIdx.mp h
  exact ⟨position, rfl⟩

/-- The value field has the role of a value. -/
theorem role_of_mem_valueField? (h : field ∈ layout.valueField?) : field.role = .value := by
  obtain ⟨decl, -, rfl⟩ := Option.map_eq_some_iff.mp h
  rfl

/-- Metadata fields have the role of metadata. -/
theorem role_of_mem_metadataFields (h : field ∈ layout.metadataFields) :
    field.role = .metadata := by
  obtain ⟨decl, -, rfl⟩ := List.mem_map.mp h
  rfl

/-- There is a field for each clustering declaration. -/
@[simp]
theorem length_clusteringFields (layout : Layout) :
    layout.clusteringFields.length = layout.clustering.length := by
  simp [Declaration.clusteringFields]

/-- Clustering fields are fields of the table. -/
theorem clusteringFields_subset (h : field ∈ layout.clusteringFields) :
    field ∈ layout.fields :=
  mem_fields_iff.mpr (.inr (.inl h))

/-- No clustering field is the partition key. -/
theorem role_ne_of_mem_clusteringFields (h : field ∈ layout.clusteringFields) :
    field.role ≠ .partitionKey := by
  obtain ⟨position, hrole⟩ := role_of_mem_clusteringFields h
  rw [hrole]
  nofun

/-- Metadata fields are fields of the table. -/
theorem metadataFields_subset (h : field ∈ layout.metadataFields) : field ∈ layout.fields :=
  mem_fields_iff.mpr (.inr (.inr (.inr h)))

/-- No metadata field is there twice, because no name is. -/
theorem nodup_metadataFields (layout : Layout) : layout.metadataFields.Nodup := by
  have hfields : layout.fields.Nodup := layout.names_nodup.of_map
  exact hfields.sublist ((List.sublist_append_right _ _).cons _)

/-- Where a field stands among the fields, told by its role. -/
theorem place_of_role (h : field ∈ layout.fields) :
    match field.role with
    | .partitionKey => field = layout.keyField
    | .clustering position => layout.clusteringFields[position]? = some field
    | .value => field ∈ layout.valueField?
    | .metadata => field ∈ layout.metadataFields := by
  rcases mem_fields_iff.mp h with rfl | hclustering | hvalue | hmetadata
  · rfl
  · obtain ⟨position, hposition, rfl⟩ := List.mem_mapIdx.mp hclustering
    show layout.clusteringFields[position]? = _
    simp [Declaration.clusteringFields, hposition]
  · rw [role_of_mem_valueField? hvalue]
    exact hvalue
  · rw [role_of_mem_metadataFields hmetadata]
    exact hmetadata

/-- The clustering fields are the fields with the role of one, each at its
position. -/
theorem getElem?_clusteringFields_iff {position : Nat} :
    layout.clusteringFields[position]? = some field ↔
      field ∈ layout.fields ∧ field.role = .clustering position := by
  constructor
  · intro h
    refine ⟨clusteringFields_subset (List.mem_of_getElem? h), ?_⟩
    rw [Declaration.clusteringFields, List.getElem?_mapIdx] at h
    obtain ⟨decl, -, rfl⟩ := Option.map_eq_some_iff.mp h
    rfl
  · rintro ⟨hmem, hrole⟩
    have hplace := place_of_role hmem
    rwa [hrole] at hplace

/-- The role tells the partition key from all other fields. -/
theorem eq_keyField_iff (h : field ∈ layout.fields) :
    field = layout.keyField ↔ field.role = .partitionKey := by
  constructor
  · rintro rfl
    rfl
  · intro hrole
    have hplace := place_of_role h
    rwa [hrole] at hplace

/-- The role tells metadata fields from all other fields, too. -/
theorem mem_metadataFields_iff :
    field ∈ layout.metadataFields ↔ field ∈ layout.fields ∧ field.role = .metadata := by
  constructor
  · exact fun h => ⟨metadataFields_subset h, role_of_mem_metadataFields h⟩
  · rintro ⟨hmem, hrole⟩
    have hplace := place_of_role hmem
    rwa [hrole] at hplace

/-- A field that is not the partition key has another name. -/
theorem name_ne_keyField (h : field ∈ layout.fields) (hrole : field.role ≠ .partitionKey) :
    field.name ≠ layout.keyField.name := fun hname =>
  hrole ((eq_keyField_iff h).mp (eq_of_name_eq h layout.keyField_mem hname))

/-! ### Kinds -/

end Layout

/-- The kinds with composite cell names. -/
theorem Kind.isComposite_eq_true_iff {kind : Kind} :
    kind.isComposite = true ↔ kind = .sparse ∨ kind = .dense := by
  cases kind <;> decide

/-- The kinds with one cell per logical row. -/
theorem Kind.isCompact_eq_true_iff {kind : Kind} :
    kind.isCompact = true ↔ kind = .dynamic ∨ kind = .dense := by
  cases kind <;> decide

/-- The kinds with a cell for every metadata field of a logical row. -/
theorem Kind.isCompact_eq_false_iff {kind : Kind} :
    kind.isCompact = false ↔ kind = .static ∨ kind = .sparse := by
  cases kind <;> decide

namespace Layout

variable {layout : Layout}

/-- The fields of a layout fit its kind. -/
theorem admits (layout : Layout) :
    layout.kind.admits layout.clustering.length layout.value.isSome layout.metadata.length =
      true :=
  layout.fits_kind

/-- A static table has no clustering fields. -/
theorem clustering_of_static (h : layout.kind = .static) : layout.clustering = [] := by
  have hadmits := layout.admits
  rw [h] at hadmits
  have hnone := (Bool.and_eq_true_iff.mp hadmits).1
  exact List.length_eq_zero_iff.mp (beq_iff_eq.mp hnone)

/-- A dynamic table has a single one. -/
theorem length_clustering_of_dynamic (h : layout.kind = .dynamic) :
    layout.clustering.length = 1 := by
  have hadmits := layout.admits
  rw [h] at hadmits
  have hone := (Bool.and_eq_true_iff.mp hadmits).1
  exact beq_iff_eq.mp hone

/-- Tables with several cells a row have no value field. -/
theorem valueField?_of_wide (h : layout.kind.isCompact = false) : layout.valueField? = none := by
  have hadmits := layout.admits
  have hnone : layout.value.isSome = false := by
    rcases Kind.isCompact_eq_false_iff.mp h with hkind | hkind
    · rw [hkind] at hadmits
      simpa using (Bool.and_eq_true_iff.mp hadmits).2
    · rw [hkind] at hadmits
      simpa using (Bool.and_eq_true_iff.mp hadmits).2
  have hvalue : layout.value = none :=
    Option.isNone_iff_eq_none.mp (Option.isSome_eq_false_iff.mp hnone)
  rw [Declaration.valueField?, hvalue]
  rfl

/-- Static tables have a partition key and metadata. -/
theorem role_of_static (h : layout.kind = .static) {field : Field}
    (hmem : field ∈ layout.fields) : field.role = .partitionKey ∨ field.role = .metadata := by
  rcases mem_fields_iff.mp hmem with rfl | hclustering | hvalue | hmetadata
  · exact .inl rfl
  · rw [Declaration.clusteringFields, clustering_of_static h] at hclustering
    cases hclustering
  · rw [valueField?_of_wide (by rw [h]; rfl)] at hvalue
    cases hvalue
  · exact .inr (role_of_mem_metadataFields hmetadata)

/-- Tables with one cell a row have no metadata. -/
theorem metadataFields_of_compact (h : layout.kind.isCompact = true) :
    layout.metadataFields = [] := by
  have hadmits := layout.admits
  have hnone : layout.metadata.length = 0 := by
    rcases Kind.isCompact_eq_true_iff.mp h with hkind | hkind
    · rw [hkind] at hadmits
      simpa using (Bool.and_eq_true_iff.mp hadmits).2
    · rw [hkind] at hadmits
      simpa using (Bool.and_eq_true_iff.mp hadmits).2
  rw [Declaration.metadataFields, List.length_eq_zero_iff.mp hnone]
  rfl

/-- Sparse names have the clustering values and the name of a metadata field. -/
theorem arity_of_sparse (h : layout.kind = .sparse) :
    layout.arity = layout.clustering.length + 1 := by
  rw [Declaration.arity, h]

/-- Dense names have the clustering values only. -/
theorem arity_of_dense (h : layout.kind = .dense) : layout.arity = layout.clustering.length := by
  rw [Declaration.arity, h]

/-- A composite name has a component for every clustering field, and a sparse one has
one more. -/
theorem length_clustering_le_arity (h : layout.kind.isComposite = true) :
    layout.clustering.length ≤ layout.arity := by
  rcases Kind.isComposite_eq_true_iff.mp h with hkind | hkind
  · rw [arity_of_sparse hkind]
    exact Nat.le_succ _
  · exact Nat.le_of_eq (arity_of_dense hkind).symm

end Layout

end WideColumn
