import Mathlib.Data.List.Nodup
import WideColumn.Numbering
import WideColumn.Proofs.Layout

/-!
# `WideColumn.Proofs.Numbering`: the numbers of fields agree with their roles

A numbering grows by one field at a time. `Consistent` says that the numbers noted for a
role are those of the fields with that role, and that no number is noted twice.
`Grows.consistent` is the step: whatever a field is added as, the numbers stay consistent,
as the new number is past all that have been given. The theorems:

* `numbering_fields`: what is numbered are the fields in schema order.
* `consistent_numbering`: the numbers of every declaration are consistent.
* `lookup_eq_some_iff`: a name finds the number of its field.
* `build_eq_ok_iff`: which declarations are layouts.
* `build_callAll`: what the calls that make a declaration say of its layout.
-/

set_option autoImplicit false

namespace WideColumn

/-- What stands where in a list with one more element. -/
theorem getElem?_concat_eq_some_iff {α : Type} {xs : List α} {x y : α} {i : Nat} :
    (xs ++ [x])[i]? = some y ↔ xs[i]? = some y ∨ i = xs.length ∧ x = y := by
  rcases Nat.lt_trichotomy i xs.length with hlt | rfl | hgt
  · rw [List.getElem?_append_left hlt]
    simp [Nat.ne_of_lt hlt]
  · simp
  · have hlast : [x][i - xs.length]? = none := List.getElem?_eq_none (by simp; omega)
    rw [List.getElem?_append_right (Nat.le_of_lt hgt), hlast,
      List.getElem?_eq_none (Nat.le_of_lt hgt)]
    simp [Nat.ne_of_gt hgt]

/-- Where keys are distinct, a lookup finds every pair. -/
theorem lookup_eq_some_iff_of_nodup {α β : Type} [BEq α] [LawfulBEq α] {pairs : List (α × β)}
    (h : (pairs.map Prod.fst).Nodup) {a : α} {b : β} :
    pairs.lookup a = some b ↔ (a, b) ∈ pairs := by
  induction pairs with
  | nil => simp
  | cons pair rest ih =>
      obtain ⟨key, value⟩ := pair
      obtain ⟨hkey, hrest⟩ := List.nodup_cons.mp h
      by_cases hak : a = key
      · subst hak
        have hnone : (a, b) ∉ rest := fun hmem => hkey (List.mem_map.mpr ⟨_, hmem, rfl⟩)
        simp [hnone, eq_comm]
      · rw [List.lookup_cons, beq_eq_false_iff_ne.mpr hak, ih hrest]
        simp [hak]

namespace Numbering

variable {numbering before after : Numbering} {field : Field} {decl : FieldDecl}
  {id : FieldId} {role : Role} {name : String}

/-! ### One more field -/

/-- The number is noted for the role. -/
def Gives (numbering : Numbering) (id : FieldId) : Role → Prop
  | .partitionKey => id = 0
  | .clustering position => numbering.clustering[position]? = some id
  | .value => numbering.value = some id
  | .metadata => id ∈ numbering.metadata

/-- The numbers noted for a role are those of the fields with that role, and none is
noted twice. -/
structure Consistent (numbering : Numbering) : Prop where
  gives_iff : ∀ id role, numbering.Gives id role ↔
    (numbering.fields[id]?).map Field.role = some role
  nodup : numbering.ids.Nodup

/-- The numbering with one more field: it is listed last, and its number is noted for its
role. -/
structure Grows (before after : Numbering) (field : Field) : Prop where
  fields : after.fields = before.fields ++ [field]
  gives_iff : ∀ id role, after.Gives id role ↔
    before.Gives id role ∨ id = before.next ∧ field.role = role
  ids : after.ids.Perm (before.next :: before.ids)

/-- A clustering field takes the next number and the next position. -/
theorem grows_addClustering (numbering : Numbering) (decl : FieldDecl) :
    Grows numbering (numbering.addClustering decl)
      (decl.as (.clustering numbering.clustering.length)) where
  fields := rfl
  gives_iff id role := by
    cases role with
    | clustering position =>
        show (numbering.clustering ++ [numbering.next])[position]? = some id ↔ _
        rw [getElem?_concat_eq_some_iff]
        simp [Gives, FieldDecl.as, eq_comm, and_comm]
    | _ => simp [Gives, addClustering, FieldDecl.as]
  ids := by
    simp only [ids, addClustering, List.append_assoc, List.singleton_append]
    exact List.perm_middle

/-- The value field is added where there is none: the number of an earlier one would be
lost. -/
theorem grows_addValue (h : numbering.value = none) (decl : FieldDecl) :
    Grows numbering (numbering.addValue decl) (decl.as .value) where
  fields := rfl
  gives_iff id role := by
    cases role with
    | value => simp [Gives, addValue, FieldDecl.as, h, eq_comm]
    | _ => simp [Gives, addValue, FieldDecl.as]
  ids := by
    simp only [ids, addValue, h, Option.toList_some, Option.toList_none, List.append_nil,
      List.append_assoc, List.singleton_append]
    exact List.perm_middle

/-- A metadata field takes the next number. -/
theorem grows_addMetadata (numbering : Numbering) (decl : FieldDecl) :
    Grows numbering (numbering.addMetadata decl) (decl.as .metadata) where
  fields := rfl
  gives_iff id role := by
    cases role with
    | metadata => simp [Gives, addMetadata, FieldDecl.as]
    | _ => simp [Gives, addMetadata, FieldDecl.as]
  ids := by
    simp only [ids, addMetadata]
    rw [← List.append_assoc]
    exact List.perm_append_singleton _ _

/-- Every number is noted for a role. -/
theorem exists_gives (h : id ∈ numbering.ids) : ∃ role, numbering.Gives id role := by
  simp only [ids, List.mem_append, Option.mem_toList] at h
  rcases h with (hclustering | hvalue) | hmetadata
  · obtain ⟨position, hposition⟩ := List.mem_iff_getElem?.mp hclustering
    exact ⟨.clustering position, hposition⟩
  · exact ⟨.value, hvalue⟩
  · exact ⟨.metadata, hmetadata⟩

/-- The numbers are places of fields. -/
theorem Consistent.lt_next (h : Consistent numbering) (hid : id ∈ numbering.ids) :
    id < numbering.next := by
  obtain ⟨role, hrole⟩ := exists_gives hid
  obtain ⟨field, hfield, -⟩ := Option.map_eq_some_iff.mp ((h.gives_iff id role).mp hrole)
  exact (List.getElem?_eq_some_iff.mp hfield).1

/-- The numbers stay consistent: the next number has not been given before. -/
theorem Grows.consistent (grows : Grows before after field) (h : Consistent before) :
    Consistent after where
  gives_iff id role := by
    -- The roles of the fields grow at the end, as the numbers noted for them do.
    have hmap : (after.fields.map Field.role)[id]? = some role ↔
        (before.fields.map Field.role)[id]? = some role ∨
          id = before.next ∧ field.role = role := by
      rw [grows.fields, List.map_append, List.map_singleton, getElem?_concat_eq_some_iff,
        List.length_map]
      rfl
    rw [List.getElem?_map, List.getElem?_map] at hmap
    rw [hmap, grows.gives_iff, h.gives_iff]
  nodup := by
    rw [grows.ids.nodup_iff, List.nodup_cons]
    exact ⟨fun hmem => Nat.lt_irrefl _ (h.lt_next hmem), h.nodup⟩

/-! ### All fields -/

/-- A partition key alone is consistent. -/
theorem consistent_keyed (key : FieldDecl) : Consistent { fields := [key.as .partitionKey] } where
  gives_iff id role := by
    cases id <;> cases role <;> simp [Gives, FieldDecl.as]
  nodup := List.nodup_nil

/-- Adding fields one by one keeps the numbers consistent. -/
theorem consistent_foldl {add : Numbering → FieldDecl → Numbering}
    (step : ∀ before decl, Consistent before → Consistent (add before decl))
    (decls : List FieldDecl) (h : Consistent numbering) :
    Consistent (decls.foldl add numbering) := by
  induction decls generalizing numbering with
  | nil => exact h
  | cons decl rest ih => exact ih (step numbering decl h)

/-- Clustering fields leave the value field as it is. -/
theorem value_foldl_addClustering (numbering : Numbering) (decls : List FieldDecl) :
    (decls.foldl addClustering numbering).value = numbering.value := by
  induction decls generalizing numbering with
  | nil => rfl
  | cons decl rest ih => exact ih (numbering.addClustering decl)

/-- Clustering fields come after those before, each at the next position. -/
theorem fields_foldl_addClustering (numbering : Numbering) (decls : List FieldDecl) :
    (decls.foldl addClustering numbering).fields =
      numbering.fields ++ decls.mapIdx fun position decl =>
        decl.as (.clustering (numbering.clustering.length + position)) := by
  induction decls generalizing numbering with
  | nil => simp
  | cons decl rest ih =>
      rw [List.foldl_cons, ih]
      simp [addClustering, List.mapIdx_cons, Nat.add_comm, Nat.add_left_comm]

/-- Metadata fields come after those before, in the order they are declared. -/
theorem fields_foldl_addMetadata (numbering : Numbering) (decls : List FieldDecl) :
    (decls.foldl addMetadata numbering).fields =
      numbering.fields ++ decls.map fun decl => decl.as .metadata := by
  induction decls generalizing numbering with
  | nil => simp
  | cons decl rest ih =>
      rw [List.foldl_cons, ih]
      simp [addMetadata]

/-- What is numbered are the fields of the table in schema order. -/
theorem numbering_fields (table : Declaration) : table.numbering.fields = table.fields := by
  unfold Declaration.numbering
  rw [fields_foldl_addMetadata]
  cases hvalue : table.value <;>
    simp [addValue, fields_foldl_addClustering, Declaration.fields, Declaration.clusteringFields,
      Declaration.valueField?, Declaration.metadataFields, hvalue]

/-- The numbers of a declaration agree with the roles of its fields, whatever has been
declared. -/
theorem consistent_numbering (table : Declaration) : Consistent table.numbering := by
  have clustered := consistent_foldl
    (fun before decl h => (grows_addClustering before decl).consistent h)
    table.clustering (consistent_keyed table.key)
  refine consistent_foldl (fun before decl h => (grows_addMetadata before decl).consistent h)
    table.metadata ?_
  cases table.value with
  | none => exact clustered
  | some decl =>
      -- Only clustering fields have been added to the partition key.
      have hnone := value_foldl_addClustering { fields := [table.keyField] } table.clustering
      exact (grows_addValue hnone decl).consistent clustered

/-! ### Names -/

/-- Where fields have names of their own, a name finds the number of its field. -/
theorem lookup_eq_some_iff (h : (numbering.fields.map Field.name).Nodup) :
    numbering.lookup name = some id ↔
      ∃ field, numbering.fields[id]? = some field ∧ field.name = name := by
  -- Names are noted from the first field on, each in front of those before.
  have hpairs : numbering.byName =
      (numbering.fields.zipIdx.map fun entry => (entry.1.name, entry.2)).reverse := by
    unfold byName
    rw [List.foldl_flip_cons_eq_append, List.append_nil]
  have hkeys : (numbering.byName.map Prod.fst).Nodup := by
    rw [hpairs, List.map_reverse, List.nodup_reverse, List.map_map]
    show (numbering.fields.zipIdx.map (Field.name ∘ Prod.fst)).Nodup
    rwa [← List.map_map, List.zipIdx_map_fst]
  rw [lookup, lookup_eq_some_iff_of_nodup hkeys, hpairs, List.mem_reverse, List.mem_map]
  constructor
  · rintro ⟨⟨field, place⟩, hmem, hpair⟩
    obtain ⟨rfl, rfl⟩ := Prod.mk.inj hpair
    exact ⟨field, List.mk_mem_zipIdx_iff_getElem?.mp hmem, rfl⟩
  · rintro ⟨field, hfield, rfl⟩
    exact ⟨(field, id), List.mk_mem_zipIdx_iff_getElem?.mpr hfield, rfl⟩

end Numbering

/-! ### Declaring -/

/-- The clustering, value and metadata fields that a kind has. -/
def Kind.Fits (kind : Kind) (clustering : List FieldDecl)
    (value : Option FieldDecl) (metadata : List FieldDecl) : Prop :=
  match kind with
  | .static => clustering = [] ∧ value = none
  | .sparse => clustering ≠ [] ∧ value = none
  | .dynamic => clustering.length = 1 ∧ metadata = []
  | .dense => clustering ≠ [] ∧ value ≠ none ∧ metadata = []

namespace Declaration

open WideColumn.Numbering

/-- The clustering field a call declares. -/
def Call.clustering? : Call → Option FieldDecl
  | .clustering decl => some decl
  | _ => none

/-- The value field a call declares. -/
def Call.value? : Call → Option FieldDecl
  | .value decl => some decl
  | _ => none

/-- The metadata field a call declares. -/
def Call.metadata? : Call → Option FieldDecl
  | .metadata decl => some decl
  | _ => none

/-- Clustering and metadata fields add up in the order of the calls, and the last value
field is the one that stays. -/
theorem callAll_eq (table : Declaration) (calls : List Call) :
    table.callAll calls =
      { table with
        clustering := table.clustering ++ calls.filterMap Call.clustering?
        value := (calls.filterMap Call.value?).getLast?.or table.value
        metadata := table.metadata ++ calls.filterMap Call.metadata? } := by
  induction calls generalizing table with
  | nil => simp [callAll]
  | cons made rest ih =>
      have hstep : table.callAll (made :: rest) = (table.call made).callAll rest := rfl
      rw [hstep, ih]
      cases made with
      | clustering decl =>
          simp [call, addClustering, List.filterMap_cons, Call.clustering?, Call.value?,
            Call.metadata?]
      | metadata decl =>
          simp [call, addMetadata, List.filterMap_cons, Call.clustering?, Call.value?,
            Call.metadata?]
      | value decl =>
          simp [call, setValue, List.filterMap_cons, Call.clustering?, Call.value?,
            Call.metadata?, List.getLast?_cons]

/-- The check of a declaration decides whether its fields fit the kind. -/
theorem fits_iff (table : Declaration) :
    table.fits = true ↔ table.kind.Fits table.clustering table.value table.metadata := by
  unfold fits Kind.admits Kind.Fits
  cases table.kind <;> simp [List.length_eq_zero_iff, Option.isSome_iff_ne_none, and_assoc]

/-- A declaration is a layout exactly where its fields fit the kind and their names differ,
and the layout is the declaration. -/
theorem build_eq_ok_iff (table : Declaration) (layout : Layout) :
    table.build = .ok layout ↔ layout.toDeclaration = table := by
  constructor
  · intro h
    unfold build at h
    split at h
    · split at h
      · cases h
      · cases h
        rfl
    · cases h
  · rintro rfl
    exact layout.build_toDeclaration

/-- A declaration is accepted where its fields fit the kind and their names differ. -/
theorem exists_build_iff (table : Declaration) :
    (∃ layout, table.build = .ok layout) ↔ table.fits = true ∧ table.names.Nodup := by
  simp only [build_eq_ok_iff]
  constructor
  · rintro ⟨layout, rfl⟩
    exact ⟨layout.fits_kind, layout.names_nodup⟩
  · rintro ⟨hfits, hnames⟩
    exact ⟨⟨table, hfits, hnames⟩, rfl⟩

/-- The names are those of the key, the clustering fields, the value field and the metadata. -/
theorem names_eq (table : Declaration) :
    table.names =
      (table.key :: table.clustering ++ table.value.toList ++ table.metadata).map
        FieldDecl.name := by
  have hclustering : table.clusteringFields.map Field.name =
      table.clustering.map FieldDecl.name := by
    unfold clusteringFields
    apply List.ext_getElem?
    intro position
    rw [List.getElem?_map, List.getElem?_mapIdx, List.getElem?_map, Option.map_map]
    rfl
  cases hvalue : table.value <;>
    simp [names, fields, hclustering, keyField, valueField?, metadataFields, hvalue,
      FieldDecl.as, Function.comp_def]

end Declaration

/-- What a layout of these fields is to be: they stand in schema order, each in its role,
every number is that of the one field with its role, and names find numbers. -/
structure Layout.WellFormed (layout : Layout) (key : FieldDecl) (clustering : List FieldDecl)
    (value : Option FieldDecl) (metadata : List FieldDecl) : Prop where
  fields : layout.fields = key.as .partitionKey ::
    ((clustering.mapIdx fun position decl => decl.as (.clustering position)) ++
      (value.map fun decl => decl.as .value).toList ++
      metadata.map fun decl => decl.as .metadata)
  numbered : layout.numbering.fields = layout.fields
  within : ∀ id ∈ layout.numbering.ids, id < layout.fields.length
  distinct : layout.numbering.ids.Nodup
  role_partitionKey : ∀ (id : FieldId) (field : Field), layout.fields[id]? = some field →
    (field.role = .partitionKey ↔ id = 0)
  role_clustering : ∀ (id : FieldId) (field : Field), layout.fields[id]? = some field →
    ∀ position, field.role = .clustering position ↔
      layout.numbering.clustering[position]? = some id
  role_value : ∀ (id : FieldId) (field : Field), layout.fields[id]? = some field →
    (field.role = .value ↔ layout.numbering.value = some id)
  role_metadata : ∀ (id : FieldId) (field : Field), layout.fields[id]? = some field →
    (field.role = .metadata ↔ id ∈ layout.numbering.metadata)
  lookup_iff : ∀ name id, layout.numbering.lookup name = some id ↔
    ∃ field, layout.fields[id]? = some field ∧ field.name = name
  lookup : ∀ name, layout.lookup name =
    (layout.numbering.lookup name).bind fun id => layout.fields[id]?

namespace Layout

open WideColumn.Numbering

variable (layout : Layout) {id : FieldId} {field : Field}

/-- The role of a field is the role its number is noted for. -/
theorem role_eq_iff (h : layout.fields[id]? = some field) (role : Role) :
    field.role = role ↔ layout.numbering.Gives id role := by
  rw [(consistent_numbering layout.toDeclaration).gives_iff, numbering_fields, h]
  simp

/-- A name finds the number of the field it is the name of. -/
theorem numbering_lookup_iff (name : String) (id : FieldId) :
    layout.numbering.lookup name = some id ↔
      ∃ field, layout.fields[id]? = some field ∧ field.name = name := by
  have hnames : (layout.numbering.fields.map Field.name).Nodup := by
    rw [numbering_fields]
    exact layout.names_nodup
  rw [Numbering.lookup_eq_some_iff hnames, numbering_fields]

/-- The field found by its name is the one whose number is found. -/
theorem lookup_eq_bind (name : String) :
    layout.lookup name = (layout.numbering.lookup name).bind fun id => layout.fields[id]? := by
  apply Option.ext
  intro field
  rw [lookup_eq_some_iff, Option.bind_eq_some_iff]
  constructor
  · rintro ⟨hmem, hname⟩
    obtain ⟨id, hid⟩ := List.mem_iff_getElem?.mp hmem
    exact ⟨id, (layout.numbering_lookup_iff name id).mpr ⟨field, hid, hname⟩, hid⟩
  · rintro ⟨id, hfound, hid⟩
    obtain ⟨other, hother, hname⟩ := (layout.numbering_lookup_iff name id).mp hfound
    obtain rfl : other = field := Option.some.inj (hother.symm.trans hid)
    exact ⟨List.mem_of_getElem? hid, hname⟩

/-- Every layout is well formed. -/
theorem wellFormed :
    layout.WellFormed layout.key layout.clustering layout.value layout.metadata where
  fields := rfl
  numbered := numbering_fields _
  within id hid := by
    have hlt := (consistent_numbering layout.toDeclaration).lt_next hid
    rwa [next, numbering_fields] at hlt
  distinct := (consistent_numbering layout.toDeclaration).nodup
  role_partitionKey _ _ h := layout.role_eq_iff h _
  role_clustering _ _ h position := layout.role_eq_iff h (.clustering position)
  role_value _ _ h := layout.role_eq_iff h _
  role_metadata _ _ h := layout.role_eq_iff h _
  lookup_iff := layout.numbering_lookup_iff
  lookup := layout.lookup_eq_bind

end Layout

namespace Declaration

/-- A table that is told its fields one by one is a layout exactly where they fit its kind
and their names differ, and then the layout has these fields in schema order and finds
each by its number and its name. -/
theorem build_callAll (name : String) (kind : Kind) (key : FieldDecl) (calls : List Call) :
    let table := ({ name, kind, key } : Declaration).callAll calls
    let clustering := calls.filterMap Call.clustering?
    let value := (calls.filterMap Call.value?).getLast?
    let metadata := calls.filterMap Call.metadata?
    ((∃ layout, table.build = .ok layout) ↔
        kind.Fits clustering value metadata ∧
          ((key :: clustering ++ value.toList ++ metadata).map FieldDecl.name).Nodup) ∧
      ∀ layout, table.build = .ok layout →
        layout.name = name ∧ layout.kind = kind ∧
          layout.WellFormed key clustering value metadata := by
  intro table clustering value metadata
  have htable : table = { name, kind, key, clustering, value, metadata } := by
    simp [table, callAll_eq, clustering, value, metadata]
  constructor
  · rw [exists_build_iff, fits_iff, names_eq, htable]
  · intro layout hbuild
    have hdeclared := ((build_eq_ok_iff table layout).mp hbuild).trans htable
    have hwell := layout.wellFormed
    rw [hdeclared] at hwell ⊢
    exact ⟨rfl, rfl, hwell⟩

/-- The last value field stays, and it has the number after the clustering fields, whenever
they are declared. -/
theorem build_callAll_dense :
    ∃ layout, (({ name := "counts", kind := .dense, key := ⟨"id", .utf8⟩ } :
        Declaration).callAll [.clustering ⟨"day", .int32⟩, .value ⟨"total", .bytes⟩,
          .clustering ⟨"seq", .bigInt⟩, .value ⟨"hits", .counter⟩]).build = .ok layout ∧
      layout.fields.map Field.name = ["id", "day", "seq", "hits"] ∧
      layout.numbering.lookup "hits" = some 3 ∧ layout.numbering.value = some 3 := by
  obtain ⟨hbuild, hlayout⟩ := build_callAll "counts" .dense ⟨"id", .utf8⟩
    [.clustering ⟨"day", .int32⟩, .value ⟨"total", .bytes⟩, .clustering ⟨"seq", .bigInt⟩,
      .value ⟨"hits", .counter⟩]
  obtain ⟨layout, hok⟩ := hbuild.mpr ⟨⟨nofun, nofun, rfl⟩, by decide⟩
  obtain ⟨-, -, hwell⟩ := hlayout layout hok
  have hhits : layout.fields[3]? = some ⟨"hits", .value, .counter⟩ := by
    rw [hwell.fields]
    rfl
  refine ⟨layout, hok, ?_, (hwell.lookup_iff "hits" 3).mpr ⟨_, hhits, rfl⟩,
    (hwell.role_value 3 _ hhits).mp rfl⟩
  rw [hwell.fields]
  rfl

end Declaration

end WideColumn
