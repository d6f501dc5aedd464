import WideColumn.Proofs.Composite.Order

/-!
# `WideColumn.Proofs.Composite.Format`: which byte strings are names

Reading accepts exactly what writing produces. The theorems:

* `readFrom_escape`: reading a closed component, whatever follows it.
* `escape_append_of_readFrom`: the invariant of reading. The component read so
  far, written again, and the bytes still to be read are the name of the parts.
* `read_eq_ok_iff`: `read` and `write` are inverse to each other.
* `split_eq_ok_iff`: the components of a name, which leave its markers open.
* `split_build_holding` / `split_buildEndOfRange_holding`: names that are built step by
  step are taken apart again.
-/

set_option autoImplicit false

namespace WideColumn.Composite

/-- Bytes are escaped one by one. -/
theorem escape_append (component rest : Bytes) :
    escape (component ++ rest) = escape component ++ escape rest :=
  List.flatMap_append

/-- The byte of a marker is its own, and no other marker's. -/
theorem Marker.toByte_of_ofByte? {b : UInt8} {marker : Marker}
    (h : Marker.ofByte? b = some marker) : marker.toByte = b := by
  unfold Marker.ofByte? at h
  split at h
  · cases h
    exact Eq.symm ‹_›
  · split at h
    · cases h
      exact Eq.symm ‹_›
    · split at h
      · cases h
        exact Eq.symm ‹_›
      · cases h

/-! ### The steps of reading -/

/-- A byte that is not zero is part of the component. -/
theorem readFrom_plain {b : UInt8} (h : b ≠ 0x00) (offset closed : Nat)
    (current rest : Bytes) :
    readFrom offset closed current (b :: rest) =
      readFrom (offset + 1) closed (current ++ [b]) rest := by
  cases rest <;> simp [readFrom, h]

/-- An escaped zero is a zero of the component. -/
theorem readFrom_escaped_zero (offset closed : Nat) (current rest : Bytes) :
    readFrom offset closed current (0x00 :: 0xFF :: rest) =
      readFrom (offset + 2) closed (current ++ [0x00]) rest := by
  simp [readFrom]

/-- A zero before a marker closes the component. -/
theorem readFrom_closing {m : UInt8} {marker : Marker} (h : Marker.ofByte? m = some marker)
    (offset closed : Nat) (current rest : Bytes) :
    readFrom offset closed current (0x00 :: m :: rest) =
      ((current, marker) :: ·) <$> readFrom (offset + 2) (closed + 1) [] rest := by
  have hm : m ≠ 0xFF := by
    rintro rfl
    cases h
  simp [readFrom, hm, h]

/-! ### Reading what has been written -/

/-- A closed component is read as itself. What has been read of it before stands in
front. -/
theorem readFrom_escape (offset closed : Nat) (current component rest : Bytes)
    (marker : Marker) :
    ∃ next, readFrom offset closed current (escape component ++ 0x00 :: marker.toByte :: rest) =
      ((current ++ component, marker) :: ·) <$> readFrom next (closed + 1) [] rest := by
  induction component generalizing offset current with
  | nil =>
      refine ⟨offset + 2, ?_⟩
      rw [escape_nil, List.nil_append, List.append_nil,
        readFrom_closing (Marker.ofByte?_toByte marker)]
  | cons b component ih =>
      by_cases hb : b = 0x00
      · subst hb
        obtain ⟨next, hnext⟩ := ih (offset + 2) (current ++ [0x00])
        refine ⟨next, ?_⟩
        rw [escape_zero_cons, List.cons_append, List.cons_append, readFrom_escaped_zero,
          hnext, List.append_assoc, List.singleton_append]
      · obtain ⟨next, hnext⟩ := ih (offset + 1) (current ++ [b])
        refine ⟨next, ?_⟩
        rw [escape_cons_of_ne hb, List.cons_append, readFrom_plain hb, hnext,
          List.append_assoc, List.singleton_append]

/-- Written parts are read back, with their markers, wherever reading starts. -/
theorem readFrom_write (offset closed : Nat) (parts : List (Bytes × Marker)) :
    readFrom offset closed [] (write parts) = .ok parts := by
  induction parts generalizing offset closed with
  | nil => rfl
  | cons part parts ih =>
      rw [write_cons, writeComponent_append]
      obtain ⟨next, hnext⟩ := readFrom_escape offset closed [] part.1 (write parts) part.2
      rw [hnext, ih, List.nil_append]
      rfl

/-- Reading gives back what has been written. -/
theorem read_write (parts : List (Bytes × Marker)) : read (write parts) = .ok parts :=
  readFrom_write 0 0 parts

/-! ### Writing what has been read -/

/-- What has been read of a component and the bytes that follow spell the parts
that are read. -/
theorem escape_append_of_readFrom {offset closed : Nat} {current bytes : Bytes}
    {parts : List (Bytes × Marker)} (h : readFrom offset closed current bytes = .ok parts) :
    escape current ++ bytes = write parts := by
  -- The cases are the branches of `readFrom`; those that end in a fault are impossible.
  induction offset, closed, current, bytes using readFrom.induct generalizing parts with
  | case1 offset closed =>
      cases h
      rfl
  | case2 offset closed current hcurrent => simp [readFrom, hcurrent] at h
  | case3 offset closed current b rest hb ih =>
      -- A byte other than zero is written as it is.
      rw [readFrom_plain hb] at h
      rw [← ih h, escape_append, escape_cons_of_ne hb, escape_nil, List.append_assoc,
        List.singleton_append]
  | case4 offset closed current b hb => simp [readFrom, hb] at h
  | case5 offset closed current b hb rest ih =>
      -- The pair is what a zero byte of the component is written as.
      obtain rfl : b = 0x00 := Classical.not_not.mp hb
      rw [readFrom_escaped_zero] at h
      rw [← ih h, escape_append, escape_zero_cons, escape_nil, List.append_assoc]
      rfl
  | case6 offset closed current b hb m rest hm marker hmarker ih =>
      -- The pair closes the component, and the rest spells the other parts.
      obtain rfl : b = 0x00 := Classical.not_not.mp hb
      rw [readFrom_closing hmarker] at h
      cases hrest : readFrom (offset + 2) (closed + 1) [] rest with
      | error fault => rw [hrest] at h; cases h
      | ok others =>
          rw [hrest] at h
          cases h
          have hothers := ih hrest
          rw [escape_nil, List.nil_append] at hothers
          rw [hothers, write_cons, writeComponent_append, Marker.toByte_of_ofByte? hmarker]
  | case7 offset closed current b hb m rest hm hmarker =>
      simp [readFrom, hb, hm, hmarker] at h

/-- Reading accepts exactly what writing produces. -/
theorem read_eq_ok_iff {name : Bytes} {parts : List (Bytes × Marker)} :
    read name = .ok parts ↔ name = write parts := by
  constructor
  · intro h
    have hname := escape_append_of_readFrom h
    rwa [escape_nil, List.nil_append] at hname
  · rintro rfl
    exact read_write parts

/-- Different parts have different names. -/
theorem write_injective {parts others : List (Bytes × Marker)}
    (h : write parts = write others) : parts = others := by
  have hread := read_write parts
  rw [h, read_write] at hread
  cases hread
  rfl

/-! ### Components without their markers -/

/-- Splitting gives the components of what has been written. -/
theorem split_write (parts : List (Bytes × Marker)) :
    split (write parts) = .ok (parts.map Prod.fst) := by
  unfold split
  rw [read_write]
  rfl

/-- A stored name has the components it was encoded from. -/
theorem split_encode (components : List Bytes) : split (encode components) = .ok components := by
  have hcomponents : (exact components).map Prod.fst = components := by
    rw [exact, List.map_map]
    exact List.map_id components
  rw [← write_exact, split_write, hcomponents]

/-- Closing the last component otherwise changes no component. -/
theorem map_fst_raiseLast (parts : List (Bytes × Marker)) :
    (raiseLast parts).map Prod.fst = parts.map Prod.fst := by
  induction parts with
  | nil => rfl
  | cons part parts ih =>
      cases parts with
      | nil => rfl
      | cons next rest => rw [raiseLast, List.map_cons, List.map_cons, ih]

/-- The byte string spells the components, each with its zeros escaped and closed by
its marker. -/
def Spells (name : Bytes) (components : List Bytes) (markers : List Marker) : Prop :=
  markers.length = components.length ∧
    name = (components.zip markers).flatMap fun part =>
      (part.1.flatMap fun b => if b = 0x00 then [0x00, 0xFF] else [b]) ++
        [0x00, part.2.toByte]

/-- A name spells components with markers where it is written from them. -/
theorem spells_iff {name : Bytes} {components : List Bytes} {markers : List Marker} :
    Spells name components markers ↔
      markers.length = components.length ∧ name = write (components.zip markers) :=
  Iff.rfl

/-- The markers are told by the name. -/
theorem Spells.markers_unique {name : Bytes} {components : List Bytes}
    {markers others : List Marker} (h : Spells name components markers)
    (h' : Spells name components others) : markers = others := by
  obtain ⟨hlength, hname⟩ := spells_iff.mp h
  obtain ⟨hlength', hname'⟩ := spells_iff.mp h'
  have hparts := write_injective (hname.symm.trans hname')
  rw [← List.map_snd_zip (Nat.le_of_eq hlength), hparts,
    List.map_snd_zip (Nat.le_of_eq hlength')]

/-- A byte string has components when it spells them with some markers. -/
theorem split_eq_ok_iff {name : Bytes} {components : List Bytes} :
    split name = .ok components ↔ ∃ markers, Spells name components markers := by
  constructor
  · intro h
    unfold split at h
    cases hread : read name with
    | error fault => rw [hread] at h; cases h
    | ok parts =>
        rw [hread] at h
        cases h
        refine ⟨parts.map Prod.snd, spells_iff.mpr ⟨by simp, ?_⟩⟩
        rw [List.zip_map', List.map_id']
        exact read_eq_ok_iff.mp hread
  · rintro ⟨markers, h⟩
    obtain ⟨hlength, rfl⟩ := spells_iff.mp h
    rw [split_write, List.map_fst_zip (Nat.le_of_eq hlength.symm)]

/-! ### Names built step by step -/

namespace Builder

/-- The components of the calls that were answered with success. -/
def accepted (calls : List (Bytes × Operator)) (answers : List (Except Error Unit)) :
    List Bytes :=
  ((calls.zip answers).filter fun called => called.2.isOk).map fun called => called.1.1

/-- The calls that a builder accepts are the first ones, as many as it has room for. -/
theorem accepted_answers (arity room : Nat) (calls : List (Bytes × Operator)) :
    accepted calls (answers arity room calls) = (calls.take room).map Prod.fst := by
  induction calls generalizing room with
  | nil => simp [accepted]
  | cons call calls ih =>
      cases room with
      | zero =>
          have hrest := ih 0
          simp only [accepted, answers, List.take_zero, List.map_nil, List.nil_append,
            List.drop_zero] at hrest ⊢
          simpa [Except.isOk, Except.toBool] using hrest
      | succ room =>
          have hrest := ih room
          simp only [accepted, answers, List.take_succ_cons, List.map_cons,
            List.drop_succ_cons, List.cons_append] at hrest ⊢
          simpa [Except.isOk, Except.toBool] using hrest

/-- What a builder has built is split into the components it holds. -/
theorem split_build_holding (arity : Nat) (parts : List (Bytes × Operator)) :
    split (holding arity parts).build = .ok (parts.map Prod.fst) := by
  rw [build_holding, split_write, map_fst_marked]

/-- So is the end of a range: only the last marker is another one. -/
theorem split_buildEndOfRange_holding (arity : Nat) (parts : List (Bytes × Operator)) :
    split (holding arity parts).buildEndOfRange = .ok (parts.map Prod.fst) := by
  rw [buildEndOfRange_holding, endOfRange_write, split_write, map_fst_raiseLast,
    map_fst_marked]

end Builder

/-- Splitting accepts the format and undoes building. A byte string has exactly the
components it spells, with markers that are unique; one that spells none is
malformed. Of any calls on a new builder those past its arity are refused and
change nothing, and both names it builds have the components of the others. -/
theorem split_spells :
    (∀ (name : Bytes) (components : List Bytes),
      (split name = .ok components ↔ ∃ markers, Spells name components markers) ∧
      ∀ markers others, Spells name components markers → Spells name components others →
        markers = others) ∧
    (∀ name : Bytes, (∀ components markers, ¬ Spells name components markers) →
      ∃ fault, (split name).mapError Error.malformedKey = .error (.malformedKey fault)) ∧
    ∀ (arity : Nat) (calls : List (Bytes × Operator)),
      let run := Builder.callAll { arity } calls
      run.1 = (calls.take arity).map (fun _ => .ok ()) ++
        (calls.drop arity).map (fun _ => .error (.violation (.compositeFull arity))) ∧
      (∀ before past, calls = before ++ past → arity ≤ before.length →
        run.2 = (Builder.callAll { arity } before).2) ∧
      split run.2.build = .ok (Builder.accepted calls run.1) ∧
      split run.2.buildEndOfRange = .ok (Builder.accepted calls run.1) := by
  refine ⟨fun name components => ⟨split_eq_ok_iff, fun _ _ => Spells.markers_unique⟩,
    fun name h => ?_, fun arity calls => ?_⟩
  · cases hsplit : split name with
    | ok components =>
        obtain ⟨markers, hspells⟩ := split_eq_ok_iff.mp hsplit
        exact absurd hspells (h components markers)
    | error fault => exact ⟨fault, rfl⟩
  · have hrun : ∀ made, Builder.callAll { arity } made =
        (Builder.answers arity arity made, Builder.holding arity (made.take arity)) := by
      intro made
      have := Builder.callAll_holding arity [] made
      rwa [Builder.holding_nil, List.length_nil, Nat.sub_zero, List.nil_append] at this
    simp only [hrun, Builder.accepted_answers, Builder.split_build_holding,
      Builder.split_buildEndOfRange_holding, and_true]
    refine ⟨rfl, ?_⟩
    rintro before past rfl hlength
    rw [List.take_append_of_le_length hlength]

/-- A zero byte inside a component, two markers that differ, and a call too many. -/
theorem split_spells_escaped :
    split [0x61, 0x00, 0xFF, 0x00, 0x02, 0x00, 0x01] = .ok [[0x61, 0x00], []] ∧
      (∃ fault, (split [0x61, 0x00, 0x07]).mapError Error.malformedKey =
        .error (.malformedKey fault)) ∧
      (Builder.callAll { arity := 1 } [([0x61], .gt), ([0x62], .eq)]).2 =
        (Builder.callAll { arity := 1 } [([0x61], .gt)]).2 := by
  refine ⟨(split_spells.1 _ _).1.mpr ⟨[.after, .exact], by decide, by decide⟩,
    split_spells.2.1 _ fun components markers h => ?_,
    (split_spells.2.2 1 [([0x61], .gt), ([0x62], .eq)]).2.1 [([0x61], .gt)] [([0x62], .eq)]
      rfl (by decide)⟩
  have hread := (split_spells.1 _ _).1.mpr ⟨markers, h⟩
  cases hread

end WideColumn.Composite
