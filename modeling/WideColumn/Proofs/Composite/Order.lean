import WideColumn.Proofs.Composite.Builder

/-!
# `WideColumn.Proofs.Composite.Order`: names compare as their components do

The byte order of written names is the lexicographic order of their parts, a part
being compared by its component first and by its marker's byte second. The
theorems:

* `compare_escape_append`: one component. Whatever follows the two closings
  counts only where components and markers are equal.
* `compare_write`: whole names, of any lengths and markers.
* `compare_encode`: stored names, whose markers are all equal.
* `endOfRange_write`: turning the last byte of a name into the marker `after` is
  turning its last part's marker into it.
-/

set_option autoImplicit false

namespace WideColumn.Composite

/-- Nothing to escape gives nothing. -/
@[simp]
theorem escape_nil : escape [] = [] :=
  rfl

/-- A zero is escaped by the byte after it. -/
@[simp]
theorem escape_zero_cons (component : Bytes) :
    escape (0x00 :: component) = 0x00 :: 0xFF :: escape component :=
  rfl

/-- Any other byte stays. -/
theorem escape_cons_of_ne {b : UInt8} (h : b ≠ 0x00) (component : Bytes) :
    escape (b :: component) = b :: escape component := by
  simp [escape, h]

/-- What follows a component follows its marker. -/
theorem writeComponent_append (component rest : Bytes) (marker : Marker) :
    writeComponent component marker ++ rest =
      escape component ++ 0x00 :: marker.toByte :: rest := by
  simp [writeComponent]

/-! ### The bytes a comparison can be decided by -/

/-- A marker sorts before the byte that follows an escaped zero. -/
theorem Marker.compare_toByte_escaped (marker : Marker) :
    compare marker.toByte 0xFF = .lt := by
  cases marker <;> decide

/-- Every marker comes before the byte that escapes a zero. -/
theorem Marker.compare_escaped_toByte (marker : Marker) :
    compare 0xFF marker.toByte = .gt := by
  cases marker <;> decide

/-- The zero byte sorts before every other one. -/
theorem compare_zero_of_ne {b : UInt8} (h : b ≠ 0x00) : compare 0x00 b = .lt :=
  Std.compare_eq_lt.mpr (UInt8.pos_iff_ne_zero.mpr h)

/-- All other bytes come after zero. -/
theorem compare_ne_of_zero {b : UInt8} (h : b ≠ 0x00) : compare b 0x00 = .gt :=
  Std.OrientedCmp.gt_of_lt (compare_zero_of_ne h)

/-! ### Names -/

/-- Two closed components and what follows them. The components decide first, then
the markers, then the rest. -/
theorem compare_escape_append (c d r s : Bytes) (m k : Marker) :
    compare (escape c ++ 0x00 :: m.toByte :: r) (escape d ++ 0x00 :: k.toByte :: s) =
      ((compare c d).then (compare m.toByte k.toByte)).then (compare r s) := by
  induction c generalizing d with
  | nil =>
      cases d with
      | nil => simp
      | cons y d =>
          -- The closing's zero meets the first byte of a longer component.
          by_cases hy : y = 0x00
          · subst hy
            simp [Marker.compare_toByte_escaped]
          · simp [escape_cons_of_ne hy, compare_zero_of_ne hy]
  | cons x c ih =>
      cases d with
      | nil =>
          by_cases hx : x = 0x00
          · subst hx
            simp [Marker.compare_escaped_toByte]
          · simp [escape_cons_of_ne hx, compare_ne_of_zero hx]
      | cons y d =>
          -- Bytes that are both zero or both not are written alike, so the rest decides
          -- where they are equal.
          by_cases hx : x = 0x00
          · by_cases hy : y = 0x00
            · subst hx hy
              simp [ih]
            · subst hx
              simp [escape_cons_of_ne hy, compare_zero_of_ne hy]
          · by_cases hy : y = 0x00
            · subst hy
              simp [escape_cons_of_ne hx, compare_ne_of_zero hx]
            · simp [escape_cons_of_ne hx, escape_cons_of_ne hy, ih, Ordering.then_assoc]

/-- The order of parts: their components, and then their markers. -/
def comparePart (part other : Bytes × Marker) : Ordering :=
  (compare part.1 other.1).then (compare part.2.toByte other.2.toByte)

/-- The lexicographic order of lists of parts. -/
def compareParts (parts others : List (Bytes × Marker)) : Ordering :=
  List.compareLex comparePart parts others

/-- Parts are compared one by one, and the first that differ decide. -/
theorem compareParts_cons_cons (part other : Bytes × Marker)
    (parts others : List (Bytes × Marker)) :
    compareParts (part :: parts) (other :: others) =
      (comparePart part other).then (compareParts parts others) :=
  List.compareLex_cons_cons

/-- A name with a part is not empty. -/
theorem write_cons_ne_nil (part : Bytes × Marker) (parts : List (Bytes × Marker)) :
    write (part :: parts) ≠ [] := by
  simp [write_cons, writeComponent]

/-- The byte order of names is the order of their parts. -/
theorem compare_write (parts others : List (Bytes × Marker)) :
    compare (write parts) (write others) = compareParts parts others := by
  induction parts generalizing others with
  | nil =>
      cases others with
      | nil => rfl
      | cons other others =>
          obtain ⟨b, rest, hname⟩ := List.exists_cons_of_ne_nil
            (write_cons_ne_nil other others)
          rw [hname]
          rfl
  | cons part parts ih =>
      cases others with
      | nil =>
          obtain ⟨b, rest, hname⟩ := List.exists_cons_of_ne_nil
            (write_cons_ne_nil part parts)
          rw [hname]
          rfl
      | cons other others =>
          -- The first parts decide if they differ, and otherwise the names after them do.
          rw [write_cons, write_cons, writeComponent_append, writeComponent_append,
            compare_escape_append, ih, compareParts_cons_cons]
          rfl

/-- Components as the parts of a stored name. -/
def exact (components : List Bytes) : List (Bytes × Marker) :=
  components.map fun component => (component, .exact)

/-- Parts that are all exact are written like their components. -/
theorem write_exact (components : List Bytes) : write (exact components) = encode components :=
  rfl

/-- Parts that are all closed as stored ones compare as their components. -/
theorem compareParts_exact (components others : List Bytes) :
    compareParts (exact components) (exact others) = compare components others := by
  induction components generalizing others with
  | nil => cases others <;> rfl
  | cons component components ih =>
      cases others with
      | nil => rfl
      | cons other others =>
          have hpart : comparePart (component, .exact) (other, .exact) =
              compare component other := by
            simp [comparePart]
          rw [exact, exact, List.map_cons, List.map_cons, compareParts_cons_cons, hpart,
            List.compare_cons_cons]
          exact congrArg _ (ih others)

/-- The byte order of stored names is the order of their components. -/
theorem compare_encode (components others : List Bytes) :
    compare (encode components) (encode others) = compare components others := by
  rw [← write_exact, ← write_exact, compare_write, compareParts_exact]

/-! ### The end of a range -/

/-- Parts with the last marker turned into `after`. -/
def raiseLast : List (Bytes × Marker) → List (Bytes × Marker)
  | [] => []
  | [part] => [(part.1, .after)]
  | part :: next :: rest => part :: raiseLast (next :: rest)

/-- What stands in front of a name stands in front of the end of its range. -/
theorem endOfRange_append {name : Bytes} (h : name ≠ []) (start : Bytes) :
    endOfRange (start ++ name) = start ++ endOfRange name := by
  unfold endOfRange
  rw [List.getLast?_append, List.getLast?_eq_some_getLast h]
  simp only [Option.some_or, List.dropLast_append_of_ne_nil h, List.append_assoc]

/-- For a single part, it is the part with the highest marker. -/
theorem endOfRange_writeComponent (component : Bytes) (marker : Marker) :
    endOfRange (writeComponent component marker) = writeComponent component .after := by
  unfold writeComponent
  rw [endOfRange_append (by simp)]
  rfl

/-- The end of the range of a name is the name whose last marker is `after`. -/
theorem endOfRange_write (parts : List (Bytes × Marker)) :
    endOfRange (write parts) = write (raiseLast parts) := by
  induction parts with
  | nil => rfl
  | cons part parts ih =>
      cases parts with
      | nil => rw [write_singleton, endOfRange_writeComponent, raiseLast, write_singleton]
      | cons next rest =>
          rw [write_cons, endOfRange_append (write_cons_ne_nil next rest), ih]
          rfl

/-- Building is an order embedding. Parts that fit two builders give names that
compare as the parts do, whatever their operators; the end of the range of a name
is the name of the same parts with the last marker turned into `after`; and
components that are all added as equalities give the stored name, so that stored
names compare as their components do. -/
theorem compare_build :
    (∀ (parts others : List (Bytes × Operator)) (m n : Nat),
      parts.length ≤ m → others.length ≤ n →
      ∃ x y, Builder.ofParts m parts = .ok x ∧ Builder.ofParts n others = .ok y ∧
        compare x.build y.build = compareParts (marked parts) (marked others) ∧
        x.build = write (marked parts) ∧
        x.buildEndOfRange = write (raiseLast (marked parts)) ∧
        (parts = [] → x.buildEndOfRange = [])) ∧
    (∀ (components : List Bytes) (m : Nat), components.length ≤ m →
      ∃ z, Builder.ofParts m (components.map fun component => (component, .eq)) = .ok z ∧
        z.build = encode components) ∧
    ∀ components others : List Bytes,
      compare (encode components) (encode others) = compare components others := by
  refine ⟨fun parts others m n hm hn => ?_, fun components m hm => ?_, compare_encode⟩
  · refine ⟨_, _, Builder.ofParts_eq_ok hm, Builder.ofParts_eq_ok hn, ?_, rfl, ?_, ?_⟩
    · exact compare_write (marked parts) (marked others)
    · exact endOfRange_write (marked parts)
    · rintro rfl
      rfl
  · refine ⟨_, Builder.ofParts_eq_ok (by simpa using hm), ?_⟩
    simp only [Builder.build_holding, marked, List.map_map, ← write_exact]
    rfl

/-- A bound after all names with a component, and a name whose component continues
it with a zero byte: the name is still the greater one. -/
theorem compare_build_continued :
    ∃ x y, Builder.ofParts 1 [([0x61], .lte)] = .ok x ∧
      Builder.ofParts 2 [([0x61, 0x00], .eq), ([], .lt)] = .ok y ∧
      compare x.build y.build = .lt ∧ x.buildEndOfRange = [0x61, 0x00, 0x02] := by
  obtain ⟨x, y, hx, hy, hxy, -, hend, -⟩ := compare_build.1 [([0x61], .lte)]
    [([0x61, 0x00], .eq), ([], .lt)] 1 2 (by decide) (by decide)
  refine ⟨x, y, hx, hy, hxy.trans ?_, hend.trans ?_⟩ <;> decide

end WideColumn.Composite
