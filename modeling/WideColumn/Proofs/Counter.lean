import Mathlib.Algebra.BigOperators.Group.List.Basic
import WideColumn.Counter
import WideColumn.Error
import WideColumn.Proofs.TwosComplement

/-!
# `WideColumn.Proofs.Counter`: the total of a counter context

The header says how many entries there are, and the shards are all that is behind them. The
total is the exact sum of the counts, but for what 64 bits have no room for; entries, counter
ids and clocks have no part in it. The theorems:

* `total_cases`: what `total` does with a byte string.
* `wellFormed_iff_layOut`: the contexts with a total are those that are laid out as a header
  with its entries and then shards.
* `total_layOut` / `total_layOut_perm`: the total of such a context, for which neither its
  entries nor the order of its shards counts.
* `total_sums`: which byte strings have a total, which total that is, and what it is not
  changed by.
-/

set_option autoImplicit false

namespace WideColumn.Counter

variable {bytes : Bytes} {entries : List (Vector UInt8 2)} {shards : List Shard}

/-! ### Contexts -/

/-- How many entries the header declares. -/
def declared (context : Bytes) : Nat :=
  Bytes.toNat (context.take 2)

/-- There is a header with all its entries, and nothing behind it but whole shards. -/
structure WellFormed (context : Bytes) : Prop where
  header : 2 ≤ context.length
  entries : 2 + 2 * declared context ≤ context.length
  shards : 32 ∣ context.length - 2 - 2 * declared context

/-- The counts of a context, each of them the last eight bytes of its shard. -/
def counts (context : Bytes) : List Int :=
  (List.range ((context.length - 2 - 2 * declared context) / 32)).map fun i =>
    Bytes.toInt ((context.drop (2 + 2 * declared context + 32 * i + 24)).take 8)

/-- The fault that a byte string has, told with the first length that is wrong. -/
inductive Refuses : Bytes → Fault → Prop
  | missingHeader {context : Bytes} (short : context.length < 2) :
    Refuses context .missingHeader
  | truncatedHeader {context : Bytes} (header : 2 ≤ context.length)
    (short : context.length < 2 + 2 * declared context) :
    Refuses context (.truncatedHeader (declared context) context.length)
  | trailingBytes {context : Bytes} (entries : 2 + 2 * declared context ≤ context.length)
    (part : ¬ 32 ∣ context.length - 2 - 2 * declared context) :
    Refuses context (.trailingBytes ((context.length - 2 - 2 * declared context) % 32))

/-- A context with these header entries and shards. -/
def layOut (entries : List (Vector UInt8 2)) (shards : List Shard) : Bytes :=
  Bytes.ofNat 2 entries.length ++ entries.flatMap Vector.toList ++
    shards.flatMap Shard.toBytes

/-- The number of entries stands in the first two bytes, the higher one first. -/
theorem declared_cons_cons (high low : UInt8) (rest : Bytes) :
    declared (high :: low :: rest) = high.toNat * 256 + low.toNat := by
  simp [declared, Bytes.toNat]

/-- A byte string is refused for the first length that is wrong, or its shards are all that
is behind the header. -/
theorem total_cases (context : Bytes) :
    (∃ fault, Refuses context fault ∧ total context = .error fault) ∨
      WellFormed context ∧ total context = .ok (((pieces
        ((context.length - 2 - 2 * declared context) / 32)
          (context.drop (2 + 2 * declared context))).map countOf).foldl (· + ·) 0) := by
  match context with
  | [] => exact .inl ⟨_, .missingHeader (by decide), rfl⟩
  | [b] => exact .inl ⟨_, .missingHeader (by simp), rfl⟩
  | high :: low :: rest =>
      -- The tests of `total` are about what is behind the two bytes of the header, those of a
      -- fault about all of the bytes.
      have hentries := declared_cons_cons high low rest
      have hlength : (high :: low :: rest).length = rest.length + 2 := rfl
      have hbody : (high :: low :: rest).drop (2 + 2 * declared (high :: low :: rest)) =
          rest.drop (2 * declared (high :: low :: rest)) := by
        rw [← List.drop_drop]
        rfl
      have hshards : (high :: low :: rest).length - 2 -
          2 * declared (high :: low :: rest) =
            (rest.drop (2 * declared (high :: low :: rest))).length := by
        rw [List.length_drop, hlength]
        omega
      rw [hbody, hshards, total]
      simp only [← hentries]
      split
      · next hshort =>
        exact .inl ⟨_, .truncatedHeader (by omega) (by omega), rfl⟩
      · next henough =>
        split
        · next hodd =>
          refine .inl ⟨_, ?_, rfl⟩
          rw [← hshards]
          exact .trailingBytes (by omega) (by omega)
        · next hwhole =>
          exact .inr ⟨⟨by omega, by omega, by omega⟩, rfl⟩

/-- A context that is refused is not well formed. -/
theorem Refuses.not_wellFormed {context : Bytes} {fault : Fault} (h : Refuses context fault) :
    ¬ WellFormed context := by
  intro hwf
  cases h with
  | missingHeader short => exact absurd hwf.header (by omega)
  | truncatedHeader header short => exact absurd hwf.entries (by omega)
  | trailingBytes entries part => exact part hwf.shards

/-! ### Pieces of one length -/

/-- The bytes of things that are written with `width` bytes each. -/
theorem length_flatMap {α : Type} {width : Nat} {toBytes : α → Bytes}
    (hwidth : ∀ a, (toBytes a).length = width) (as : List α) :
    (as.flatMap toBytes).length = width * as.length := by
  induction as with
  | nil => rfl
  | cons a as ih =>
      rw [List.flatMap_cons, List.length_append, hwidth, ih, List.length_cons, Nat.mul_succ,
        Nat.add_comm]

/-- Where all pieces of `width` bytes are written for something, so is a row of them. -/
theorem exists_flatMap_eq {α : Type} {width : Nat} {toBytes : α → Bytes}
    (hall : ∀ piece : Bytes, piece.length = width → ∃ a, toBytes a = piece)
    (count : Nat) (bytes : Bytes) (h : bytes.length = width * count) :
    ∃ as : List α, as.length = count ∧ as.flatMap toBytes = bytes := by
  induction count generalizing bytes with
  | zero => exact ⟨[], rfl, (List.eq_nil_of_length_eq_zero h).symm⟩
  | succ count ih =>
      rw [Nat.mul_succ] at h
      obtain ⟨a, ha⟩ := hall (bytes.take width) (by rw [List.length_take]; omega)
      obtain ⟨as, hcount, has⟩ := ih (bytes.drop width) (by rw [List.length_drop]; omega)
      exact ⟨a :: as, by rw [List.length_cons, hcount],
        by rw [List.flatMap_cons, ha, has, List.take_append_drop]⟩

/-- The row from its piece at `i` on. -/
theorem drop_flatMap {α : Type} {width : Nat} {toBytes : α → Bytes}
    (hwidth : ∀ a, (toBytes a).length = width) (as : List α) (i : Nat) :
    (as.flatMap toBytes).drop (width * i) = (as.drop i).flatMap toBytes := by
  induction i generalizing as with
  | zero => rfl
  | succ i ih =>
      cases as with
      | nil => rw [List.drop_nil, List.flatMap_nil, List.drop_nil]
      | cons a as =>
          rw [Nat.mul_succ, Nat.add_comm, ← List.drop_drop, List.flatMap_cons,
            List.drop_left' (hwidth a), ih, List.drop_succ_cons]

/-! ### Shards -/

/-- Every shard is 32 bytes long. -/
theorem Shard.length_toBytes (shard : Shard) : shard.toBytes.length = 32 := by
  rw [toBytes, List.length_append, List.length_append, Bytes.ofInt64, Bytes.ofInt64,
    Bytes.length_ofInt, Bytes.length_ofInt, Vector.length_toList]

/-- The count is behind the counter id and the clock. -/
theorem Shard.drop_toBytes (shard : Shard) :
    shard.toBytes.drop 24 = Bytes.ofInt64 shard.count := by
  refine List.drop_left' ?_
  rw [List.length_append, Bytes.ofInt64, Bytes.length_ofInt, Vector.length_toList]

/-- Any thirty-two bytes are a shard. -/
theorem Shard.exists_toBytes_eq (h : bytes.length = 32) :
    ∃ shard : Shard, shard.toBytes = bytes := by
  refine ⟨⟨⟨(bytes.take 16).toArray, by simp [h]⟩, Bytes.toInt64 ((bytes.drop 16).take 8),
    Bytes.toInt64 (bytes.drop 24)⟩, ?_⟩
  have hlater : bytes.drop 24 = (bytes.drop 16).drop 8 := by rw [List.drop_drop]
  rw [Shard.toBytes, Bytes.ofInt64_toInt64 (by simp [h]), Bytes.ofInt64_toInt64 (by simp [h]),
    List.append_assoc, hlater, List.take_append_drop]
  exact List.take_append_drop 16 bytes

/-- Any two bytes are a header entry. -/
theorem exists_toList_eq (h : bytes.length = 2) :
    ∃ entry : Vector UInt8 2, entry.toList = bytes :=
  ⟨⟨bytes.toArray, by simpa using h⟩, rfl⟩

/-- Cutting the shards' bytes into pieces gives back the bytes of each. -/
theorem pieces_flatMap (shards : List Shard) :
    pieces shards.length (shards.flatMap Shard.toBytes) = shards.map Shard.toBytes := by
  induction shards with
  | nil => rfl
  | cons shard shards ih =>
      rw [List.length_cons, pieces, List.flatMap_cons, List.take_left' shard.length_toBytes,
        List.drop_left' shard.length_toBytes, ih, List.map_cons]

/-- Adding up in 64 bits is adding up exactly and keeping 64 bits in the end. -/
theorem foldl_add (words : List Int64) (start : Int64) :
    words.foldl (· + ·) start = start + Int64.ofInt (words.map Int64.toInt).sum := by
  induction words generalizing start with
  | nil => exact (Int64.add_zero start).symm
  | cons word words ih =>
      rw [List.foldl_cons, ih, List.map_cons, List.sum_cons, Int64.ofInt_add, Int64.ofInt_toInt,
        Int64.add_assoc]

/-! ### Laid out contexts -/

/-- The length of a context is told by its entries and shards. -/
theorem length_layOut (entries : List (Vector UInt8 2)) (shards : List Shard) :
    (layOut entries shards).length = 2 + 2 * entries.length + 32 * shards.length := by
  rw [layOut, List.length_append, List.length_append, Bytes.length_ofNat,
    length_flatMap (fun entry => Vector.length_toList), length_flatMap Shard.length_toBytes]

/-- The header has room for the number of its entries. -/
theorem declared_layOut (h : entries.length < 65536) :
    declared (layOut entries shards) = entries.length := by
  rw [declared, layOut, List.append_assoc, List.take_left' (Bytes.length_ofNat 2 _),
    Bytes.toNat_ofNat]
  exact Nat.mod_eq_of_lt h

/-- Past the header stand the shards. -/
theorem drop_layOut (entries : List (Vector UInt8 2)) (shards : List Shard) :
    (layOut entries shards).drop (2 + 2 * entries.length) = shards.flatMap Shard.toBytes := by
  refine List.drop_left' ?_
  rw [List.length_append, Bytes.length_ofNat, length_flatMap fun entry => Vector.length_toList]

/-- What is behind the header. -/
theorem length_shards (entries : List (Vector UInt8 2)) (shards : List Shard) :
    (layOut entries shards).length - 2 - 2 * entries.length = 32 * shards.length := by
  have hlength := length_layOut entries shards
  omega

/-- A context with no more entries than two bytes can tell is well formed. -/
theorem wellFormed_layOut (h : entries.length < 65536) : WellFormed (layOut entries shards) := by
  have hdeclared : declared (layOut entries shards) = entries.length := declared_layOut h
  have hlength := length_layOut entries shards
  exact ⟨by omega, by omega, by omega⟩

/-- The contexts that are accepted are those that are laid out like this. -/
theorem wellFormed_iff_layOut {context : Bytes} :
    WellFormed context ↔
      ∃ entries shards, entries.length < 65536 ∧ context = layOut entries shards := by
  constructor
  · intro h
    have hheader := h.header
    have hentries := h.entries
    obtain ⟨count, hcount⟩ := h.shards
    have hshort : (context.take 2).length = 2 := by rw [List.length_take]; omega
    have hdeclared : declared context < 65536 := by
      have hlt := Bytes.toNat_lt_card (context.take 2)
      rw [hshort] at hlt
      exact hlt
    -- What is behind the two bytes is cut where the entries end, and either part into pieces.
    obtain ⟨entries, hnumber, hflat⟩ := exists_flatMap_eq (fun _ => exists_toList_eq)
      (declared context) ((context.drop 2).take (2 * declared context)) (by
        rw [List.length_take, List.length_drop]
        omega)
    obtain ⟨shards, -, hshards⟩ := exists_flatMap_eq (fun _ => Shard.exists_toBytes_eq)
      count ((context.drop 2).drop (2 * declared context)) (by
        rw [List.length_drop, List.length_drop]
        omega)
    have hfirst : Bytes.ofNat 2 (declared context) = context.take 2 := by
      have hback := Bytes.ofNat_toNat (context.take 2)
      rwa [hshort] at hback
    refine ⟨entries, shards, by omega, ?_⟩
    rw [layOut, hnumber, hflat, hshards, hfirst, List.append_assoc, List.take_append_drop,
      List.take_append_drop]
  · rintro ⟨entries, shards, h, rfl⟩
    exact wellFormed_layOut h

/-- The counts of a context are the counts of its shards. -/
theorem counts_layOut (h : entries.length < 65536) :
    counts (layOut entries shards) = shards.map fun shard => shard.count.toInt := by
  rw [counts, declared_layOut h, length_shards, Nat.mul_div_cancel_left _ (by decide)]
  -- Dropping `i` shards leaves the one at `i` in front, whatever is behind it.
  refine List.ext_getElem (by simp) fun i hi hi' => ?_
  rw [List.length_map] at hi'
  have hcount : (Bytes.ofInt64 shards[i].count).length = 8 := Bytes.length_ofInt 8 _
  rw [List.getElem_map, List.getElem_map, List.getElem_range, Nat.add_assoc, ← List.drop_drop,
    drop_layOut, ← List.drop_drop, drop_flatMap Shard.length_toBytes,
    List.drop_eq_getElem_cons hi', List.flatMap_cons, List.drop_append_of_le_length,
    Shard.drop_toBytes, List.take_left' hcount, Bytes.toInt_ofInt64]
  rw [Shard.length_toBytes]
  decide

/-- The total is the sum of the counts in 64 bits. -/
theorem total_layOut (h : entries.length < 65536) :
    total (layOut entries shards) =
      .ok (Int64.ofInt (shards.map fun shard => shard.count.toInt).sum) := by
  rcases total_cases (layOut entries shards) with ⟨fault, hrefuses, -⟩ | ⟨-, htotal⟩
  · exact absurd (wellFormed_layOut h) hrefuses.not_wellFormed
  · have hcounts : (shards.map Shard.toBytes).map countOf = shards.map Shard.count := by
      rw [List.map_map]
      refine List.map_congr_left fun shard _ => ?_
      show Bytes.toInt64 (shard.toBytes.drop 24) = shard.count
      rw [Shard.drop_toBytes, Bytes.toInt64_ofInt64]
    rw [htotal, declared_layOut h, drop_layOut, length_shards,
      Nat.mul_div_cancel_left _ (by decide), pieces_flatMap, hcounts, foldl_add, List.map_map,
      Int64.zero_add]
    rfl

/-- A context of shards alone has no entries in its header. -/
theorem context_eq_layOut (shards : List Shard) : context shards = layOut [] shards :=
  rfl

/-- A context has the sum of its counts for a total. -/
theorem total_of_wellFormed {context : Bytes} (h : WellFormed context) :
    total context = .ok (Int64.ofInt (counts context).sum) := by
  obtain ⟨entries, shards, hentries, rfl⟩ := wellFormed_iff_layOut.mp h
  rw [total_layOut hentries, counts_layOut hentries]

/-- Any other byte string has a fault. -/
theorem exists_fault {context : Bytes} (h : ¬ WellFormed context) :
    ∃ fault, Refuses context fault ∧ total context = .error fault := by
  rcases total_cases context with hfault | ⟨hwf, -⟩
  · exact hfault
  · exact absurd hwf h

/-- Well formed contexts have a total, and no others. -/
theorem exists_total_iff {context : Bytes} :
    (∃ sum, total context = .ok sum) ↔ WellFormed context := by
  constructor
  · rintro ⟨sum, htotal⟩
    rcases total_cases context with ⟨fault, -, hfault⟩ | ⟨hwf, -⟩
    · rw [htotal] at hfault
      cases hfault
    · exact hwf
  · intro h
    exact ⟨_, total_of_wellFormed h⟩

/-- Shards with the same counts in any order have the same total. -/
theorem total_layOut_perm {entries' : List (Vector UInt8 2)} {shards' : List Shard}
    (h : entries.length < 65536) (h' : entries'.length < 65536)
    (hperm : (shards.map Shard.count).Perm (shards'.map Shard.count)) :
    total (layOut entries shards) = total (layOut entries' shards') := by
  have hsum := (hperm.map Int64.toInt).sum_eq
  rw [List.map_map, List.map_map] at hsum
  rw [total_layOut h, total_layOut h']
  exact congrArg (fun sum => Except.ok (Int64.ofInt sum)) hsum

/-- A byte string has a total exactly when its header is there with all its entries and whole
shards are behind it; else it is malformed, for the first length that is wrong. The total is
the sum of the counts, taken modulo two to the power of 64 to a signed number. So it is the
same in whatever order the shards are, and whatever the header entries, the counter ids and the
clocks are. -/
theorem total_sums :
    (∀ context : Bytes, (∃ sum, total context = .ok sum) ↔ WellFormed context) ∧
    (∀ context : Bytes, WellFormed context →
      total context = .ok (Int64.ofInt (counts context).sum)) ∧
    (∀ context : Bytes, ¬ WellFormed context → ∃ fault, Refuses context fault ∧
      (total context).mapError Error.malformedCounter = .error (.malformedCounter fault)) ∧
    (∀ context : Bytes, WellFormed context ↔
      ∃ entries shards, entries.length < 65536 ∧ context = layOut entries shards) ∧
    (∀ (entries entries' : List (Vector UInt8 2)) (shards shards' : List Shard),
      entries.length < 65536 → entries'.length < 65536 →
      (shards.map Shard.count).Perm (shards'.map Shard.count) →
        total (layOut entries shards) = total (layOut entries' shards')) ∧
    ∀ shards : List Shard, total (context shards) =
      .ok (Int64.ofInt (shards.map fun shard => shard.count.toInt).sum) := by
  refine ⟨fun context => exists_total_iff, fun context => total_of_wellFormed,
    fun context h => ?_, fun context => wellFormed_iff_layOut,
    fun _ _ _ _ hentries hentries' => total_layOut_perm hentries hentries', fun shards => ?_⟩
  · obtain ⟨fault, hrefuses, hfault⟩ := exists_fault h
    exact ⟨fault, hrefuses, by rw [hfault]; rfl⟩
  · rw [context_eq_layOut]
    exact total_layOut (by decide)

/-- A shard with this count and an id of its own. -/
def shardOf (mark : UInt8) (count : Int64) : Shard :=
  ⟨Vector.replicate 16 mark, 3, count⟩

/-- One more than the largest number is the smallest one. The order of the shards, their ids
and the header entries do not matter; but a header that declares more entries than there are
does. -/
theorem total_sums_overflow :
    total (layOut [#v[0x00, 0x07]] [shardOf 1 Int64.maxValue, shardOf 2 1]) =
        .ok Int64.minValue ∧
      total (layOut [#v[0x00, 0x07]] [shardOf 1 Int64.maxValue, shardOf 2 1]) =
        total (layOut [] [shardOf 5 1, shardOf 6 Int64.maxValue]) ∧
      ∃ fault, Refuses [0x00, 0x05, 0x00] fault ∧
        (total [0x00, 0x05, 0x00]).mapError Error.malformedCounter =
          .error (.malformedCounter fault) := by
  obtain ⟨-, hsum, hmalformed, hwf, hperm, -⟩ := total_sums
  refine ⟨?_, hperm _ _ _ _ (by decide) (by decide) (.swap _ _ []), hmalformed _ ?_⟩
  · rw [hsum _ ((hwf _).mpr ⟨_, _, by decide, rfl⟩)]
    exact congrArg Except.ok (by decide +kernel)
  · intro h
    exact absurd h.entries (by decide)

end WideColumn.Counter
