import WideColumn.Proofs.Composite.Format

/-!
# `WideColumn.Proofs.Composite.Truncation`: names that have been cut short

A name can be cut between two components, and then it is the name of those in front of
the cut. Everywhere else the cut leaves a component open, or splits one of the byte pairs
that start with a zero, and the rest is no name. The theorems:

* `length_write_take`: where the components of a name end, by their bytes and their zeros.
* `readFrom_write_append`: reading goes over a name to whatever follows it.
* `exists_take_of_write_append`: a name at the start of another one has the first parts of
  it.
* `split_take_write`: the cuts that leave a name, and the components it has.
* `split_truncated`: the same for the names that are built step by step.
-/

set_option autoImplicit false

namespace WideColumn.Composite

/-! ### Lengths -/

/-- The bytes that a component takes in a name: its own, one more for every zero among
them, and two that close it. -/
def width (component : Bytes) : Nat :=
  component.length + component.count 0x00 + 2

/-- The place in a name right behind the closing of its first `number` components. For
none of them that is the start of the name. -/
def closingEnd : List Bytes → Nat → Nat
  | component :: components, number + 1 => width component + closingEnd components number
  | _, _ => 0

/-- Escaping adds a byte for each zero. -/
theorem length_escape (component : Bytes) :
    (escape component).length = component.length + component.count 0x00 := by
  induction component with
  | nil => rfl
  | cons b component ih =>
      by_cases hb : b = 0x00
      · subst hb
        simp only [escape_zero_cons, List.length_cons, List.count_cons_self, ih]
        omega
      · simp only [escape_cons_of_ne hb, List.length_cons, List.count_cons_of_ne hb, ih]
        omega

/-- A written component has the width that is stated for it. -/
theorem length_writeComponent (component : Bytes) (marker : Marker) :
    (writeComponent component marker).length = width component := by
  simp [writeComponent, length_escape, width]

/-- The name of the first parts ends behind their last closing. -/
theorem length_write_take (parts : List (Bytes × Marker)) (number : Nat) :
    (write (parts.take number)).length = closingEnd (parts.map Prod.fst) number := by
  induction parts generalizing number with
  | nil => simp [closingEnd]
  | cons part parts ih =>
      cases number with
      | zero => rfl
      | succ number =>
          rw [List.take_succ_cons, write_cons, List.length_append, length_writeComponent, ih]
          rfl

/-! ### A name and what follows it -/

/-- Reading goes over a name, and then reads what follows it with no component open. -/
theorem readFrom_write_append (offset closed : Nat) (parts : List (Bytes × Marker))
    (rest : Bytes) :
    ∃ next closed', readFrom offset closed [] (write parts ++ rest) =
      (parts ++ ·) <$> readFrom next closed' [] rest := by
  induction parts generalizing offset closed with
  | nil =>
      exact ⟨offset, closed, (id_map _).symm⟩
  | cons part parts ih =>
      obtain ⟨offset', hpart⟩ :=
        readFrom_escape offset closed [] part.1 (write parts ++ rest) part.2
      obtain ⟨next, closed', hparts⟩ := ih offset' (closed + 1)
      refine ⟨next, closed', ?_⟩
      rw [write_cons, List.append_assoc, writeComponent_append, hpart, hparts,
        List.nil_append, Functor.map_map]
      rfl

/-- A name that another one starts with has the first parts of it. -/
theorem exists_take_of_write_append {parts others : List (Bytes × Marker)} {rest : Bytes}
    (h : write others ++ rest = write parts) :
    ∃ number ≤ parts.length, others = parts.take number := by
  obtain ⟨next, closed, hread⟩ := readFrom_write_append 0 0 others rest
  rw [h, readFrom_write] at hread
  -- What is read of the other name stands at the start of the parts.
  cases hrest : readFrom next closed [] rest with
  | error fault => rw [hrest] at hread; cases hread
  | ok tail =>
      rw [hrest] at hread
      have hparts : parts = others ++ tail := Except.ok.inj hread
      refine ⟨others.length, ?_⟩
      rw [hparts]
      simp

/-! ### Cuts -/

/-- The start of a name is a name where a component ends there, and then it has the
components up to this one. -/
theorem split_take_write {parts : List (Bytes × Marker)} {cut : Nat}
    (h : cut ≤ (write parts).length) {components : List Bytes} :
    split ((write parts).take cut) = .ok components ↔
      ∃ number ≤ parts.length, cut = closingEnd (parts.map Prod.fst) number ∧
        components = (parts.map Prod.fst).take number := by
  constructor
  · intro hsplit
    obtain ⟨markers, hspells⟩ := split_eq_ok_iff.mp hsplit
    obtain ⟨hmarkers, htake⟩ := spells_iff.mp hspells
    -- The name that is left and the bytes cut off are the whole name again.
    have hwhole := List.take_append_drop cut (write parts)
    rw [htake] at hwhole
    obtain ⟨number, hnumber, hparts⟩ := exists_take_of_write_append hwhole
    have hcut : cut = (write (components.zip markers)).length := by
      rw [← htake, List.length_take, Nat.min_eq_left h]
    have hcomponents : components = (components.zip markers).map Prod.fst :=
      (List.map_fst_zip (Nat.le_of_eq hmarkers.symm)).symm
    refine ⟨number, hnumber, ?_, ?_⟩
    · rw [hcut, hparts, length_write_take]
    · rw [hcomponents, hparts, List.map_take]
  · intro hend
    obtain ⟨number, -, hcut, hcomponents⟩ := hend
    rw [← length_write_take] at hcut
    have hparts : write parts = write (parts.take number) ++ write (parts.drop number) := by
      rw [← write_append, List.take_append_drop]
    rw [hcut, hparts, List.take_left, split_write, hcomponents, List.map_take]

namespace Builder

/-- Both names of a builder hold its components, closed by some markers. -/
theorem exists_write_of_holding {arity : Nat} {parts : List (Bytes × Operator)} {name : Bytes}
    (h : name = (holding arity parts).build ∨ name = (holding arity parts).buildEndOfRange) :
    ∃ written, name = write written ∧ written.map Prod.fst = parts.map Prod.fst := by
  cases h with
  | inl h => exact ⟨marked parts, h, map_fst_marked parts⟩
  | inr h =>
      refine ⟨raiseLast (marked parts), ?_⟩
      rw [h, buildEndOfRange_holding, endOfRange_write, map_fst_raiseLast, map_fst_marked]
      exact ⟨rfl, rfl⟩

end Builder

/-- Cutting a built name short. What is left is a name exactly where the cut is at the
start or right behind the closing of a component, and then it has the components written
up to there. Every other cut leaves a malformed name. -/
theorem split_truncated {arity : Nat} {parts : List (Bytes × Operator)}
    (fits : parts.length ≤ arity) :
    ∃ builder, Builder.ofParts arity parts = .ok builder ∧
      ∀ name, name = builder.build ∨ name = builder.buildEndOfRange →
        ∀ cut ≤ name.length,
          (∀ components, split (name.take cut) = .ok components ↔
            ∃ number ≤ parts.length, cut = closingEnd (parts.map Prod.fst) number ∧
              components = (parts.map Prod.fst).take number) ∧
          ((∀ number ≤ parts.length, cut ≠ closingEnd (parts.map Prod.fst) number) →
            ∃ fault, (split (name.take cut)).mapError Error.malformedKey =
              .error (.malformedKey fault)) := by
  refine ⟨Builder.holding arity parts, Builder.ofParts_eq_ok fits, ?_⟩
  intro name hname cut hcut
  obtain ⟨written, hwritten, hcomponents⟩ := Builder.exists_write_of_holding hname
  have hnumber : written.length = parts.length := by
    simpa using congrArg List.length hcomponents
  have hsplit : ∀ components, split (name.take cut) = .ok components ↔
      ∃ number ≤ parts.length, cut = closingEnd (parts.map Prod.fst) number ∧
        components = (parts.map Prod.fst).take number := by
    intro components
    rw [hwritten] at hcut ⊢
    rw [split_take_write hcut, hcomponents, hnumber]
  refine ⟨hsplit, ?_⟩
  -- A cut in no place where a component ends leaves one open.
  intro hother
  cases hread : split (name.take cut) with
  | error fault => exact ⟨fault, rfl⟩
  | ok components =>
      obtain ⟨number, hle, hend, -⟩ := (hsplit components).mp hread
      exact absurd hend (hother number hle)

/-- A cut behind the first of two components, and one between the two bytes of its escaped
zero. -/
theorem split_truncated_escaped :
    ∃ builder, Builder.ofParts 2 [([0x61, 0x00], .eq), ([], .gte)] = .ok builder ∧
      builder.build = [0x61, 0x00, 0xFF, 0x00, 0x01, 0x00, 0x00] ∧
      split (builder.build.take 5) = .ok [[0x61, 0x00]] ∧
      ∃ fault, (split (builder.build.take 2)).mapError Error.malformedKey =
        .error (.malformedKey fault) := by
  obtain ⟨builder, hbuilder, hcuts⟩ :=
    @split_truncated 2 [([0x61, 0x00], .eq), ([], .gte)] (by decide)
  have hname : builder.build = [0x61, 0x00, 0xFF, 0x00, 0x01, 0x00, 0x00] := by
    cases hbuilder
    rfl
  refine ⟨builder, hbuilder, hname, ?_, ?_⟩
  · exact ((hcuts _ (.inl rfl) 5 (by rw [hname]; decide)).1 _).mpr ⟨1, by decide, rfl, rfl⟩
  · exact (hcuts _ (.inl rfl) 2 (by rw [hname]; decide)).2 (by decide)

end WideColumn.Composite
