import WideColumn.Proofs.Access
import WideColumn.Proofs.ExactNames

/-!
# `WideColumn.Proofs.Tombstones`: deleted cells are not seen

A deleted cell stays in its container until storage drops it for good. Until then every
reading passes over it, and so partitions that have the same live cells answer alike,
however many deleted ones stand between them. The theorems:

* `liveCell?_eq_find?`: the halving search finds what a walk over the live cells finds.
* `SameLive.rows_eq`: partitions with the same live cells have the same rows, or fail with the
  same error.
* `process_of_sameLive`: the answers from such partitions are the same.
* `process_withoutTombstones`: nothing changes when the deleted cells are dropped.

A walk skips what is deleted, in whatever order the cells are. Only the search in a static
partition needs the order of the names, because it halves a container that still has the
deleted cells.
-/

set_option autoImplicit false

namespace WideColumn

namespace Partition

/-- Among sorted cells the halving search finds what a walk over the live ones finds. -/
theorem liveCell?_eq_find? {stored : Partition} (sorted : Sorted (stored.cells.getD []))
    (name : Bytes) :
    stored.liveCell? name = stored.liveCells.find? fun cell => cell.name = name := by
  obtain ⟨key, _ | cells⟩ := stored
  · rfl
  have sorted : Sorted cells := sorted
  -- One live cell at most has the name, so it does not matter which one the walk comes to.
  have hunique : ∀ cell ∈ cells.filter Cell.isLive, ∀ other ∈ cells.filter Cell.isLive,
      decide (cell.name = name) = true → decide (other.name = name) = true → cell = other := by
    intro cell hcell other hother hname hname'
    refine sorted.eq_of_name_eq (List.mem_of_mem_filter hcell) (List.mem_of_mem_filter hother) ?_
    rw [of_decide_eq_true hname, of_decide_eq_true hname']
  show _ = (cells.filter Cell.isLive).find? fun cell => cell.name = name
  apply Option.ext
  intro cell
  rw [liveCell?_eq_some_iff sorted, find?_eq_some_iff_of_unique hunique, List.mem_filter,
    decide_eq_true_eq]
  tauto

/-! ### Partitions with the same live cells -/

/-- Two partitions of one key that have the same live cells. Both have a container or both
have none: a static row without a container lacks its metadata columns altogether. -/
structure SameLive (stored other : Partition) : Prop where
  key : other.key = stored.key
  container : other.cells.isSome = stored.cells.isSome
  live : other.liveCells = stored.liveCells

namespace SameLive

variable {stored other : Partition} {layout : Layout}

/-- A static row is looked up in the same way. Only this needs the order of the cells. -/
theorem staticRow_eq (h : SameLive stored other) (sorted : Sorted (stored.cells.getD []))
    (sorted' : Sorted (other.cells.getD [])) (selection : List Selected) :
    other.staticRow selection = stored.staticRow selection := by
  have hfind : other.liveCell? = stored.liveCell? := by
    funext name
    rw [liveCell?_eq_find? sorted, liveCell?_eq_find? sorted', h.live]
  have hnone : other.cells.isNone = stored.cells.isNone := by
    rw [← Option.not_isSome, ← Option.not_isSome, h.container]
  have hcolumn : other.staticColumn? = stored.staticColumn? := by
    funext selected
    rw [staticColumn?, staticColumn?, h.key, hfind, hnone]
  rw [staticRow, staticRow, hcolumn, h.key]

/-- Partitions with the same live cells have the same rows, or fail with the same error,
whatever is selected. -/
theorem rows_eq (h : SameLive stored other)
    (sorted : layout.kind = .static →
      Sorted (stored.cells.getD []) ∧ Sorted (other.cells.getD []))
    (selection : List Selected) : other.rows layout selection = stored.rows layout selection := by
  unfold rows
  cases hkind : layout.kind with
  | static =>
      obtain ⟨hstored, hother⟩ := sorted hkind
      simp only [h.staticRow_eq hstored hother]
  | sparse => simp only [sparseRows, h.live, h.key]
  | dynamic | dense => simp only [compactRows, h.live, h.key]

end SameLive

/-! ### Dropping the deleted cells -/

/-- The partition without its deleted cells. A container that had nothing else is still
there, and empty. -/
def withoutTombstones : Partition → Partition :=
  keeping Cell.isLive

/-- Dropping the deleted cells leaves the live ones. -/
theorem sameLive_withoutTombstones (stored : Partition) :
    SameLive stored stored.withoutTombstones where
  key := rfl
  container := Option.isSome_map
  live := by
    rw [withoutTombstones, liveCells_keeping]
    exact List.filter_eq_self.mpr fun cell hcell => (List.mem_filter.mp hcell).2

/-- It leaves their order, too. -/
theorem sorted_withoutTombstones {stored : Partition}
    (sorted : Sorted (stored.cells.getD [])) :
    Sorted (stored.withoutTombstones.cells.getD []) :=
  sorted.sublist (cells_keeping_sublist Cell.isLive stored)

end Partition

/-! ### Answers -/

namespace Plan

variable {plan : Plan}

/-- Partitions with the same live cells, each in the place of the other, give the same
answer: the same rows, the same count or the same error. -/
theorem process_of_sameLive {stored others : List Partition}
    (h : List.Forall₂ Partition.SameLive stored others)
    (sorted : plan.layout.kind = .static → ∀ partition ∈ stored ++ others,
      Sorted (partition.cells.getD [])) :
    plan.process others = plan.process stored := by
  have hrows : plan.rows others = plan.rows stored := by
    refine congrArg (List.flatten <$> ·) (Outcome.mapM_eq_of_forall₂ ?_)
    refine Outcome.forall₂_imp_of_mem h fun partition hstored other hothers hlive => ?_
    refine hlive.rows_eq (fun hkind => ⟨?_, ?_⟩) plan.columns
    · exact sorted hkind _ (List.mem_append_left _ hstored)
    · exact sorted hkind _ (List.mem_append_right _ hothers)
  -- A count sees nothing of the partitions but their number.
  rw [process, process, hrows, h.length_eq]

/-- Deleted cells are not seen: the answer is that from the same partitions without them. -/
theorem process_withoutTombstones {stored : List Partition}
    (sorted : plan.layout.kind = .static → ∀ partition ∈ stored,
      Sorted (partition.cells.getD [])) :
    plan.process (stored.map Partition.withoutTombstones) = plan.process stored := by
  apply process_of_sameLive
  · rw [List.forall₂_map_right_iff, List.forall₂_same]
    exact fun partition _ => partition.sameLive_withoutTombstones
  · intro hkind partition hpartition
    rcases List.mem_append.mp hpartition with hstored | hdropped
    · exact sorted hkind partition hstored
    · obtain ⟨whole, hstored, rfl⟩ := List.mem_map.mp hdropped
      exact Partition.sorted_withoutTombstones (sorted hkind whole hstored)

/-- An account whose city has been deleted. It has an age and a zip code, too, of which the
table knows nothing. -/
def movedAccount : Partition :=
  { key := [0x61]
    cells := some [⟨[0x61, 0x67, 0x65], [0x39], 1, .live⟩,
      ⟨[0x63, 0x69, 0x74, 0x79], [], 2, .tombstone⟩, ⟨[0x7A, 0x69, 0x70], [0x30], 1, .live⟩] }

/-- The search for the city ends at the deleted cell, and without that cell it ends at
another one. Either way the account has no city. -/
theorem process_withoutTombstones_movedAccount :
    ∃ plan, compile { identifierCase := .preserve } { table := "accounts" } accounts [] =
        .ok plan ∧
      plan.process [movedAccount] =
        .ok ⟨plan.header, [⟨[0x61], [.set "id" [0x61] noTimestamp, .unset "city"]⟩]⟩ ∧
      plan.process ([movedAccount].map Partition.withoutTombstones) =
        plan.process [movedAccount] := by
  have sorted : Sorted (movedAccount.cells.getD []) := by
    show List.Pairwise _ _
    decide
  have hcity : movedAccount.liveCell? [0x63, 0x69, 0x74, 0x79] = none := by
    rw [Partition.liveCell?_eq_find? sorted]
    rfl
  refine ⟨_, rfl, ?_, process_withoutTombstones ?_⟩
  · show Except.ok (RowSet.mk _ [⟨_, [_,
      cellColumn (movedAccount.liveCell? [0x63, 0x69, 0x74, 0x79]) _ _]⟩]) = _
    rw [hcity]
    rfl
  · rintro - partition hpartition
    rwa [List.mem_singleton.mp hpartition]

end Plan

end WideColumn
