import Mathlib.Data.List.Nodup
import WideColumn.Proofs.ByteOrder
import WideColumn.Proofs.Layout
import WideColumn.Storage

/-!
# `WideColumn.Proofs.Storage`: finding a cell by its name

Storage keeps the cells of a container in the strict order of their names. There the
halving search finds the one cell of a name, if there is one. The theorems:

* `Sorted.eq_of_name_eq` and `Sorted.filter_name_eq`: a name is the name of one cell only.
* `Sorted.find?_half`: one step of halving. Wherever the cells are halved, a walk over one
  half finds what a walk over all cells finds.
* `search_eq_find?`: hence the halving search finds it too, and so `search_eq_some_iff`
  tells what that is.
* `liveCell?_eq_some_iff`: the same for cells that hold something.
* `liveCell?_scans`: a live cell is found as a walk from the front finds it.
-/

set_option autoImplicit false

namespace WideColumn

/-- The cells stand in the strict order of their names. -/
def Sorted (cells : List Cell) : Prop :=
  cells.Pairwise fun cell later => cell.name < later.name

namespace Sorted

variable {cells : List Cell}

/-- Sorted cells have different names. -/
theorem nodup_names (sorted : Sorted cells) : (cells.map Cell.name).Nodup := by
  rw [List.Nodup, List.pairwise_map]
  refine sorted.imp fun {cell later} hlt heq => ?_
  rw [heq] at hlt
  exact List.lt_irrefl _ hlt

/-- So a name belongs to one of them at most. -/
theorem eq_of_name_eq (sorted : Sorted cells) {cell other : Cell} (h : cell ∈ cells)
    (h' : other ∈ cells) (hname : cell.name = other.name) : cell = other :=
  List.inj_on_of_nodup_map sorted.nodup_names h h' hname

/-- A cell and the ones before and after it. -/
theorem around (sorted : Sorted cells) {position : Nat} {middle : Cell}
    (h : cells[position]? = some middle) :
    (∀ cell ∈ cells.take position, cell.name < middle.name) ∧
      ∀ cell ∈ cells.drop position, middle.name ≤ cell.name := by
  obtain ⟨hposition, rfl⟩ := List.getElem?_eq_some_iff.mp h
  have hdrop := List.drop_eq_getElem_cons hposition
  have hparts : Sorted (cells.take position ++ cells.drop position) := by
    rwa [List.take_append_drop]
  obtain ⟨-, hafter, hbetween⟩ := List.pairwise_append.mp hparts
  rw [hdrop] at hafter hbetween
  refine ⟨fun cell hcell => hbetween cell hcell _ List.mem_cons_self, fun cell hcell => ?_⟩
  rw [hdrop] at hcell
  rcases List.mem_cons.mp hcell with rfl | hlater
  · exact List.le_refl _
  · exact List.le_of_lt ((List.pairwise_cons.mp hafter).1 cell hlater)

/-- A walk for a name can skip the half that cannot have it, wherever the cells are
halved. -/
theorem find?_half (sorted : Sorted cells) {position : Nat} {middle : Cell}
    (h : cells[position]? = some middle) (name : Bytes) :
    (cells.find? fun cell => cell.name = name) =
      if name < middle.name then (cells.take position).find? fun cell => cell.name = name
      else (cells.drop position).find? fun cell => cell.name = name := by
  obtain ⟨hbefore, hafter⟩ := sorted.around h
  have hparts : (cells.find? fun cell => cell.name = name) =
      ((cells.take position).find? fun cell => cell.name = name).or
        ((cells.drop position).find? fun cell => cell.name = name) := by
    rw [← List.find?_append, List.take_append_drop]
  rw [hparts]
  split
  · next hlt =>
      -- The name is before the middle's, so no cell from the middle on has it.
      have hnone : ((cells.drop position).find? fun cell => cell.name = name) = none := by
        rw [List.find?_eq_none]
        intro cell hcell hname
        have hle := hafter cell hcell
        rw [of_decide_eq_true hname] at hle
        exact List.not_lt.mpr hle hlt
      rw [hnone, Option.or_none]
  · next hge =>
      -- The name is not before the middle's, so no cell before the middle has it.
      have hnone : ((cells.take position).find? fun cell => cell.name = name) = none := by
        rw [List.find?_eq_none]
        intro cell hcell hname
        have hlt := hbefore cell hcell
        rw [of_decide_eq_true hname] at hlt
        exact hge hlt
      rw [hnone, Option.none_or]

/-- What a walk for a name comes to first is the only cell of the name. -/
theorem filter_name_eq (sorted : Sorted cells) (name : Bytes) :
    (cells.filter fun cell => cell.name = name) =
      (cells.find? fun cell => cell.name = name).toList := by
  induction cells with
  | nil => rfl
  | cons cell rest ih =>
      obtain ⟨hlater, hrest⟩ := List.pairwise_cons.mp sorted
      by_cases hname : cell.name = name
      · -- The names of all cells after it are greater.
        have hnone : (rest.filter fun cell => cell.name = name) = [] := by
          rw [List.filter_eq_nil_iff]
          intro other hother hsame
          have hlt := hlater other hother
          rw [of_decide_eq_true hsame, hname] at hlt
          exact List.lt_irrefl _ hlt
        simp [hname, hnone]
      · simp [hname, ih hrest]

end Sorted

namespace Partition

/-- The halving search among sorted cells finds what a walk from the front finds. -/
theorem search_eq_find? (name : Bytes) {cells : List Cell} (sorted : Sorted cells) :
    search name cells = cells.find? fun cell => cell.name = name := by
  -- The induction follows the search, so the cases are how many cells are left and which half.
  induction cells using search.induct name with
  | case1 => rw [search, List.find?_nil]
  | case2 only h =>
      rw [search, if_pos h]
      simp [h]
  | case3 only h =>
      rw [search, if_neg h]
      simp [h]
  | case4 first second rest half h =>
      -- There is a cell in the middle of several.
      have hhalf : half < (first :: second :: rest).length := by
        simp only [half, List.length_cons]
        omega
      rw [List.getElem?_eq_getElem hhalf] at h
      cases h
  | case5 first second rest half middle hmiddle hlt ih =>
      -- Both go on before the middle.
      rw [sorted.find?_half hmiddle name, if_pos hlt, search]
      simp only [half, hmiddle, if_pos hlt] at ih ⊢
      exact ih (List.Pairwise.sublist (List.take_sublist _ _) sorted)
  | case6 first second rest half middle hmiddle hge ih =>
      -- Both go on from the middle on.
      rw [sorted.find?_half hmiddle name, if_neg hge, search]
      simp only [half, hmiddle, if_neg hge] at ih ⊢
      exact ih (List.Pairwise.sublist (List.drop_sublist _ _) sorted)

/-- The halving search among sorted cells finds the cell of the name. -/
theorem search_eq_some_iff {name : Bytes} {cells : List Cell} (sorted : Sorted cells)
    {cell : Cell} : search name cells = some cell ↔ cell ∈ cells ∧ cell.name = name := by
  have hunique : ∀ one ∈ cells, ∀ other ∈ cells, decide (one.name = name) = true →
      decide (other.name = name) = true → one = other := by
    intro one hone other hother hname hname'
    exact sorted.eq_of_name_eq hone hother
      ((of_decide_eq_true hname).trans (of_decide_eq_true hname').symm)
  rw [search_eq_find? name sorted, find?_eq_some_iff_of_unique hunique, decide_eq_true_eq]

/-- The cell that a partition with sorted cells has for a name, if it holds
something. -/
theorem liveCell?_eq_some_iff {key name : Bytes} {cells : List Cell} (sorted : Sorted cells)
    {cell : Cell} :
    Partition.liveCell? ⟨key, some cells⟩ name = some cell ↔
      cell ∈ cells ∧ cell.name = name ∧ cell.isLive = true := by
  unfold liveCell?
  rw [Option.filter_eq_some_iff]
  show search name cells = some cell ∧ _ ↔ _
  rw [search_eq_some_iff sorted, and_assoc]

/-- A live cell is found as a walk from the front finds it. Among sorted cells a name is
looked up as the first cell of the name would be, which is the only one: it is the answer
if it holds something, and otherwise there is none. Nor is there one where there is no
container to look in. -/
theorem liveCell?_scans {stored : Partition} (sorted : Sorted (stored.cells.getD []))
    (name : Bytes) :
    (∀ cells, stored.cells = some cells →
      stored.liveCell? name =
        (cells.find? fun cell => cell.name = name).filter Cell.isLive ∧
      (cells.filter fun cell => cell.name = name) =
        (cells.find? fun cell => cell.name = name).toList) ∧
    (stored.cells = none → stored.liveCell? name = none) := by
  unfold liveCell?
  constructor
  · intro cells hcells
    rw [hcells] at sorted ⊢
    have sorted : Sorted cells := sorted
    show (search name cells).filter Cell.isLive = _ ∧ _
    rw [search_eq_find? name sorted]
    exact ⟨rfl, sorted.filter_name_eq name⟩
  · intro hnone
    rw [hnone]
    rfl

/-- Four cells, each of whose names starts with the one before it. The third is deleted. -/
def nestedCells : List Cell :=
  [⟨[], [0x31], 1, .live⟩, ⟨[0x61], [0x32], 2, .counter⟩, ⟨[0x61, 0x00], [], 3, .tombstone⟩,
    ⟨[0x61, 0x00, 0x00], [0x34], 4, .live⟩]

/-- The cell after the deleted one is found, and the deleted one is not. -/
theorem liveCell?_scans_nested :
    Sorted nestedCells ∧
      liveCell? ⟨[0x6B], some nestedCells⟩ [0x61, 0x00, 0x00] =
        some ⟨[0x61, 0x00, 0x00], [0x34], 4, .live⟩ ∧
      liveCell? ⟨[0x6B], some nestedCells⟩ [0x61, 0x00] = none ∧
      liveCell? ⟨[0x6B], none⟩ [0x61] = none := by
  have sorted : Sorted nestedCells := by
    unfold Sorted
    decide
  refine ⟨sorted, ?_, ?_, ?_⟩
  · rw [((@liveCell?_scans ⟨[0x6B], some nestedCells⟩ sorted _).1 _ rfl).1]
    decide
  · rw [((@liveCell?_scans ⟨[0x6B], some nestedCells⟩ sorted _).1 _ rfl).1]
    decide
  · exact (@liveCell?_scans ⟨[0x6B], none⟩ .nil _).2 rfl

end Partition

end WideColumn
