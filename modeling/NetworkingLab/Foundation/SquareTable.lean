import Mathlib.Algebra.Order.Ring.Nat
import Mathlib.Data.List.ProdSigma
import Mathlib.Tactic.Common

/-!
# Square tables in one array

A table of rows and columns is kept in one list, row behind row.  Inside the
table different places have different indices, so reading after a write is as
in a two-dimensional array (`read_write`), and a nested loop of writes leaves
what it wrote at every place it passed (`read_writeAll`).
-/

namespace NetworkingLab.Foundation.SquareTable

/-- `side * side` cells. -/
structure Grid (Cell : Type*) where
  side : Nat
  cells : List Cell
  length_cells : cells.length = side * side

namespace Grid

variable {Cell : Type*}

/-- Where a place is in the list. -/
def index (side row column : Nat) : Nat :=
  side * row + column

theorem index_lt
    {side row column : Nat} (rowIn : row < side) (columnIn : column < side) :
    index side row column < side * side := by
  calc
    side * row + column < side * row + side := by omega
    _ = side * (row + 1) := (Nat.mul_succ side row).symm
    _ ≤ side * side := Nat.mul_le_mul_left side rowIn

theorem index_injective
    {side row column row' column' : Nat}
    (columnIn : column < side) (columnIn' : column' < side)
    (same : index side row column = index side row' column') :
    row = row' ∧ column = column' := by
  have rows := congrArg (· / side) same
  have columns := congrArg (· % side) same
  have positive : 0 < side := by omega
  simp only [index, Nat.mul_add_div positive, Nat.div_eq_of_lt columnIn,
    Nat.div_eq_of_lt columnIn', add_zero] at rows
  simp only [index, Nat.mul_add_mod, Nat.mod_eq_of_lt columnIn,
    Nat.mod_eq_of_lt columnIn'] at columns
  exact ⟨rows, columns⟩

/-- The cell at a place; `outside` is never read inside the table. -/
def read (grid : Grid Cell) (outside : Cell) (row column : Nat) : Cell :=
  grid.cells.getD (index grid.side row column) outside

def write (grid : Grid Cell) (row column : Nat) (cell : Cell) :
    Grid Cell where
  side := grid.side
  cells := grid.cells.set (index grid.side row column) cell
  length_cells := by rw [List.length_set, grid.length_cells]

/-- A table with one value in all cells. -/
def blank (side : Nat) (cell : Cell) : Grid Cell where
  side := side
  cells := List.replicate (side * side) cell
  length_cells := List.length_replicate

/-- Write all places of a list, one after another. -/
def writeAll (grid : Grid Cell) (content : Nat → Nat → Cell)
    (places : List (Nat × Nat)) : Grid Cell :=
  places.foldl
    (fun grid place =>
      grid.write place.1 place.2 (content place.1 place.2))
    grid

@[simp]
theorem side_write
    (grid : Grid Cell) (row column : Nat) (cell : Cell) :
    (grid.write row column cell).side = grid.side :=
  rfl

@[simp]
theorem side_writeAll
    (grid : Grid Cell) (content : Nat → Nat → Cell)
    (places : List (Nat × Nat)) :
    (grid.writeAll content places).side = grid.side := by
  induction places generalizing grid with
  | nil => rfl
  | cons place places induction => exact induction (grid.write _ _ _)

theorem read_blank
    {side row column : Nat} (cell outside : Cell)
    (rowIn : row < side) (columnIn : column < side) :
    (blank side cell).read outside row column = cell := by
  have inside := index_lt rowIn columnIn
  simp [read, blank, List.getD_eq_getElem?_getD, inside]

theorem read_write
    {grid : Grid Cell} {row column row' column' : Nat}
    (rowIn : row < grid.side) (columnIn : column < grid.side)
    (columnIn' : column' < grid.side) (cell outside : Cell) :
    (grid.write row column cell).read outside row' column' =
      if row = row' ∧ column = column' then
        cell
      else
        grid.read outside row' column' := by
  have inside : index grid.side row column < grid.cells.length := by
    rw [grid.length_cells]
    exact index_lt rowIn columnIn
  simp only [read, write, List.getD_eq_getElem?_getD, List.getElem?_set]
  by_cases same : row = row' ∧ column = column'
  · obtain ⟨rfl, rfl⟩ := same
    simp [inside]
  · have different : index grid.side row column ≠
        index grid.side row' column' := fun equal =>
      same (index_injective columnIn columnIn' equal)
    rw [if_neg different, if_neg same]

/-- Inside the table the list has a cell. -/
theorem getElem?_index
    {grid : Grid Cell} {row column : Nat}
    (rowIn : row < grid.side) (columnIn : column < grid.side)
    (outside : Cell) :
    grid.cells[index grid.side row column]? =
      some (grid.read outside row column) := by
  have inside : index grid.side row column < grid.cells.length := by
    rw [grid.length_cells]
    exact index_lt rowIn columnIn
  simp [read, List.getD_eq_getElem?_getD, inside]

/-- After writing a list of places, each of them reads what was written. -/
theorem read_writeAll
    {grid : Grid Cell} {content : Nat → Nat → Cell}
    {places : List (Nat × Nat)} {row column : Nat}
    (inside : ∀ place ∈ places,
      place.1 < grid.side ∧ place.2 < grid.side)
    (columnIn : column < grid.side) (outside : Cell) :
    (grid.writeAll content places).read outside row column =
      if (row, column) ∈ places then
        content row column
      else
        grid.read outside row column := by
  induction places generalizing grid with
  | nil => rfl
  | cons place places induction =>
      have rest := @induction
        (grid.write place.1 place.2 (content place.1 place.2))
        (fun later member => inside later (List.mem_cons_of_mem _ member))
        columnIn
      have here := inside place List.mem_cons_self
      have step : grid.writeAll content (place :: places) =
          (grid.write place.1 place.2
            (content place.1 place.2)).writeAll content places :=
        rfl
      rw [step, rest, read_write here.1 here.2 columnIn]
      by_cases later : (row, column) ∈ places
      · rw [if_pos later, if_pos (List.mem_cons_of_mem _ later)]
      · rw [if_neg later]
        by_cases same : place.1 = row ∧ place.2 = column
        · obtain ⟨rfl, rfl⟩ := same
          rw [if_pos ⟨rfl, rfl⟩, if_pos List.mem_cons_self]
        · rw [if_neg same, if_neg]
          intro member
          rcases List.mem_cons.mp member with equal | old
          · exact same ⟨congrArg Prod.fst equal.symm,
              congrArg Prod.snd equal.symm⟩
          · exact later old

end Grid

end NetworkingLab.Foundation.SquareTable
