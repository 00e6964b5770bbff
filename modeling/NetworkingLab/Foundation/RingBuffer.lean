import Mathlib.Algebra.Order.Ring.Nat
import Mathlib.Data.List.Basic
import Mathlib.Data.Nat.ModEq
import Mathlib.Tactic.Common

/-!
# Rings of cells

A ring has a power of two of cells, and an index of any size reaches one of
them through the mask.  Indices that lie within one turn of each other reach
different cells, so a window of consecutive indices that is not longer than
the ring is stored as in an unbounded array: `read_write_self` and
`read_write_of_near` are the two rules for a write, `read_writeAll` the rule
for a loop that writes every index of a range.
-/

namespace NetworkingLab.Foundation.RingBuffer

/-- Cells in a power of two. -/
structure Slots (Cell : Type*) where
  bits : Nat
  cells : List Cell
  length_cells : cells.length = 2 ^ bits

namespace Slots

variable {Cell : Type*}

/-- How many cells there are. -/
def capacity (ring : Slots Cell) : Nat :=
  2 ^ ring.bits

def mask (ring : Slots Cell) : Nat :=
  ring.capacity - 1

/-- The cell an index reaches. -/
def position (ring : Slots Cell) (index : Nat) : Nat :=
  index &&& ring.mask

theorem position_eq_mod (ring : Slots Cell) (index : Nat) :
    ring.position index = index % ring.capacity :=
  Nat.and_two_pow_sub_one_eq_mod index ring.bits

theorem capacity_pos (ring : Slots Cell) : 0 < ring.capacity :=
  Nat.two_pow_pos ring.bits

theorem position_lt (ring : Slots Cell) (index : Nat) :
    ring.position index < ring.cells.length := by
  rw [ring.length_cells, position_eq_mod]
  exact Nat.mod_lt index ring.capacity_pos

/-- Indices within one turn reach different cells. -/
theorem position_injective
    {ring : Slots Cell} {first second : Nat}
    (same : ring.position first = ring.position second)
    (near : first < second + ring.capacity)
    (near' : second < first + ring.capacity) :
    first = second := by
  rw [position_eq_mod, position_eq_mod] at same
  rcases Nat.le_total first second with before | after
  · have turns := (Nat.modEq_iff_dvd' before).mp same
    have none := Nat.eq_zero_of_dvd_of_lt turns (by omega)
    omega
  · have turns := (Nat.modEq_iff_dvd' after).mp same.symm
    have none := Nat.eq_zero_of_dvd_of_lt turns (by omega)
    omega

def read (ring : Slots Cell) (index : Nat) : Cell :=
  ring.cells.get ⟨ring.position index, ring.position_lt index⟩

def write (ring : Slots Cell) (index : Nat) (cell : Cell) : Slots Cell where
  bits := ring.bits
  cells := ring.cells.set (ring.position index) cell
  length_cells := by rw [List.length_set, ring.length_cells]

/-- A ring with one value in all cells. -/
def blank (bits : Nat) (cell : Cell) : Slots Cell where
  bits := bits
  cells := List.replicate (2 ^ bits) cell
  length_cells := List.length_replicate

/-- Write all indices of a list, one after another. -/
def writeAll (ring : Slots Cell) (content : Nat → Cell)
    (indices : List Nat) : Slots Cell :=
  indices.foldl (fun ring index => ring.write index (content index)) ring

@[simp]
theorem capacity_write
    (ring : Slots Cell) (index : Nat) (cell : Cell) :
    (ring.write index cell).capacity = ring.capacity :=
  rfl

@[simp]
theorem position_write
    (ring : Slots Cell) (index other : Nat) (cell : Cell) :
    (ring.write index cell).position other = ring.position other :=
  rfl

@[simp]
theorem read_blank (bits : Nat) (cell : Cell) (index : Nat) :
    (blank bits cell).read index = cell := by
  simp [read, blank]

theorem read_write
    (ring : Slots Cell) (index other : Nat) (cell : Cell) :
    (ring.write index cell).read other =
      if ring.position index = ring.position other then
        cell
      else
        ring.read other := by
  simp only [read, write, List.get_eq_getElem]
  exact List.getElem_set _

@[simp]
theorem read_write_self
    (ring : Slots Cell) (index : Nat) (cell : Cell) :
    (ring.write index cell).read index = cell := by
  rw [read_write, if_pos rfl]

/-- A write leaves the other indices of one turn alone. -/
theorem read_write_of_near
    {ring : Slots Cell} {index other : Nat}
    (different : index ≠ other)
    (near : index < other + ring.capacity)
    (near' : other < index + ring.capacity) (cell : Cell) :
    (ring.write index cell).read other = ring.read other := by
  rw [read_write, if_neg]
  intro same
  exact different (position_injective same near near')

@[simp]
theorem capacity_writeAll
    (ring : Slots Cell) (content : Nat → Cell) (indices : List Nat) :
    (ring.writeAll content indices).capacity = ring.capacity := by
  induction indices generalizing ring with
  | nil => rfl
  | cons index indices induction =>
      exact induction (ring.write index (content index))

/--
After writing a list of indices, an index within one turn of all of them reads
what was written there, or what it read before.
-/
theorem read_writeAll
    {ring : Slots Cell} {content : Nat → Cell} {indices : List Nat}
    {other : Nat}
    (near : ∀ index ∈ indices,
      index < other + ring.capacity ∧ other < index + ring.capacity) :
    (ring.writeAll content indices).read other =
      if other ∈ indices then content other else ring.read other := by
  induction indices generalizing ring with
  | nil => rfl
  | cons index indices induction =>
      have rest := @induction (ring.write index (content index))
        fun later member => near later (List.mem_cons_of_mem _ member)
      have step : (ring.writeAll content (index :: indices)).read other =
          ((ring.write index (content index)).writeAll content
            indices).read other :=
        rfl
      rw [step, rest]
      by_cases later : other ∈ indices
      · rw [if_pos later, if_pos (List.mem_cons_of_mem _ later)]
      · rw [if_neg later]
        by_cases same : other = index
        · subst same
          rw [read_write_self, if_pos List.mem_cons_self]
        · have close := near index List.mem_cons_self
          rw [read_write_of_near (Ne.symm same) close.1 close.2,
            if_neg (by simp [same, later])]

end Slots

end NetworkingLab.Foundation.RingBuffer
