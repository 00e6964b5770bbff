import Mathlib.Logic.Function.Basic
import Mathlib.Tactic.Common

/-!
# Cells in a flat memory

A memory is a function from addresses to cells.  `store` writes the elements of
a list one behind the other, and `Holds` says that they stand there.
-/

namespace NetworkingLab.Foundation.ByteMemory

variable {Cell : Type*} {memory : Nat → Cell}

/-- Write the cells from an address on. -/
def store (memory : Nat → Cell) (address : Nat) :
    List Cell → Nat → Cell
  | [] => memory
  | cell :: cells =>
      store (Function.update memory address cell) (address + 1) cells

/-- The cells stand in the memory from an address on. -/
def Holds (memory : Nat → Cell) (address : Nat) : List Cell → Prop
  | [] => True
  | cell :: cells =>
      memory address = cell ∧ Holds memory (address + 1) cells

@[simp]
theorem holds_nil (memory : Nat → Cell) (address : Nat) :
    Holds memory address [] :=
  trivial

@[simp]
theorem holds_cons_iff
    (memory : Nat → Cell) (address : Nat) (cell : Cell)
    (cells : List Cell) :
    Holds memory address (cell :: cells) ↔
      memory address = cell ∧ Holds memory (address + 1) cells :=
  Iff.rfl

theorem holds_append_iff
    (memory : Nat → Cell) (address : Nat) (first second : List Cell) :
    Holds memory address (first ++ second) ↔
      Holds memory address first ∧
        Holds memory (address + first.length) second := by
  induction first generalizing address with
  | nil => simp
  | cons cell first induction =>
      have next : address + 1 + first.length =
          address + (first.length + 1) := by
        omega
      simp only [List.cons_append, holds_cons_iff, List.length_cons,
        induction, and_assoc, next]

/-- Memories that agree on the cells hold the same. -/
theorem Holds.congr
    {other : Nat → Cell} {address : Nat} {cells : List Cell}
    (holds : Holds memory address cells)
    (same : ∀ i, address ≤ i → i < address + cells.length →
      other i = memory i) :
    Holds other address cells := by
  induction cells generalizing address with
  | nil => trivial
  | cons cell cells induction =>
      rw [List.length_cons] at same
      constructor
      · rw [same address (Nat.le_refl _) (by omega)]
        exact holds.1
      · apply induction holds.2
        intro i above below
        exact same i (by omega) (by omega)

/-! ## Writes and what they leave -/

theorem Holds.update
    {address : Nat} {cells : List Cell}
    (holds : Holds memory address cells)
    {target : Nat}
    (outside : target < address ∨ address + cells.length ≤ target)
    (cell : Cell) :
    Holds (Function.update memory target cell) address cells := by
  apply holds.congr
  intro i above below
  have other : i ≠ target := by
    omega
  exact Function.update_of_ne other cell memory

/-- Outside of its cells a store changes nothing. -/
theorem store_of_outside
    {address i : Nat} {cells : List Cell}
    (outside : i < address ∨ address + cells.length ≤ i) :
    store memory address cells i = memory i := by
  induction cells generalizing memory address with
  | nil => rfl
  | cons cell cells induction =>
      rw [List.length_cons] at outside
      have other : i ≠ address := by
        omega
      rw [store, induction (by omega)]
      exact Function.update_of_ne other cell memory

theorem Holds.store
    {address : Nat} {cells : List Cell}
    (holds : Holds memory address cells)
    {target : Nat} {written : List Cell}
    (outside : target + written.length ≤ address ∨
      address + cells.length ≤ target) :
    Holds (store memory target written) address cells := by
  apply holds.congr
  intro i above below
  exact store_of_outside (by omega)

/-- What was stored stands in the memory. -/
theorem holds_store
    (memory : Nat → Cell) (address : Nat) (cells : List Cell) :
    Holds (store memory address cells) address cells := by
  induction cells generalizing memory address with
  | nil => trivial
  | cons cell cells induction =>
      constructor
      · rw [ByteMemory.store, store_of_outside (Or.inl (Nat.lt_succ_self _)),
          Function.update_self]
      · exact induction _ _

/-- A cell after a store depends only on the cell before it. -/
theorem store_congr
    {other : Nat → Cell} {i : Nat} (same : other i = memory i)
    (address : Nat) (cells : List Cell) :
    store other address cells i = store memory address cells i := by
  induction cells generalizing memory other address with
  | nil => exact same
  | cons cell cells induction =>
      apply induction
      by_cases here : i = address
      · rw [here, Function.update_self, Function.update_self]
      · rw [Function.update_of_ne here, Function.update_of_ne here, same]

/-- A cell that is written last need not be written before a store. -/
theorem update_store_update
    (memory : Nat → Cell) (address : Nat) (cells : List Cell)
    (target : Nat) (before last : Cell) :
    Function.update
        (store (Function.update memory target before) address cells)
        target last =
      Function.update (store memory address cells) target last := by
  ext i
  by_cases here : i = target
  · rw [here, Function.update_self, Function.update_self]
  · rw [Function.update_of_ne here, Function.update_of_ne here]
    exact store_congr (Function.update_of_ne here before memory) _ _

end NetworkingLab.Foundation.ByteMemory
