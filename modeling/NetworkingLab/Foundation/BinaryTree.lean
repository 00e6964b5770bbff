import Mathlib.Data.List.Basic
import Mathlib.Tactic.Common

/-!
# Binary trees read in order

A tree whose nodes carry values, and the list of them from left to right.
Rotations and searches rearrange a tree without changing that list, so a
search tree stands for a sorted list.

A top-down search leaves two half-built trees behind: everything it passed on
the left, with a hole at its lower right corner, and everything it passed on
the right, with a hole at its lower left corner.  `closeLeft` and `closeRight`
fill these holes.
-/

namespace NetworkingLab.Foundation.BinaryTree

/-- A binary tree with a value at each node. -/
inductive BinTree (α : Type*) where
  | leaf
  | node (left : BinTree α) (value : α) (right : BinTree α)

variable {α : Type*}

namespace BinTree

/-- The values from left to right. -/
def inorder : BinTree α → List α
  | leaf => []
  | node left value right => left.inorder ++ value :: right.inorder

@[simp]
theorem inorder_leaf : (leaf : BinTree α).inorder = [] :=
  rfl

@[simp]
theorem inorder_node (left : BinTree α) (value : α) (right : BinTree α) :
    (node left value right).inorder =
      left.inorder ++ value :: right.inorder :=
  rfl

/-! ## Half-built trees -/

/-- Fill the hole at the lower right corner; the inner nodes come first. -/
def closeLeft : List (BinTree α × α) → BinTree α → BinTree α
  | [], hole => hole
  | (left, value) :: outer, hole => closeLeft outer (node left value hole)

/-- Fill the hole at the lower left corner; the inner nodes come first. -/
def closeRight : List (α × BinTree α) → BinTree α → BinTree α
  | [], hole => hole
  | (value, right) :: outer, hole =>
      closeRight outer (node hole value right)

/-- What stands to the left of the hole. -/
def passedLeft : List (BinTree α × α) → List α
  | [] => []
  | (left, value) :: outer => passedLeft outer ++ left.inorder ++ [value]

/-- What stands to the right of the hole. -/
def passedRight : List (α × BinTree α) → List α
  | [] => []
  | (value, right) :: outer => value :: right.inorder ++ passedRight outer

@[simp]
theorem inorder_closeLeft
    (frames : List (BinTree α × α)) (hole : BinTree α) :
    (closeLeft frames hole).inorder =
      passedLeft frames ++ hole.inorder := by
  induction frames generalizing hole with
  | nil => rfl
  | cons frame outer induction =>
      rcases frame with ⟨left, value⟩
      simp [closeLeft, passedLeft, induction]

@[simp]
theorem inorder_closeRight
    (frames : List (α × BinTree α)) (hole : BinTree α) :
    (closeRight frames hole).inorder =
      hole.inorder ++ passedRight frames := by
  induction frames generalizing hole with
  | nil => simp [closeRight, passedRight]
  | cons frame outer induction =>
      rcases frame with ⟨value, right⟩
      simp [closeRight, passedRight, induction]

/-! ## The first value -/

/-- The first value of a node with these parts, and the rest of the tree. -/
def popFirst : BinTree α → α → BinTree α → α × BinTree α
  | leaf, value, right => (value, right)
  | node left inner rest, value, right =>
      ((popFirst left inner rest).1,
        node (popFirst left inner rest).2 value right)

theorem inorder_popFirst (left : BinTree α) (value : α) (right : BinTree α) :
    (popFirst left value right).1 ::
        (popFirst left value right).2.inorder =
      (node left value right).inorder := by
  induction left generalizing value right with
  | leaf => rfl
  | node left inner rest induction _ =>
      simp only [popFirst, inorder_node, ← List.cons_append,
        induction inner rest]

/-- The two subtrees of a removed node, with the successor in its place. -/
def join (left : BinTree α) : BinTree α → BinTree α
  | leaf => left
  | node inner value rest =>
      match left with
      | leaf => node inner value rest
      | node _ _ _ =>
          node left (popFirst inner value rest).1
            (popFirst inner value rest).2

@[simp]
theorem inorder_join (left right : BinTree α) :
    (join left right).inorder = left.inorder ++ right.inorder := by
  cases right with
  | leaf => simp [join]
  | node inner value rest =>
      cases left with
      | leaf => rfl
      | node =>
          rw [join, inorder_node, inorder_popFirst]

end BinTree

/-! ## Cutting a sorted list -/

/-- The cut lies in front of a value that ends it. -/
theorem takeWhile_append_cons
    {keep : α → Bool} {value : α} (ends : keep value = false)
    (front back : List α) :
    (front ++ value :: back).takeWhile keep = front.takeWhile keep := by
  induction front with
  | nil => simp [ends]
  | cons first rest induction =>
      simp only [List.cons_append, List.takeWhile_cons, induction]

theorem dropWhile_append_cons
    {keep : α → Bool} {value : α} (ends : keep value = false)
    (front back : List α) :
    (front ++ value :: back).dropWhile keep =
      front.dropWhile keep ++ value :: back := by
  induction front with
  | nil => simp [ends]
  | cons first rest induction =>
      simp only [List.cons_append, List.dropWhile_cons, induction]
      split <;> rfl

end NetworkingLab.Foundation.BinaryTree
