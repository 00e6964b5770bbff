import Mathlib.Data.List.Basic
import Mathlib.Tactic.Common

/-!
# Walks to an end mark

A loop goes through an array from its start and trusts that it will meet an end
mark.  It may finish earlier, at an element that answers its question, and it
may meet an element it cannot read.  Behind the last element there is nothing
to read.

`walk` records the indices that are inspected.  Behind elements that it passes
it goes on as if it began there (`walk_append`), and in front of an end mark it
is safe and finds the first answer (`walk_marked`).
-/

namespace NetworkingLab.Foundation.Sentinel

variable {α β : Type*}

/-- What the loop does at an element that is no end mark. -/
inductive Visit (β : Type*) where
  | unreadable
  | done (answer : β)
  | next

/-- The answer of a visit, if it gives one. -/
def Visit.answer : Visit β → Option β
  | .done answer => some answer
  | _ => none

/--
The indices a walk has inspected and its outcome: the answer it found, if any.
Without an outcome the walk has left the array or met an unreadable element.
-/
structure Walk (β : Type*) where
  inspected : List Nat
  outcome : Option (Option β)

/-- The walk from index `i` through the elements from there on. -/
def walk (isEnd : α → Bool) (visit : α → Visit β) :
    Nat → List α → Walk β
  | i, [] => ⟨[i], none⟩
  | i, element :: rest =>
      if isEnd element then
        ⟨[i], some none⟩
      else
        match visit element with
        | .unreadable => ⟨[i], none⟩
        | .done answer => ⟨[i], some (some answer)⟩
        | .next =>
            let later := walk isEnd visit (i + 1) rest
            ⟨i :: later.inspected, later.outcome⟩

variable {isEnd : α → Bool} {visit : α → Visit β}

/-- The first index is always inspected. -/
theorem mem_inspected (i : Nat) (elements : List α) :
    i ∈ (walk isEnd visit i elements).inspected := by
  cases elements with
  | nil => simp [walk]
  | cons element rest =>
      rw [walk]
      split_ifs
      · simp
      · cases visit element <;> simp

/-- The walk passes elements it has nothing to do at. -/
theorem walk_append
    (i : Nat) (front rest : List α)
    (unended : ∀ element ∈ front, isEnd element = false)
    (passes : ∀ element ∈ front, visit element = .next) :
    walk isEnd visit i (front ++ rest) =
      ⟨List.range' i front.length ++
          (walk isEnd visit (i + front.length) rest).inspected,
        (walk isEnd visit (i + front.length) rest).outcome⟩ := by
  induction front generalizing i with
  | nil => simp
  | cons element front induction =>
      have later := induction (i + 1)
        (fun other member => unended other (List.mem_cons_of_mem _ member))
        (fun other member => passes other (List.mem_cons_of_mem _ member))
      have shifted : i + 1 + front.length = i + (front.length + 1) := by
        omega
      rw [List.cons_append, walk, unended element List.mem_cons_self,
        passes element List.mem_cons_self]
      simp only [Bool.false_eq_true, if_false, later, shifted,
        List.length_cons, List.range'_succ, List.cons_append]

/--
In front of an end mark, over readable elements, the walk stays at or in front
of the mark and finds the first answer.
-/
theorem walk_marked
    (i : Nat) (front : List α) {mark : α} (rest : List α)
    (unended : ∀ element ∈ front, isEnd element = false)
    (readable : ∀ element ∈ front, visit element ≠ .unreadable)
    (marked : isEnd mark = true) :
    (walk isEnd visit i (front ++ mark :: rest)).outcome =
        some (front.findSome? fun element => (visit element).answer) ∧
      ∀ j ∈ (walk isEnd visit i (front ++ mark :: rest)).inspected,
        j ≤ i + front.length := by
  induction front generalizing i with
  | nil => simp [walk, marked]
  | cons element front induction =>
      have later := induction (i + 1)
        (fun other member => unended other (List.mem_cons_of_mem _ member))
        (fun other member =>
          readable other (List.mem_cons_of_mem _ member))
      rw [List.cons_append, walk, unended element List.mem_cons_self]
      cases seen : visit element with
      | unreadable =>
          exact absurd seen (readable element List.mem_cons_self)
      | done answer => simp [seen, Visit.answer]
      | next =>
          simp only [Bool.false_eq_true, if_false, List.findSome?_cons,
            seen, Visit.answer]
          refine ⟨later.1, ?_⟩
          intro j member
          rw [List.length_cons]
          rcases List.mem_cons.mp member with rfl | inside
          · omega
          · have bound := later.2 j inside
            omega

end NetworkingLab.Foundation.Sentinel
