import Mathlib.Data.List.Basic
import Mathlib.Tactic.Common

/-!
# Greedy matching of a subsequence

The elements of a pattern are looked for in a text one after the other, each
behind the one before.  `unmatched` is the part of the pattern that is not
found; greedy matching finds as much as any other way to embed the pattern.
-/

namespace NetworkingLab.Foundation.GreedyMatch

variable {α : Type*}

/-- An element in front that does not match is of no use. -/
theorem cons_sublist_cons_of_ne_iff
    {a p : α} (other : a ≠ p) (text pattern : List α) :
    (p :: pattern).Sublist (a :: text) ↔ (p :: pattern).Sublist text := by
  rw [List.sublist_cons_iff]
  constructor
  · rintro (later | ⟨_, here, _⟩)
    · exact later
    · cases here
      exact absurd rfl other
  · exact Or.inl

variable [DecidableEq α]

/-- What is left of a pattern behind a text. -/
def unmatched : List α → List α → List α
  | [], pattern => pattern
  | _ :: _, [] => []
  | a :: text, p :: pattern =>
      if a = p then
        unmatched text pattern
      else
        unmatched text (p :: pattern)

@[simp]
theorem unmatched_nil_left (pattern : List α) :
    unmatched [] pattern = pattern := by
  rw [unmatched]

theorem unmatched_cons_self (a : α) (text pattern : List α) :
    unmatched (a :: text) (a :: pattern) = unmatched text pattern := by
  rw [unmatched, if_pos rfl]

theorem unmatched_cons_of_ne
    {a p : α} (other : a ≠ p) (text pattern : List α) :
    unmatched (a :: text) (p :: pattern) =
      unmatched text (p :: pattern) := by
  rw [unmatched, if_neg other]

/--
The rest of a pattern begins behind its longest part in front that is a
subsequence.
-/
theorem unmatched_eq_cons_iff
    (text pattern : List α) (c : α) (rest : List α) :
    unmatched text pattern = c :: rest ↔
      ∃ front, pattern = front ++ c :: rest ∧ front.Sublist text ∧
        ¬ (front ++ [c]).Sublist text := by
  fun_induction unmatched text pattern with
  | case1 pattern => simp
  | case2 a text => simp
  | case3 text p pattern induction =>
      rw [induction]
      constructor
      · rintro ⟨front, rfl, found, maximal⟩
        refine ⟨p :: front, rfl, found.cons_cons p, ?_⟩
        rw [List.cons_append, List.cons_sublist_cons]
        exact maximal
      · rintro ⟨_ | ⟨first, front⟩, parts, found, maximal⟩
        · -- the first element matches, so that the longest part has it
          cases parts
          simp at maximal
        · cases parts
          rw [List.cons_append, List.cons_sublist_cons] at maximal
          rw [List.cons_sublist_cons] at found
          exact ⟨front, rfl, found, maximal⟩
  | case4 a text p pattern other induction =>
      rw [induction]
      have moved (front : List α)
          (parts : p :: pattern = front ++ c :: rest) :
          (front.Sublist (a :: text) ↔ front.Sublist text) ∧
            ((front ++ [c]).Sublist (a :: text) ↔
              (front ++ [c]).Sublist text) := by
        cases front with
        | nil =>
            cases parts
            exact ⟨by simp, cons_sublist_cons_of_ne_iff other _ _⟩
        | cons first front =>
            cases parts
            exact ⟨cons_sublist_cons_of_ne_iff other _ _,
              cons_sublist_cons_of_ne_iff other _ _⟩
      constructor
      · rintro ⟨front, parts, found, maximal⟩
        exact ⟨front, parts, (moved front parts).1.mpr found,
          fun more => maximal ((moved front parts).2.mp more)⟩
      · rintro ⟨front, parts, found, maximal⟩
        exact ⟨front, parts, (moved front parts).1.mp found,
          fun more => maximal ((moved front parts).2.mpr more)⟩

end NetworkingLab.Foundation.GreedyMatch
