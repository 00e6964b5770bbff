import Mathlib.Tactic.Common

/-!
# Frontiers of marked indices

Indices below a size are marked one after another, and a frontier stays behind
them: it is the first index from some start on that is not marked, or the size.

A frontier is unique (`IsFrontier.unique`).  Moving it on after more indices
have been marked gives the frontier that one move from the start would have
found (`IsFrontier.restart`), so only the marks decide where it ends and not
the order in which they came.
-/

namespace NetworkingLab.Foundation.Frontier

/-- The first index from `start` on that is not marked, at most `size`. -/
structure IsFrontier
    (marked : Nat → Prop) (size start stop : Nat) : Prop where
  le : start ≤ stop
  bound : stop ≤ size
  below : ∀ k, start ≤ k → k < stop → marked k
  unmarkedAt : stop < size → ¬ marked stop

namespace IsFrontier

variable {marked later : Nat → Prop} {size start middle stop other : Nat}

theorem le_of_open
    (frontier : IsFrontier marked size start stop)
    {k : Nat} (behind : start ≤ k) (unmarked : ¬ marked k) :
    stop ≤ k := by
  by_contra passed
  exact unmarked (frontier.below k behind (Nat.not_le.mp passed))

theorem le_other
    (first : IsFrontier marked size start stop)
    (second : IsFrontier marked size start other) :
    stop ≤ other := by
  rcases Nat.lt_or_ge other size with inside | full
  · exact first.le_of_open second.le (second.unmarkedAt inside)
  · exact Nat.le_trans first.bound full

/-- The marks decide where the frontier is. -/
theorem unique
    (first : IsFrontier marked size start stop)
    (second : IsFrontier marked size start other) :
    stop = other :=
  Nat.le_antisymm (first.le_other second) (second.le_other first)

/-- A frontier can be moved on from where it stands after more marks. -/
theorem restart
    (first : IsFrontier marked size start middle)
    (more : ∀ k, marked k → later k)
    (second : IsFrontier later size middle stop) :
    IsFrontier later size start stop where
  le := Nat.le_trans first.le second.le
  bound := second.bound
  below k behind inside := by
    rcases Nat.lt_or_ge k middle with before | after
    · exact more k (first.below k behind before)
    · exact second.below k after inside
  unmarkedAt := second.unmarkedAt

theorem congr
    (frontier : IsFrontier marked size start stop)
    (same : ∀ k, marked k ↔ later k) :
    IsFrontier later size start stop where
  le := frontier.le
  bound := frontier.bound
  below k behind inside := (same k).mp (frontier.below k behind inside)
  unmarkedAt inside unmarked :=
    frontier.unmarkedAt inside ((same stop).mpr unmarked)

end IsFrontier

end NetworkingLab.Foundation.Frontier
