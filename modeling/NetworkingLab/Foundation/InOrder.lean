import Mathlib.Data.List.Basic
import Mathlib.Tactic.Common

/-!
# Numbered messages announced in order

A sender numbers its messages `0, 1, 2, ...` and may repeat them freely, but
the first copy of each number, the one a receiver will accept, leaves in
order.  `Announces copyOf fresh start messages stop` says that the list moves
the number of announced messages from `start` to `stop` in that way: each
message either repeats an announced number or is a fresh copy of the next one.

The rules say how such lists compose, what the first message of one can be,
and how repetitions and consecutive runs are built.
-/

namespace NetworkingLab.Foundation.InOrder

variable {Message : Type*}

/-- A list of messages that announces the numbers `start .. stop - 1`. -/
inductive Announces
    (copyOf : Nat → Message → Prop) (fresh : Message → Prop) :
    Nat → List Message → Nat → Prop where
  | nil (start : Nat) : Announces copyOf fresh start [] start
  | again
      {start stop number : Nat} {message : Message}
      {rest : List Message}
      (copy : copyOf number message) (known : number < start)
      (tail : Announces copyOf fresh start rest stop) :
      Announces copyOf fresh start (message :: rest) stop
  | next
      {start stop : Nat} {message : Message} {rest : List Message}
      (copy : copyOf start message) (first : fresh message)
      (tail : Announces copyOf fresh (start + 1) rest stop) :
      Announces copyOf fresh start (message :: rest) stop

namespace Announces

variable
    {copyOf : Nat → Message → Prop} {fresh : Message → Prop}
    {start middle stop : Nat}

theorem le
    {messages : List Message}
    (announces : Announces copyOf fresh start messages stop) :
    start ≤ stop := by
  induction announces with
  | nil => exact Nat.le_refl _
  | again _ _ _ induction => exact induction
  | next _ _ _ induction => exact Nat.le_of_succ_le induction

theorem append
    {left right : List Message}
    (before : Announces copyOf fresh start left middle)
    (after : Announces copyOf fresh middle right stop) :
    Announces copyOf fresh start (left ++ right) stop := by
  induction before with
  | nil => exact after
  | again copy known _ induction =>
      exact again copy known (induction after)
  | next copy first _ induction =>
      exact next copy first (induction after)

/-- The empty list announces nothing. -/
theorem eq_of_nil (announces : Announces copyOf fresh start [] stop) :
    start = stop := by
  cases announces
  rfl

/-- Every message of the list is a copy of an announced number. -/
theorem copy_of_mem
    {messages : List Message}
    (announces : Announces copyOf fresh start messages stop)
    {message : Message} (member : message ∈ messages) :
    ∃ number < stop, copyOf number message := by
  induction announces with
  | nil => cases member
  | again copy known tail induction =>
      rcases List.mem_cons.mp member with rfl | later
      · exact ⟨_, Nat.lt_of_lt_of_le known tail.le, copy⟩
      · exact induction later
  | next copy _ tail induction =>
      rcases List.mem_cons.mp member with rfl | later
      · exact ⟨_, tail.le, copy⟩
      · exact induction later

/-- Every announced number has a fresh copy in the list. -/
theorem exists_fresh
    {messages : List Message}
    (announces : Announces copyOf fresh start messages stop)
    {number : Nat} (lower : start ≤ number) (upper : number < stop) :
    ∃ message ∈ messages, copyOf number message ∧ fresh message := by
  induction announces with
  | nil => omega
  | again _ _ _ induction =>
      rcases induction lower upper with ⟨message, member, found⟩
      exact ⟨message, List.mem_cons_of_mem _ member, found⟩
  | @next start _ message _ copy first _ induction =>
      by_cases here : number = start
      · subst here
        exact ⟨message, List.mem_cons_self, copy, first⟩
      · rcases induction (by omega) upper with
          ⟨message, member, found⟩
        exact ⟨message, List.mem_cons_of_mem _ member, found⟩

/-- Repeating an announced message announces nothing. -/
theorem replicate_known
    {number : Nat} {message : Message}
    (copy : copyOf number message) (known : number < start)
    (times : Nat) :
    Announces copyOf fresh start (List.replicate times message) start := by
  induction times with
  | zero => exact nil start
  | succ times induction => exact again copy known induction

/-- Repeating the next message announces it once. -/
theorem replicate_next
    {message : Message}
    (copy : copyOf start message) (first : fresh message)
    (times : Nat) :
    Announces copyOf fresh start
      (List.replicate (times + 1) message) (start + 1) :=
  next copy first (replicate_known copy (Nat.lt_succ_self start) times)

/-- A consecutive run that begins at or below the announced numbers. -/
theorem run
    {messageAt : Nat → Message} {first : Nat}
    (length : Nat) (connected : first ≤ start)
    (copies :
      ∀ number, first ≤ number → number < first + length →
        copyOf number (messageAt number))
    (firsts :
      ∀ number, start ≤ number → number < first + length →
        fresh (messageAt number)) :
    Announces copyOf fresh start
      ((List.range' first length).map messageAt)
      (max start (first + length)) := by
  induction length generalizing first start with
  | zero =>
      rw [Nat.add_zero, Nat.max_eq_left connected]
      exact nil start
  | succ length induction =>
      have copy := copies first (Nat.le_refl _) (by omega)
      have shifted : first + (length + 1) = first + 1 + length := by
        omega
      rw [shifted] at copies firsts ⊢
      rw [List.range'_succ, List.map_cons]
      by_cases known : first < start
      · apply again copy known
        apply induction known
        · intro number lower upper
          exact copies number (by omega) upper
        · exact firsts
      · have equal : start = first := by omega
        subst equal
        have later :=
          @induction (start + 1) (start + 1) (Nat.le_refl _)
            (fun number lower upper => copies number (by omega) upper)
            (fun number lower upper => firsts number (by omega) upper)
        have reached :
            max start (start + 1 + length) =
              max (start + 1) (start + 1 + length) := by
          omega
        rw [reached]
        exact next copy (firsts start (Nat.le_refl _) (by omega)) later

end Announces

end NetworkingLab.Foundation.InOrder
