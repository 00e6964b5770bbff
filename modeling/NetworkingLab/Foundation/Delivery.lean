import Mathlib.Data.List.Basic
import Mathlib.Logic.Relation
import Mathlib.Data.Nat.Basic
import Mathlib.Order.Basic
import Mathlib.Tactic.Common

/-!
# In-order delivery, abstractly

What a reliable transfer of `total` chunks is for, without saying how it is
done.  The only state is how many chunks have been announced and how many
delivered; both grow, delivery behind announcement.  The text delivered so far
is always a prefix of the whole text, is never revised, and is the whole text
once everything announced is delivered and everything is announced.
-/

namespace NetworkingLab.Foundation.Delivery

variable {Symbol : Type*} {total : Nat}

/-- How far a transfer of `total` chunks has come. -/
@[ext]
structure Progress (total : Nat) where
  delivered : Nat
  announced : Nat
  ordered : delivered ≤ announced
  bounded : announced ≤ total

namespace Progress

/-- Nothing announced and nothing delivered. -/
def start (total : Nat) : Progress total :=
  ⟨0, 0, Nat.le_refl 0, Nat.zero_le total⟩

/-- Announce up to `announced` chunks, or deliver the next announced one. -/
inductive Step : Progress total → Progress total → Prop where
  | announce (progress : Progress total) (announced : Nat)
      (grows : progress.announced ≤ announced)
      (bounded : announced ≤ total) :
      Step progress
        ⟨progress.delivered, announced,
          progress.ordered.trans grows, bounded⟩
  | deliver (progress : Progress total)
      (pending : progress.delivered + 1 ≤ progress.announced) :
      Step progress
        ⟨progress.delivered + 1, progress.announced, pending,
          progress.bounded⟩

/-- Any number of abstract steps. -/
abbrev Reaches : Progress total → Progress total → Prop :=
  Relation.ReflTransGen Step

theorem Step.delivered_le
    {before after : Progress total} (step : Step before after) :
    before.delivered ≤ after.delivered := by
  cases step with
  | announce => exact Nat.le_refl _
  | deliver => exact Nat.le_succ _

theorem Reaches.delivered_le
    {before after : Progress total} (reaches : Reaches before after) :
    before.delivered ≤ after.delivered := by
  induction reaches with
  | refl => exact Nat.le_refl _
  | tail _ step induction => exact induction.trans step.delivered_le

/-- The text delivered so far. -/
def text (chunks : List (List Symbol)) (progress : Progress total) :
    List Symbol :=
  (chunks.take progress.delivered).flatten

theorem take_flatten_prefix
    (chunks : List (List Symbol)) {few many : Nat} (le : few ≤ many) :
    (chunks.take few).flatten <+: (chunks.take many).flatten := by
  have split : chunks.take many =
      chunks.take few ++ (chunks.drop few).take (many - few) := by
    rw [← List.take_add, Nat.add_sub_cancel' le]
  rw [split, List.flatten_append]
  exact List.prefix_append _ _

theorem text_prefix
    (chunks : List (List Symbol)) (progress : Progress total) :
    progress.text chunks <+: chunks.flatten := by
  have whole :=
    take_flatten_prefix chunks
      (Nat.le_max_left progress.delivered chunks.length)
  rwa [List.take_of_length_le (Nat.le_max_right _ _)] at whole

/-- Delivered text is never revised. -/
theorem Reaches.text_prefix
    (chunks : List (List Symbol))
    {before after : Progress total} (reaches : Reaches before after) :
    before.text chunks <+: after.text chunks :=
  take_flatten_prefix chunks reaches.delivered_le

/-- A transfer that has delivered everything has delivered the whole text. -/
theorem text_complete
    {chunks : List (List Symbol)} (length : chunks.length = total)
    {progress : Progress total} (complete : progress.delivered = total) :
    progress.text chunks = chunks.flatten := by
  rw [text, complete, ← length, List.take_length]

end Progress

end NetworkingLab.Foundation.Delivery
