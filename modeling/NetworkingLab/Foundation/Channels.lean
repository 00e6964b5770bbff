import Mathlib.Data.List.Basic
import Mathlib.Tactic.Common

/-!
# Messages in flight on channels

All messages in flight stand in one list in the order they were sent.  Each
belongs to a channel; a channel keeps its order and different channels overtake
each other freely, so any message that is the first on its channel may arrive
next.
-/

namespace NetworkingLab.Foundation.Channels

variable {Message Channel : Type*} (channel : Message → Channel)

/-- The first message of its channel arrives and leaves the rest in flight. -/
inductive Arrives :
    List Message → Message → List Message → Prop where
  | here (message : Message) (rest : List Message) :
      Arrives (message :: rest) message rest
  | later
      {other message : Message} {flight rest : List Message}
      (apart : channel other ≠ channel message)
      (tail : Arrives flight message rest) :
      Arrives (other :: flight) message (other :: rest)

variable {channel}

theorem Arrives.mem
    {flight rest : List Message} {message : Message}
    (arrives : Arrives channel flight message rest) :
    message ∈ flight := by
  induction arrives with
  | here => exact List.mem_cons_self
  | later _ _ induction => exact List.mem_cons_of_mem _ induction

theorem Arrives.mem_of_mem_rest
    {flight rest : List Message} {message other : Message}
    (arrives : Arrives channel flight message rest)
    (member : other ∈ rest) : other ∈ flight := by
  induction arrives with
  | here => exact List.mem_cons_of_mem _ member
  | later _ _ induction =>
      rcases List.mem_cons.mp member with rfl | inside
      · exact List.mem_cons_self
      · exact List.mem_cons_of_mem _ (induction inside)

variable [DecidableEq Channel] (channel)

/-- What is in flight on one channel. -/
def queue (name : Channel) (flight : List Message) : List Message :=
  flight.filter fun message => channel message = name

/-- The first message of a channel, with the rest. -/
def arrive (name : Channel) :
    List Message → Option (Message × List Message)
  | [] => none
  | message :: flight =>
      if channel message = name then
        some (message, flight)
      else
        (arrive name flight).map fun result =>
          (result.1, message :: result.2)

@[simp]
theorem queue_nil (name : Channel) : queue channel name [] = [] :=
  rfl

@[simp]
theorem queue_append (name : Channel) (first second : List Message) :
    queue channel name (first ++ second) =
      queue channel name first ++ queue channel name second :=
  List.filter_append _ _

theorem queue_cons (name : Channel)
    (message : Message) (flight : List Message) :
    queue channel name (message :: flight) =
      if channel message = name then
        message :: queue channel name flight
      else
        queue channel name flight := by
  simp [queue, List.filter_cons]

variable {channel}

namespace Arrives

variable {flight rest : List Message} {message : Message}

/-- Its own channel loses its first message. -/
theorem queue_self (arrives : Arrives channel flight message rest) :
    queue channel (channel message) flight =
      message :: queue channel (channel message) rest := by
  induction arrives with
  | here => rw [queue_cons, if_pos rfl]
  | later apart _ induction =>
      rw [queue_cons, queue_cons, if_neg apart, if_neg apart, induction]

/-- The other channels are as they were. -/
theorem queue_of_ne
    (arrives : Arrives channel flight message rest)
    {name : Channel} (other : channel message ≠ name) :
    queue channel name flight = queue channel name rest := by
  induction arrives with
  | here => rw [queue_cons, if_neg other]
  | later _ _ induction =>
      rw [queue_cons, queue_cons, induction other]

end Arrives

/-- What is computed to arrive can arrive. -/
theorem arrives_of_arrive
    {name : Channel} {flight rest : List Message} {message : Message}
    (computed : arrive channel name flight = some (message, rest)) :
    Arrives channel flight message rest ∧ channel message = name := by
  induction flight generalizing rest with
  | nil => cases computed
  | cons head flight induction =>
      rw [arrive] at computed
      split_ifs at computed with same
      · cases computed
        exact ⟨.here _ _, same⟩
      · simp only [Option.map_eq_some_iff, Prod.mk.injEq] at computed
        rcases computed with ⟨⟨first, left⟩, found, rfl, rfl⟩
        rcases induction found with ⟨tail, named⟩
        refine ⟨.later ?_ tail, named⟩
        intro equal
        exact same (equal.trans named)

end NetworkingLab.Foundation.Channels
