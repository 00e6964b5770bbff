import Mathlib.Algebra.BigOperators.Group.List.Basic
import Mathlib.Algebra.Order.Ring.Nat
import Mathlib.Tactic.Common

/-!
# The packet queue

`PacketQueue` is a list of packets with the number of packets and of bytes in
it.  Every queue discipline of the simulator keeps its packets in such queues.
-/

namespace NetworkingLab.Simulator

/-- What queues read of a packet: `uid`, `saddr` and `size` of its headers. -/
structure Packet where
  uid : Int
  saddr : Int
  size : Nat
  deriving DecidableEq

/-- `PacketQueue`: from `head_` to `tail_`, `len_` and `bytes_`. -/
structure PacketQueue where
  packets : List Packet
  len : Int
  bytes : Int
  len_eq : len = packets.length
  bytes_eq : bytes = (packets.map Packet.size).sum

namespace PacketQueue

/-- `PacketQueue()`. -/
def start : PacketQueue :=
  ⟨[], 0, 0, rfl, rfl⟩

/-- `enque`. -/
def enque (p : Packet) (queue : PacketQueue) : PacketQueue where
  packets := queue.packets ++ [p]
  len := queue.len + 1
  bytes := queue.bytes + p.size
  len_eq := by simp [queue.len_eq]
  bytes_eq := by simp [queue.bytes_eq]

/-- `deque`. -/
def deque (queue : PacketQueue) : Option Packet × PacketQueue :=
  match packets : queue.packets with
  | [] => (none, queue)
  | p :: rest =>
      (some p,
        { packets := rest
          len := queue.len - 1
          bytes := queue.bytes - p.size
          len_eq := by simp [queue.len_eq, packets]
          bytes_eq := by simp [queue.bytes_eq, packets] })

/-- `lookup`. -/
def lookup (n : Nat) (queue : PacketQueue) : Option Packet :=
  queue.packets[n]?

theorem deque_cons
    {queue : PacketQueue} {p : Packet} {rest : List Packet}
    (packets : queue.packets = p :: rest) :
    ∃ next : PacketQueue,
      queue.deque = (some p, next) ∧ next.packets = rest := by
  rw [deque]
  split
  · next empty =>
      rw [packets] at empty
      cases empty
  · next p' rest' cons =>
      rw [packets] at cons
      cases cons
      exact ⟨_, rfl, rfl⟩

theorem deque_nil
    {queue : PacketQueue} (packets : queue.packets = []) :
    queue.deque = (none, queue) := by
  rw [deque]
  split
  · rfl
  · next p rest cons =>
      rw [packets] at cons
      cases cons

end PacketQueue

end NetworkingLab.Simulator
