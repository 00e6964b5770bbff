import Mathlib.Algebra.BigOperators.Intervals
import NetworkingLab.Foundation.RingBuffer

/-!
# The receive window of a TCP sink

`Acker` keeps the sequence numbers of the packets that have arrived.  The
packets from `next_` on are marked in the ring `seen_`, with the bytes of each;
a packet too far ahead makes the ring grow, and the packet that was missing
moves `next_` over everything marked behind it.

What the window stands for is the list of arrivals since the last `reset`
(`recorded`), in whatever order and however often they came.  `Window` relates
the two: `next_` is the least number that has not arrived, and the ring holds
the size of the last copy of each packet from there on.
-/

namespace NetworkingLab.Simulator

open NetworkingLab.Foundation.RingBuffer

/-- A packet as the window sees it. -/
structure Arrival where
  seq : Int
  numBytes : Int

/-- `class Acker`, with `seen_` and `wndmask_` as one ring. -/
structure Acker (Time : Type*) where
  next : Nat
  maxseen : Nat
  seen : Slots Int
  isDup : Bool
  ecnUnacked : Bool
  tsToEcho : Time
  lastAckSent : Int

namespace Acker

variable {Time : Type*}

/-- `Acker()`; `MWS` is 64. -/
def start [Zero Time] : Acker Time :=
  ⟨0, 0, Slots.blank 6 0, false, false, 0, 0⟩

/-- `Seqno`. -/
def seqno (acker : Acker Time) : Int :=
  acker.next - 1

/-- `reset`. -/
def reset (acker : Acker Time) : Acker Time :=
  { acker with
    next := 0
    maxseen := 0
    seen := Slots.blank acker.seen.bits 0 }

/--
`resize_buffers((wndmask_ + 1) * 2)`; the cells from `next_` to
`maxseen_ + 1` are copied.
-/
def resizeBuffers (acker : Acker Time) : Acker Time :=
  { acker with
    seen := (Slots.blank (acker.seen.bits + 1) 0).writeAll acker.seen.read
      (List.range' acker.next (acker.maxseen + 2 - acker.next)) }

theorem capacity_resizeBuffers (acker : Acker Time) :
    acker.resizeBuffers.seen.capacity = 2 * acker.seen.capacity := by
  simp only [resizeBuffers, Slots.capacity_writeAll]
  exact Nat.pow_succ'

/-- `while (seq + 1 - next_ >= wndmask_)`. -/
def grow (acker : Acker Time) (seq : Int) : Acker Time :=
  if (acker.seen.mask : Int) ≤ seq + 1 - acker.next then
    acker.resizeBuffers.grow seq
  else
    acker
  termination_by (seq + 2 - acker.next).toNat + 1 - acker.seen.capacity
  decreasing_by
    rename_i short
    have positive := acker.seen.capacity_pos
    rw [capacity_resizeBuffers]
    simp only [resizeBuffers, Slots.mask] at short ⊢
    omega

theorem grow_of_room
    {acker : Acker Time} {seq : Int}
    (room : seq + 1 - acker.next < acker.seen.mask) :
    acker.grow seq = acker := by
  rw [grow, if_neg (not_le.mpr room)]

/-- A packet above `maxseen_`. -/
def stretch (acker : Acker Time) (seq : Nat) (numBytes : Int) :
    Acker Time :=
  let cleared := acker.seen.writeAll (fun _ => 0)
    (List.range' (acker.maxseen + 1) (seq - (acker.maxseen + 1)))
  { acker with
    maxseen := seq
    seen := (cleared.write seq numBytes).write (seq + 1) 0 }

/--
`while (seen_[next & wndmask_])`, with the bytes that can be delivered; no
result when the loop is still running after so many rounds.
-/
def collect (seen : Slots Int) : Nat → Nat → Int → Option (Nat × Int)
  | 0, _, _ => none
  | rounds + 1, next, numToDeliver =>
      if seen.read next ≠ 0 then
        collect seen rounds (next + 1) (numToDeliver + seen.read next)
      else
        some (next, numToDeliver)

/-- `update`, with what it returns. -/
def update (acker : Acker Time) (packet : Arrival) :
    Option (Acker Time × Int) :=
  let grown := { acker with isDup := false }.grow packet.seq
  let justMarked : Bool := (grown.maxseen : Int) < packet.seq
  let ahead :=
    if justMarked then
      grown.stretch packet.seq.toNat packet.numBytes
    else
      grown
  if packet.seq < ahead.next then
    some ({ ahead with isDup := true }, 0)
  else if packet.seq ≤ ahead.maxseen then
    let marked := ahead.seen.write packet.seq.toNat packet.numBytes
    (collect marked (ahead.maxseen + 2 - ahead.next) ahead.next 0).map
      fun result =>
        ({ ahead with
            next := result.1
            seen := marked
            isDup :=
              !justMarked && ahead.seen.read packet.seq.toNat != 0 },
          result.2)
  else
    some (ahead, 0)

/-- `update_ts`. -/
def updateTs [LinearOrder Time] (acker : Acker Time) (seqno : Int)
    (ts : Time) (rfc1323 : Bool) : Acker Time :=
  if rfc1323 && seqno == acker.lastAckSent + 1 then
    { acker with tsToEcho := ts }
  else if acker.tsToEcho ≤ ts ∧ seqno ≤ acker.lastAckSent + 1 then
    { acker with tsToEcho := ts }
  else
    acker

end Acker

end NetworkingLab.Simulator
