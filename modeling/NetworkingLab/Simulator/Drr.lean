import Mathlib.Data.Int.Bitwise
import Mathlib.Logic.Function.Basic
import NetworkingLab.Simulator.PacketQueue

/-!
# The deficit round robin queue

`DRR` hashes packets into buckets.  Each bucket has a queue, counters, a
deficit, and pointers by which the buckets with packets form a circular list;
`curr` is the bucket whose turn it is.  When too many bytes have been queued,
the longest buckets drop packets.

Buckets are numbers, a null pointer is `none`, and a function that would follow
one, or would leave the array of buckets, has no result.  The two loops are
given a number of rounds and have no result when it does not do.  The warning
about addresses that share a bucket is left out, with the field `src` that it
needs.
-/

namespace NetworkingLab.Simulator

/-- `PacketDRR`. -/
structure PacketDRR where
  queue : PacketQueue
  pkts : Int
  bcount : Int
  prev : Option Nat
  next : Option Nat
  deficitCounter : Int
  turn : Bool

/-- `PacketDRR()`. -/
def PacketDRR.start : PacketDRR :=
  ⟨.start, 0, 0, none, none, 0, false⟩

/-- The branch of `deque` for a turn that begins. -/
def PacketDRR.grant (quantum : Int) (q : PacketDRR) : PacketDRR :=
  { q with
    deficitCounter := q.deficitCounter + quantum
    turn := true }

/-- What a script sets: `buckets_`, `blimit_`, `quantum_` and `mask_`. -/
structure DRROptions where
  buckets : Int
  blimit : Int
  quantum : Int
  mask : Bool

/-- `DRR`. -/
structure DRR where
  bytecnt : Int
  pktcnt : Int
  flwcnt : Int
  curr : Option Nat
  drr : Nat → PacketDRR

namespace DRR

/-- `DRR()`, with the array of buckets that the first packet allocates. -/
def start : DRR :=
  ⟨0, 0, 0, none, fun _ => .start⟩

/-- Write the fields of a bucket. -/
def put (b : Nat) (change : PacketDRR → PacketDRR) (d : DRR) : DRR :=
  { d with drr := Function.update d.drr b (change (d.drr b)) }

/-- `activate`, called with `curr`; its result is assigned to `curr`. -/
def activate (this : Nat) (d : DRR) : Option DRR :=
  match d.curr with
  | some head =>
      match (d.drr head).prev with
      | none => none
      | some last =>
          let d := d.put this fun q =>
            { q with prev := some last, next := some head }
          let d := d.put last fun q => { q with next := some this }
          some (d.put head fun q => { q with prev := some this })
  | none =>
      some { d.put this fun q =>
          { q with prev := some this, next := some this } with
        curr := some this }

/-- The two assignments of `idle` that take a bucket out of the list. -/
def unlink (this : Nat) (d : DRR) : Option DRR :=
  match (d.drr this).next, (d.drr this).prev with
  | some next, some prev =>
      let d := d.put next fun q => { q with prev := some prev }
      some (d.put prev fun q => { q with next := some next })
  | _, _ => none

/-- `idle`, called with `curr`; its result is assigned to `curr`. -/
def idle (this : Nat) (d : DRR) : Option DRR :=
  if d.curr = some this then
    if (d.drr this).next = some this then
      some { d with curr := none }
    else
      (d.unlink this).map fun d =>
        { d with curr := (d.drr this).next }
  else
    d.unlink this

/-- The loop of `getMaxflow`. -/
def getMaxflowFrom (d : DRR) : Nat → Option Nat → Nat → Option Nat
  | 0, _, maxflow => some maxflow
  | _ + 1, none, _ => none
  | i + 1, some tmp, maxflow =>
      d.getMaxflowFrom i (d.drr tmp).next
        (if (d.drr maxflow).bcount < (d.drr tmp).bcount then tmp
        else maxflow)

/-- `getMaxflow`, called with `curr`. -/
def getMaxflow (d : DRR) : Option Nat :=
  match d.curr with
  | none => none
  | some curr => d.getMaxflowFrom d.flwcnt.toNat (some curr) curr

/-- `hash`. -/
def hash (mask : Bool) (saddr : Int) : Int :=
  let i := if mask then Int.land saddr 0xfff0 else saddr
  Int.tmod (i + (i >>> (8 : Nat)) + ~~~(i >>> (4 : Nat)))
    ((2 <<< 23) - 1) + 1

/-- The bucket of a packet, if it is in the array. -/
def bucket (options : DRROptions) (p : Packet) : Option Nat :=
  let which := Int.tmod (hash options.mask p.saddr) options.buckets
  if 0 ≤ which ∧ which < options.buckets then some which.toNat else none

/-- One round of the loop of `enque` that drops packets. -/
def dropFrom (remq : Nat) (d : DRR) : Option (Packet × DRR) :=
  match (d.drr remq).queue.deque with
  | (none, _) => none
  | (some p, queue) =>
      let d := d.put remq fun q =>
        { q with queue, bcount := q.bcount - p.size, pkts := q.pkts - 1 }
      let d :=
        { d with bytecnt := d.bytecnt - p.size, pktcnt := d.pktcnt - 1 }
      if (d.drr remq).pkts = 0 then
        (d.idle remq).map fun d => (p, { d with flwcnt := d.flwcnt - 1 })
      else
        some (p, d)

/-- The loop of `enque` that drops packets. -/
def dropAll (blimit : Int) : Nat → DRR → Option (List Packet × DRR)
  | 0, _ => none
  | rounds + 1, d =>
      if blimit < d.bytecnt then
        match d.getMaxflow with
        | none => none
        | some remq =>
            match d.dropFrom remq with
            | none => none
            | some (p, d) =>
                (dropAll blimit rounds d).map fun later =>
                  (p :: later.1, later.2)
      else
        some ([], d)

/-- The part of `enque` that puts a packet into its bucket. -/
def accept (which : Nat) (p : Packet) (d : DRR) : Option DRR :=
  let d := d.put which fun q =>
    { q with
      queue := q.queue.enque p
      pkts := q.pkts + 1
      bcount := q.bcount + p.size }
  let d :=
    { d with bytecnt := d.bytecnt + p.size, pktcnt := d.pktcnt + 1 }
  if (d.drr which).pkts = 1 then
    (d.activate which).map fun d =>
      { d.put which fun q => { q with deficitCounter := 0 } with
        flwcnt := d.flwcnt + 1 }
  else
    some d

/-- `enque`, with the packets that it drops. -/
def enque (options : DRROptions) (rounds : Nat) (p : Packet) (d : DRR) :
    Option (List Packet × DRR) :=
  match bucket options p with
  | none => none
  | some which =>
      match d.accept which p with
      | none => none
      | some d => dropAll options.blimit rounds d

/-- The branch of `deque` that sends a packet. -/
def send (curr : Nat) (d : DRR) : Option (Packet × DRR) :=
  match (d.drr curr).queue.deque with
  | (none, _) => none
  | (some p, queue) =>
      let d := d.put curr fun q =>
        { q with
          queue
          deficitCounter := q.deficitCounter - p.size
          bcount := q.bcount - p.size
          pkts := q.pkts - 1 }
      let d :=
        { d with bytecnt := d.bytecnt - p.size, pktcnt := d.pktcnt - 1 }
      if (d.drr curr).pkts = 0 then
        let d := d.put curr fun q =>
          { q with turn := false, deficitCounter := 0 }
        ({ d with flwcnt := d.flwcnt - 1 }.idle curr).map fun d => (p, d)
      else
        some (p, d)

/-- One round of the loop of `deque`. -/
def turn (quantum : Int) (d : DRR) : Option (Option Packet × DRR) :=
  match d.curr with
  | none => none
  | some curr =>
      let d :=
        if (d.drr curr).turn then
          d
        else
          d.put curr (PacketDRR.grant quantum)
      match (d.drr curr).queue.lookup 0 with
      | none => none
      | some pkt =>
          if pkt.size ≤ (d.drr curr).deficitCounter then
            (d.send curr).map fun sent => (some sent.1, sent.2)
          else
            let d := d.put curr fun q => { q with turn := false }
            some (none, { d with curr := (d.drr curr).next })

/-- The loop of `deque`. -/
def dequeLoop (quantum : Int) : Nat → DRR → Option (Packet × DRR)
  | 0, _ => none
  | rounds + 1, d =>
      match d.turn quantum with
      | none => none
      | some (some pkt, d) => some (pkt, d)
      | some (none, d) => dequeLoop quantum rounds d

/-- `deque`. -/
def deque (options : DRROptions) (rounds : Nat) (d : DRR) :
    Option (Option Packet × DRR) :=
  if d.bytecnt = 0 then
    some (none, d)
  else
    (dequeLoop options.quantum rounds d).map fun sent =>
      (some sent.1, sent.2)

end DRR

end NetworkingLab.Simulator
