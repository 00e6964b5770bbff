import NetworkingLab.Simulator.DrrRuns

/-!
# What the deficit round robin queue promises

In every run no packet is lost without being dropped, each bucket is first in,
first out, the counters are right and a packet is sent whenever there is one
(`drr_accounts`).  Two buckets that have packets all the time are served alike,
up to a quantum and the largest packets (`drr_fair`), and only a bucket with
more than its share of the limit loses packets (`drr_drops_share`).
-/

namespace NetworkingLab.Simulator

open NetworkingLab.Foundation
open NetworkingLab.Foundation.CircularList
open NetworkingLab.Foundation.DeficitRoundRobin

namespace DRR

/-! ## Counters and pointers -/

/--
The counters of the queue and of the buckets with packets.  With a limit and a
largest packet whose sum is an `int`, and a quantum likewise, all are.
-/
structure Counts (options : DRROptions) (bound : Int) (d : DRR) : Prop where
  flows : 0 ≤ d.flwcnt ∧ d.flwcnt ≤ d.pktcnt
  packets : d.pktcnt ≤ d.bytecnt
  bytes : d.bytecnt ≤ options.blimit
  bucket : ∀ b, (d.drr b).queue.packets ≠ [] →
    0 < (d.drr b).pkts ∧ (d.drr b).pkts ≤ (d.drr b).bcount ∧
      (d.drr b).bcount ≤ d.bytecnt ∧ 0 ≤ (d.drr b).deficitCounter ∧
      (d.drr b).deficitCounter < bound + options.quantum

/-- The buckets with packets form a ring behind the one whose turn it is. -/
structure Ringed (d : DRR) (ring : List Nat) : Prop where
  nodup : ring.Nodup
  mem : ∀ b, b ∈ ring ↔ (d.drr b).queue.packets ≠ []
  circular : Circular d.links ring
  curr : d.curr = ring.head?
  flwcnt : d.flwcnt = ring.length

section Between

variable {d : DRR} {s : Robin Nat Packet} {options : DRROptions}
    {bound : Int}

theorem Holds.ringed (holds : Holds options bound d s) :
    d.Ringed s.ring where
  nodup := holds.sound.nodup
  mem b := by
    rw [holds.sound.mem_iff, (holds.represents.books b).packets]
  circular := holds.represents.circular
  curr := holds.represents.curr
  flwcnt := holds.represents.flwcnt

/-- No packet is empty, so there are no more packets than bytes. -/
theorem Holds.count_le
    (holds : Holds options bound d s) (b : Nat) :
    (s.account b).weigh (fun _ => 1) ≤ (s.account b).weigh Packet.size :=
  Account.weigh_mono fun p member => (holds.placed b p member).1

theorem Holds.counts
    (holds : Holds options bound d s) (positive : 0 ≤ options.quantum) :
    Counts options bound d := by
  have represents := holds.represents
  refine ⟨?_, ?_, ?_, ?_⟩
  · have least : tally (fun _ => 1) s ≤
        tally (Account.weigh fun _ => 1) s := by
      apply tally_mono
      intro f member
      have packets := (holds.sound.good f member).packets
      simpa [Account.weigh] using
        Nat.succ_le_of_lt (List.length_pos_iff.mpr packets)
    have flows : tally (fun _ => 1) s = s.ring.length := by
      simp [tally]
    rw [represents.flwcnt, represents.pktcnt]
    omega
  · have most : tally (Account.weigh fun _ => 1) s ≤
        tally (Account.weigh Packet.size) s :=
      tally_mono fun f _ => holds.count_le f
    rw [represents.pktcnt, represents.bytecnt]
    exact_mod_cast most
  · rw [represents.bytecnt]
    exact holds.within
  · intro b packets
    have books := represents.books b
    rw [books.packets] at packets
    have member := holds.sound.mem_iff.mpr packets
    have good := holds.sound.good b member
    have length := List.length_pos_iff.mpr packets
    have count := holds.count_le b
    have part := le_tally (Account.weigh Packet.size) member
    have number : (s.account b).weigh (fun _ => 1) =
        (s.account b).queue.length := by
      simp [Account.weigh]
    have low := good.low
    have high : (s.account b).deficit < bound + options.quantum := by
      rcases good.high with high | ⟨_, _, high⟩ <;> omega
    rw [books.pkts, books.bcount, represents.bytecnt, books.deficit]
    omega

end Between

/-! ## What arrives and what leaves -/

/-- What has arrived has left or is still there, in order. -/
structure Accounts (options : DRROptions) (arrivals : List Packet)
    (departures : List Departure) (d : DRR) : Prop where
  queue : ∀ b, inBucket options b arrivals =
    inBucket options b (departures.map Departure.packet) ++
      (d.drr b).queue.packets
  bytes : d.bytecnt +
      (departures.map fun departure => departure.packet.size).sum =
    (arrivals.map Packet.size).sum
  packets : d.pktcnt + departures.length = arrivals.length

theorem Holds.accounts
    {options : DRROptions} {bound : Int} {d : DRR} {s : Robin Nat Packet}
    (holds : Holds options bound d s) {arrivals : List Packet}
    {departures : List Departure}
    (moves : Moves options DeficitRoundRobin.start arrivals departures s) :
    Accounts options arrivals departures d where
  queue b := by
    have here := moves.queue b
    rw [(holds.represents.books b).packets]
    exact here
  bytes := by
    have here := moves.tally Packet.size
    simp only [tally, DeficitRoundRobin.start, List.map_nil, List.sum_nil]
      at here
    rw [holds.represents.bytecnt]
    simp only [tally]
    omega
  packets := by
    have here := moves.tally fun _ => 1
    simp [tally, DeficitRoundRobin.start] at here
    rw [holds.represents.pktcnt]
    simp only [tally]
    omega

/--
A run has a result, and behind it each bucket has got its packets first in,
first out, nothing is lost without being dropped, the counters and pointers are
right, and the next `deque` sends a packet unless there is none.
-/
theorem drr_accounts
    (options : DRROptions) (workable : Workable options) (bound : Int)
    (positive : 0 < bound) (calls : List QueueCall)
    (fits : ∀ p, .enque p ∈ calls → Fits bound p) :
    ∃ departures final enough, ∀ rounds, enough ≤ rounds →
      run options rounds .start calls = some (departures, final) ∧
        Accounts options (calls.flatMap arrival) departures final ∧
        Counts options bound final ∧ (∃ ring, final.Ringed ring) ∧
        ∃ sent next, final.deque options rounds = some (sent, next) ∧
          (sent = none ↔ final.pktcnt = 0) := by
  have initial : Holds options bound .start DeficitRoundRobin.start :=
    .start workable.blimit
  rcases run_spec workable positive calls fits initial with
    ⟨departures, final, s, ⟨enough, ran⟩, holds, moves⟩
  rcases deque_spec holds workable.quantum with
    ⟨sent, next, t, unsent, operated⟩
  rcases operated.result with ⟨enough', result⟩
  have counts := holds.counts workable.quantum.le
  have empty : s.ring = [] ↔ final.pktcnt = 0 := by
    constructor
    · intro ring
      rw [holds.represents.pktcnt]
      simp [tally, ring]
    · intro nothing
      have flows := counts.flows
      have number := holds.represents.flwcnt
      exact List.eq_nil_of_length_eq_zero (by omega)
  refine ⟨departures, final, max enough enough', fun rounds more =>
    ⟨ran rounds (le_of_max_le_left more), holds.accounts moves, counts,
      ⟨s.ring, holds.ringed⟩, ?_⟩⟩
  rcases Option.map_eq_some_iff.mp
    (result rounds (le_of_max_le_right more)) with
    ⟨⟨answer, next'⟩, dequeued, same⟩
  refine ⟨answer, next', dequeued, ?_⟩
  rw [← empty, ← unsent, ← (Prod.mk.inj same).1]
  cases answer <;> simp

/-- Sixteen buckets, 1000 bytes, a quantum of 250. -/
def smallQueue : DRROptions :=
  ⟨16, 1000, 250, false⟩

theorem workable_smallQueue : Workable smallQueue := by
  constructor <;> decide

/-- Three packets from each of two addresses. -/
def sixPackets : List QueueCall :=
  [.enque ⟨0, 1, 200⟩, .enque ⟨1, 1, 100⟩, .enque ⟨2, 1, 100⟩,
    .enque ⟨3, 2, 150⟩, .enque ⟨4, 2, 150⟩, .enque ⟨5, 2, 50⟩]

theorem fits_sixPackets (p : Packet) (member : .enque p ∈ sixPackets) :
    Fits 200 p := by
  simp only [sixPackets, List.mem_cons, QueueCall.enque.injEq,
    List.not_mem_nil, or_false] at member
  rcases member with rfl | rfl | rfl | rfl | rfl | rfl <;>
    constructor <;> decide

theorem drr_accounts_sixPackets :
    ∃ departures final rounds,
      run smallQueue rounds .start sixPackets = some (departures, final) ∧
        final.bytecnt +
          (departures.map fun departure => departure.packet.size).sum =
            750 := by
  rcases drr_accounts smallQueue workable_smallQueue 200 (by decide) sixPackets
      fits_sixPackets with
    ⟨departures, final, enough, result⟩
  rcases result enough (le_refl _) with ⟨ran, accounts, _⟩
  exact ⟨departures, final, enough, ran, accounts.bytes⟩

/-! ## Fairness -/

/-- The quantum that a bucket is behind when its turn was cut off by drops. -/
def cutOff (quantum : Int) (d : DRR) (b : Nat) : Int :=
  if d.curr ≠ some b ∧ (d.drr b).turn = true then quantum else 0

theorem Represents.cutOff
    {d : DRR} {s : Robin Nat Packet} (represents : d.Represents s)
    (quantum : Int) (b : Nat) :
    DRR.cutOff quantum d b = lost quantum s b := by
  rw [DRR.cutOff, represents.curr, (represents.books b).turn]
  rfl

/--
Two buckets that have packets between all calls of a part of a run send the
same number of bytes in it, up to two largest packets, a quantum, and a quantum
for each of them whose turn had been cut off before.
-/
theorem drr_fair
    (options : DRROptions) (workable : Workable options) (bound : Int)
    (positive : 0 < bound) (rounds : Nat)
    (earlier later : List QueueCall)
    (fits : ∀ p, .enque p ∈ earlier ++ later → Fits bound p)
    (before departures : List Departure) (mid final : DRR)
    (reached : run options rounds .start earlier = some (before, mid))
    (ran : run options rounds mid later = some (departures, final))
    (i j : Nat) (different : i ≠ j)
    (first : backlogged options rounds i mid later = true)
    (second : backlogged options rounds j mid later = true) :
    (sentBytes options i departures : Int) -
        sentBytes options j departures <
      2 * bound + options.quantum + cutOff options.quantum mid i +
        cutOff options.quantum mid j := by
  have initial : Holds options bound .start DeficitRoundRobin.start :=
    .start workable.blimit
  rcases run_holds workable positive
    (fun p member => fits p (List.mem_append_left later member)) initial
    reached with
    ⟨s, holds⟩
  rcases run_fair workable positive
      (fun p member => fits p (List.mem_append_right earlier member)) holds
      ran different first second with
    ⟨t, holds', firstAfter, secondAfter, fair⟩
  have high := holds.sound.balance_lt workable.quantum.le different
    (mem_ring_of_backlogged first holds)
    (mem_ring_of_backlogged second holds)
  have low := holds'.sound.lt_balance workable.quantum.le firstAfter
    secondAfter
  have less := lost_le workable.quantum.le (fair.stale i (Or.inl rfl))
  have balance := fair.balance
  rw [holds.represents.cutOff, holds.represents.cutOff]
  omega

theorem drr_fair_sixPackets :
    ∃ before departures mid final,
      run smallQueue 8 .start sixPackets = some (before, mid) ∧
        run smallQueue 8 mid [.deque, .deque] =
          some (departures, final) ∧
        (sentBytes smallQueue 1 departures : Int) -
          sentBytes smallQueue 2 departures < 2 * 200 + 250 :=
  ⟨_, _, _, _, rfl, rfl,
    drr_fair smallQueue workable_smallQueue 200 (by decide) 8 sixPackets
      [.deque, .deque] (by simpa using fits_sixPackets) _ _ _ _ rfl rfl 1 2
      (by decide) (by decide) (by decide)⟩

/-! ## Drops -/

/--
A packet is only dropped from a bucket that has more than its share of the
limit, which is the limit divided by the number of buckets with packets, the
new packet counted in.
-/
theorem drr_drops_share
    (options : DRROptions) (workable : Workable options) (bound : Int)
    (positive : 0 < bound) (rounds : Nat) (calls : List QueueCall)
    (p : Packet)
    (fits : ∀ q, .enque q ∈ calls ++ [.enque p] → Fits bound q)
    (before : List Departure) (d : DRR)
    (reached : run options rounds .start calls = some (before, d))
    (dropped : List Packet) (next : DRR)
    (given : d.enque options rounds p = some (dropped, next)) :
    ∃ which filled,
      bucket options p = some which ∧ d.accept which p = some filled ∧
        ∀ q ∈ dropped, ∃ b, bucket options q = some b ∧
          options.blimit < filled.flwcnt * (filled.drr b).bcount := by
  have initial : Holds options bound .start DeficitRoundRobin.start :=
    .start workable.blimit
  rcases run_holds workable positive
    (fun q member => fits q (List.mem_append_left _ member)) initial
    reached with
    ⟨s, holds⟩
  rcases enque_spec holds workable.buckets workable.blimit positive
      (fits p (List.mem_append_right calls List.mem_cons_self)) with
    ⟨which, filled, log, next', t, home, accepted, represents, sheds, operated⟩
  refine ⟨which, filled, home, accepted, fun q member => ?_⟩
  have result := operated.unique
    (Option.map_eq_some_iff.mpr ⟨_, given, rfl⟩)
  have same : dropped = log.map Prod.snd :=
    List.map_injective_iff.mpr (fun _ _ => Departure.dropped.inj)
      (Prod.mk.inj result).1
  rw [same] at member
  rcases List.mem_map.mp member with ⟨⟨b, q'⟩, entry, rfl⟩
  have fit := fits p (List.mem_append_right calls List.mem_cons_self)
  have sound := holds.sound.arrive positive which fit.small
  have placed := holds.placed.arrive fit.nonempty home
  have share := sheds.above_share sound (b, q') entry
  refine ⟨b, packetsOf_placed (sheds.leaves sound) placed _ entry, ?_⟩
  rw [represents.flwcnt, (represents.books b).bcount]
  exact share

theorem drr_drops_share_sixPackets :
    ∃ before d next which filled b,
      run smallQueue 8 .start sixPackets = some (before, d) ∧
        d.enque smallQueue 8 ⟨6, 1, 400⟩ =
          some ([⟨0, 1, 200⟩], next) ∧
        d.accept which ⟨6, 1, 400⟩ = some filled ∧
        bucket smallQueue ⟨0, 1, 200⟩ = some b ∧
          1000 < filled.flwcnt * (filled.drr b).bcount := by
  rcases drr_drops_share smallQueue workable_smallQueue 400 (by decide) 8
      sixPackets ⟨6, 1, 400⟩ (by
        intro q member
        rcases List.mem_append.mp member with old | new
        · have fit := fits_sixPackets q old
          have small := fit.small
          exact ⟨fit.nonempty, by omega, fit.address, fit.near⟩
        · cases List.mem_singleton.mp new
          constructor <;> decide) _ _ rfl [⟨0, 1, 200⟩] _ rfl with
    ⟨which, filled, _, accepted, share⟩
  rcases share ⟨0, 1, 200⟩ List.mem_cons_self with ⟨b, home, more⟩
  exact ⟨_, _, _, which, filled, b, rfl, rfl, accepted, home, more⟩

end DRR

end NetworkingLab.Simulator
