import NetworkingLab.Foundation.RoundRobinFairness
import NetworkingLab.Simulator.DrrRing

/-!
# Runs of the deficit round robin queue

A run enqueues and dequeues packets in any order.  Between two calls the code
represents a sound state of deficit round robin (`Holds`), and each call takes
it to another (`enque_spec`, `deque_spec`).  The loops of a call end, so with
enough rounds every run has a result (`run_spec`).

A bucket that was emptied by a drop during its turn keeps the mark of the turn,
and is passed over once when it comes back.
-/

namespace NetworkingLab.Simulator

open NetworkingLab.Foundation
open NetworkingLab.Foundation.CircularList
open NetworkingLab.Foundation.DeficitRoundRobin

/-- What is done to the queue. -/
inductive QueueCall where
  | enque (p : Packet)
  | deque

/-- How a packet leaves the queue. -/
inductive Departure where
  | dropped (p : Packet)
  | sent (p : Packet)

def Departure.packet : Departure → Packet
  | .dropped p => p
  | .sent p => p

namespace DRR

/-- One call, with the packets that leave. -/
def operate (options : DRROptions) (rounds : Nat) (d : DRR) :
    QueueCall → Option (List Departure × DRR)
  | .enque p =>
      (d.enque options rounds p).map fun result =>
        (result.1.map .dropped, result.2)
  | .deque =>
      (d.deque options rounds).map fun result =>
        (result.1.toList.map .sent, result.2)

/-- One call after another. -/
def run (options : DRROptions) (rounds : Nat) :
    DRR → List QueueCall → Option (List Departure × DRR)
  | d, [] => some ([], d)
  | d, call :: calls =>
      match d.operate options rounds call with
      | none => none
      | some (first, next) =>
          (run options rounds next calls).map fun rest =>
            (first ++ rest.1, rest.2)

/-- Packets are where they belong, and none is empty. -/
def Placed (options : DRROptions) (s : Robin Nat Packet) : Prop :=
  ∀ b, ∀ p ∈ (s.account b).queue,
    0 < p.size ∧ bucket options p = some b

variable {d : DRR} {s : Robin Nat Packet} {options : DRROptions}
    {bound : Int}

/-- The masked part of an address is not negative. -/
theorem land_nonneg (address : Int) : 0 ≤ Int.land address 0xfff0 := by
  cases address with
  | ofNat n => exact Int.natCast_nonneg _
  | negSucc n => exact Int.natCast_nonneg _

theorem complement_eq (i : Int) : ~~~i = -i - 1 := by
  cases i with
  | ofNat n =>
      change Int.negSucc n = -(n : Int) - 1
      rw [Int.negSucc_eq]
      omega
  | negSucc n =>
      change (n : Int) = _
      rw [Int.negSucc_eq]
      omega

theorem hash_nonneg (mask : Bool) {saddr : Int} (address : 0 ≤ saddr) :
    0 ≤ hash mask saddr := by
  have nonneg : 0 ≤ if mask then Int.land saddr 0xfff0 else saddr := by
    split
    · exact land_nonneg saddr
    · exact address
  rw [hash]
  generalize (if mask then Int.land saddr 0xfff0 else saddr) = i at nonneg
  have eighth := Int.shiftRight_eq_div_pow i 8
  have fourth := Int.shiftRight_eq_div_pow i 4
  rw [complement_eq]
  generalize sum : i + i >>> (8 : Nat) + (-(i >>> (4 : Nat)) - 1) = x
  have low : -1 ≤ x := by
    omega
  rcases Int.lt_or_le x 0 with negative | positive
  · obtain rfl : x = -1 := by omega
    decide
  · have rest := Int.tmod_nonneg ((2 <<< 23) - 1) positive
    omega

/-- Addresses that are not negative have a bucket. -/
theorem bucket_of_nonneg
    (buckets : 0 < options.buckets) {p : Packet} (address : 0 ≤ p.saddr) :
    ∃ b, bucket options p = some b := by
  have low := Int.tmod_nonneg options.buckets
    (hash_nonneg options.mask address)
  have high := Int.tmod_lt_of_pos (hash options.mask p.saddr) buckets
  exact ⟨_, if_pos ⟨low, high⟩⟩

/-- Run lemma: the loop of `enque` drops what is too much. -/
theorem dropAll_spec
    (represents : d.Represents s)
    (sound : Sound Packet.size options.quantum bound s) {blimit : Int}
    (limit : 0 ≤ blimit) {rounds : Nat}
    (enough : tally (Account.weigh fun _ => 1) s < rounds) :
    ∃ log next t, dropAll blimit rounds d = some (log.map Prod.snd, next) ∧
      Sheds Packet.size blimit s log t ∧ next.Represents t := by
  induction rounds generalizing d s with
  | zero => exact absurd enough (Nat.not_lt_zero _)
  | succ rounds induction =>
      rw [dropAll]
      by_cases above : blimit < d.bytecnt
      · rw [if_pos above]
        rw [represents.bytecnt] at above
        have packets : s.ring ≠ [] := by
          intro empty
          simp only [tally, empty, List.map_nil, List.sum_nil] at above
          omega
        rcases represents.getMaxflow packets with ⟨f, member, found, longest⟩
        rcases sound.discard member with ⟨p, t, discard⟩
        rcases represents.dropFrom sound.nodup member discard with
          ⟨middle, dropped, after⟩
        have fewer := discard.tally_eq (fun _ => 1) sound member
        rcases induction after (discard.sound sound) (by omega) with
          ⟨log, next, final, rest, sheds, represents'⟩
        refine ⟨(f, p) :: log, next, final, ?_,
          .drop above member longest discard sheds, represents'⟩
        simp only [found, dropped, rest, Option.map_some, List.map_cons]
      · rw [if_neg above]
        rw [represents.bytecnt] at above
        exact ⟨[], d, s, rfl, .done (not_lt.mp above), represents⟩

/-- More rounds do not change what the loop of `enque` does. -/
theorem dropAll_mono
    {blimit : Int} {rounds : Nat} {result : List Packet × DRR}
    (given : dropAll blimit rounds d = some result) {more : Nat}
    (enough : rounds ≤ more) : dropAll blimit more d = some result := by
  induction rounds generalizing d result more with
  | zero => cases given
  | succ rounds induction =>
      obtain ⟨more, rfl⟩ : ∃ less, more = less + 1 := ⟨more - 1, by omega⟩
      rw [dropAll] at given ⊢
      split at given
      · next above =>
          rw [if_pos above]
          cases found : d.getMaxflow with
          | none =>
              rw [found] at given
              cases given
          | some remq =>
              rw [found] at given
              dsimp only at given ⊢
              cases dropped : d.dropFrom remq with
              | none =>
                  rw [dropped] at given
                  cases given
              | some first =>
                  rw [dropped] at given
                  rcases Option.map_eq_some_iff.mp given with
                    ⟨later, rest, rfl⟩
                  dsimp only
                  rw [induction rest (by omega)]
                  rfl
      · next within =>
          rw [if_neg within]
          exact given

/-- Run lemma: the loop of `deque` follows the visits. -/
theorem dequeLoop_spec
    {sent : Nat × Packet} {t : Robin Nat Packet}
    (serves : Serves Packet.size options.quantum s sent t)
    (represents : d.Represents s) (positive : 0 ≤ options.quantum)
    (sound : Sound Packet.size options.quantum bound s) :
    ∃ rounds next,
      dequeLoop options.quantum rounds d = some (sent.2, next) ∧
      next.Represents t := by
  induction serves generalizing d with
  | @now s t sent visit =>
      rcases represents.turn sound.nodup visit with ⟨next, turned, after⟩
      refine ⟨1, next, ?_, after⟩
      rw [dequeLoop, turned]
      rfl
  | @later s middle t sent visit serves induction =>
      rcases represents.turn sound.nodup visit with ⟨next, turned, after⟩
      rcases induction after (visit.sound positive sound) with
        ⟨rounds, final, served, represents'⟩
      refine ⟨rounds + 1, final, ?_, represents'⟩
      rw [dequeLoop, turned]
      exact served

/-- More rounds do not change what the loop of `deque` does. -/
theorem dequeLoop_mono
    {quantum : Int} {rounds : Nat} {result : Packet × DRR}
    (given : dequeLoop quantum rounds d = some result) {more : Nat}
    (enough : rounds ≤ more) :
    dequeLoop quantum more d = some result := by
  induction rounds generalizing d more with
  | zero => cases given
  | succ rounds induction =>
      obtain ⟨more, rfl⟩ : ∃ less, more = less + 1 := ⟨more - 1, by omega⟩
      rw [dequeLoop] at given ⊢
      cases turned : d.turn quantum with
      | none =>
          rw [turned] at given
          cases given
      | some answer =>
          rw [turned] at given
          rcases answer with ⟨sent, next⟩
          cases sent with
          | some p => exact given
          | none => exact induction given (by omega)

/-! ## One call -/

/-- The packets of a bucket in a list of packets. -/
def inBucket (options : DRROptions) (b : Nat) (ps : List Packet) :
    List Packet :=
  ps.filter fun p => bucket options p = some b

/-- The bytes that a bucket has sent. -/
def sentBytes (options : DRROptions) (b : Nat)
    (departures : List Departure) : Nat :=
  ((inBucket options b (departures.filterMap fun
    | .dropped _ => none
    | .sent p => some p)).map Packet.size).sum

/-- The packets that a call brings. -/
def arrival : QueueCall → List Packet
  | .enque p => [p]
  | .deque => []

/-- What holds of the queue between two calls. -/
structure Holds (options : DRROptions) (bound : Int) (d : DRR)
    (s : Robin Nat Packet) : Prop where
  represents : d.Represents s
  sound : Sound Packet.size options.quantum bound s
  placed : Placed options s
  within : tally (Account.weigh Packet.size) s ≤ options.blimit

/-- A packet with a size, from an address with which `hash` can compute. -/
structure Fits (bound : Int) (p : Packet) : Prop where
  nonempty : 0 < p.size
  small : p.size ≤ bound
  address : 0 ≤ p.saddr
  near : p.saddr < 2 ^ 30

/-- What one call, or a run of them, does. -/
structure Moves (options : DRROptions) (s : Robin Nat Packet)
    (arrivals : List Packet) (departures : List Departure)
    (t : Robin Nat Packet) : Prop where
  queue : ∀ b, (s.account b).queue ++ inBucket options b arrivals =
    inBucket options b (departures.map Departure.packet) ++
      (t.account b).queue
  tally : ∀ weight : Packet → Nat,
    tally (Account.weigh weight) s + (arrivals.map weight).sum =
      (departures.map fun departure => weight departure.packet).sum +
        tally (Account.weigh weight) t

/-- What happens to two buckets that have packets before and after. -/
structure Fair (options : DRROptions) (s : Robin Nat Packet)
    (departures : List Departure) (t : Robin Nat Packet) (i j : Nat) :
    Prop where
  balance : balance options.quantum i j t +
      sentBytes options i departures - sentBytes options j departures =
    balance options.quantum i j s
  stale : ∀ k, k = i ∨ k = j → Stale t k → Stale s k

/-- The packets that leave are those of their buckets. -/
theorem packetsOf_placed
    {t : Robin Nat Packet} {log sent : List (Nat × Packet)}
    (leaves : Leaves Packet.size options.quantum bound s log sent t)
    (placed : Placed options s) :
    ∀ entry ∈ log, bucket options entry.2 = some entry.1 := by
  rintro ⟨b, p⟩ member
  have inside : p ∈ packetsOf b log := by
    simp only [packetsOf, List.mem_map, List.mem_filter]
    exact ⟨(b, p), ⟨member, by simp⟩, rfl⟩
  exact (placed b p (by
    rw [leaves.queue b]
    exact List.mem_append_left _ inside)).2

theorem packetsOf_eq
    {log : List (Nat × Packet)}
    (placed : ∀ entry ∈ log, bucket options entry.2 = some entry.1)
    (b : Nat) :
    packetsOf b log = inBucket options b (log.map Prod.snd) := by
  induction log with
  | nil => rfl
  | cons entry log induction =>
      have here := placed entry List.mem_cons_self
      have rest := induction fun later member =>
        placed later (List.mem_cons_of_mem entry member)
      rcases entry with ⟨f, p⟩
      rw [packetsOf_cons, rest]
      by_cases same : f = b
      · subst same
        simp [inBucket, show bucket options p = some f from here]
      · simp [inBucket, show bucket options p = some f from here, same]

theorem Placed.leaves
    {t : Robin Nat Packet} {log sent : List (Nat × Packet)}
    (placed : Placed options s)
    (leaves : Leaves Packet.size options.quantum bound s log sent t) :
    Placed options t := by
  intro b p member
  exact placed b p (by
    rw [leaves.queue b]
    exact List.mem_append_right _ member)

theorem Placed.arrive
    (placed : Placed options s) {f : Nat} {p : Packet}
    (nonempty : 0 < p.size) (home : bucket options p = some f) :
    Placed options (arrive f p s) := by
  intro b q member
  rw [arrive_queue, packetsOf_cons, packetsOf_nil] at member
  rcases List.mem_append.mp member with before | new
  · exact placed b q before
  · split at new
    · next same =>
        rw [List.mem_singleton.mp new, ← same]
        exact ⟨nonempty, home⟩
    · exact absurd new List.not_mem_nil

/-- There are bytes if there are packets. -/
theorem Placed.bytes_pos
    (placed : Placed options s)
    (sound : Sound Packet.size options.quantum bound s)
    (packets : s.ring ≠ []) :
    0 < tally (Account.weigh Packet.size) s := by
  rcases List.exists_cons_of_ne_nil packets with ⟨b, others, ring⟩
  rcases List.exists_cons_of_ne_nil
    (sound.good b (ring ▸ List.mem_cons_self)).packets with
    ⟨p, rest, queue⟩
  have positive := (placed b p (queue ▸ List.mem_cons_self)).1
  simp only [tally, ring, List.map_cons, List.sum_cons, Account.weigh,
    queue]
  omega

theorem sentBytes_dropped (b : Nat) (ps : List Packet) :
    sentBytes options b (ps.map .dropped) = 0 := by
  simp [sentBytes, inBucket, List.filterMap_map]

theorem sentBytes_sent (b : Nat) (p : Packet) :
    sentBytes options b [.sent p] =
      ((inBucket options b [p]).map Packet.size).sum :=
  rfl

/-- What a call leads to, for enough rounds of its loop. -/
structure Operated (options : DRROptions) (bound : Int) (d : DRR)
    (s : Robin Nat Packet) (call : QueueCall)
    (departures : List Departure) (next : DRR) (t : Robin Nat Packet) :
    Prop where
  result : ∃ enough, ∀ rounds, enough ≤ rounds →
    d.operate options rounds call = some (departures, next)
  holds : Holds options bound next t
  moves : Moves options s (arrival call) departures t
  fair : ∀ i j, i ≠ j → i ∈ s.ring → j ∈ s.ring → i ∈ t.ring →
    j ∈ t.ring → Fair options s departures t i j

/-- Step lemma for `enque`. -/
theorem enque_spec
    (holds : Holds options bound d s) (buckets : 0 < options.buckets)
    (limit : 0 ≤ options.blimit) (positive : 0 < bound) {p : Packet}
    (fits : Fits bound p) :
    ∃ b filled log next t, bucket options p = some b ∧
      d.accept b p = some filled ∧ filled.Represents (arrive b p s) ∧
      Sheds Packet.size options.blimit (arrive b p s) log t ∧
      Operated options bound d s (.enque p)
        ((log.map Prod.snd).map .dropped) next t := by
  rcases bucket_of_nonneg buckets fits.address with ⟨b, home⟩
  rcases holds.represents.accept holds.sound b p with
    ⟨filled, accepted, represents⟩
  have sound := holds.sound.arrive positive b fits.small
  have placed := holds.placed.arrive fits.nonempty home
  rcases dropAll_spec represents sound limit (Nat.lt_succ_self _) with
    ⟨log, next, t, dropped, sheds, represents'⟩
  have leaves := sheds.leaves sound
  refine ⟨b, filled, log, next, t, home, accepted, represents, sheds,
    ⟨⟨tally (Account.weigh fun _ => 1) (arrive b p s) + 1, ?_⟩,
      ?_, ?_, ?_⟩⟩
  · intro rounds enough
    simp only [operate, enque, home, accepted,
      dropAll_mono dropped enough, Option.map_some]
  · exact ⟨represents', leaves.sound, placed.leaves leaves, sheds.within⟩
  · refine ⟨fun c => ?_, fun weight => ?_⟩
    · have before := leaves.queue c
      have alone : packetsOf c [(b, p)] = inBucket options c [p] :=
        packetsOf_eq (by simpa using home) c
      rw [arrive_queue, packetsOf_eq (packetsOf_placed leaves placed),
        alone] at before
      simpa [Function.comp_def, Departure.packet, arrival] using before
    · have before := leaves.tally weight
      rw [tally_arrive weight holds.sound] at before
      simpa [Function.comp_def, Departure.packet, arrival] using before
  · intro i j different first second firstAfter secondAfter
    refine ⟨?_, ?_⟩
    · have after := leaves.balance i j different firstAfter secondAfter
      rw [arrive_balance holds.sound b p first second] at after
      rw [sentBytes_dropped, sentBytes_dropped]
      simpa [bytesOf] using after
    · intro k which stale
      have before : k ∈ s.ring := by
        rcases which with rfl | rfl
        · exact first
        · exact second
      have after : k ∈ t.ring := by
        rcases which with rfl | rfl
        · exact firstAfter
        · exact secondAfter
      exact arrive_stale holds.sound b p before (leaves.stale k after stale)

/-- Step lemma for `deque`. -/
theorem deque_spec
    (holds : Holds options bound d s) (positive : 0 < options.quantum) :
    ∃ departures next t,
      (departures = [] ↔ s.ring = []) ∧
      Operated options bound d s .deque departures next t := by
  by_cases packets : s.ring = []
  · have empty : d.bytecnt = 0 := by
      rw [holds.represents.bytecnt]
      simp [tally, packets]
    refine ⟨[], d, s, by simp [packets], ⟨0, fun rounds _ => ?_⟩, holds,
      ⟨fun b => by simp [arrival, inBucket], fun weight => by simp [arrival]⟩,
      fun i j _ first _ _ _ => ?_⟩
    · simp [operate, deque, empty]
    · rw [packets] at first
      exact absurd first List.not_mem_nil
  · have bytes : d.bytecnt ≠ 0 := by
      have buckets := holds.placed.bytes_pos holds.sound packets
      rw [holds.represents.bytecnt]
      omega
    rcases holds.sound.serves positive packets with ⟨⟨b, p⟩, t, serves⟩
    rcases dequeLoop_spec serves holds.represents positive.le holds.sound with
      ⟨least, next, served, represents⟩
    have leaves := serves.leaves positive.le holds.sound
    have placed := packetsOf_placed leaves holds.placed
    refine ⟨[.sent p], next, t, by simp [packets],
      ⟨least, fun rounds enough => ?_⟩,
      ⟨represents, leaves.sound, holds.placed.leaves leaves, ?_⟩,
      ⟨fun c => ?_, fun weight => ?_⟩, ?_⟩
    · simp [operate, deque, bytes, dequeLoop_mono served enough]
    · have less := leaves.tally Packet.size
      have within := holds.within
      omega
    · have before := leaves.queue c
      rw [packetsOf_eq placed] at before
      simpa [inBucket, Departure.packet, arrival] using before
    · simpa [Departure.packet, arrival] using leaves.tally weight
    · intro i j different first second firstAfter secondAfter
      refine ⟨?_, fun k which stale => ?_⟩
      · have after := leaves.balance i j different firstAfter secondAfter
        rw [bytesOf, bytesOf, packetsOf_eq placed, packetsOf_eq placed]
          at after
        rw [sentBytes_sent, sentBytes_sent]
        exact after
      · refine leaves.stale k ?_ stale
        rcases which with rfl | rfl
        · exact firstAfter
        · exact secondAfter

/-- Enough rounds give the one result there is. -/
theorem Operated.unique
    {call : QueueCall} {departures : List Departure} {next : DRR}
    {t : Robin Nat Packet}
    (operated : Operated options bound d s call departures next t)
    {rounds : Nat} {result : List Departure × DRR}
    (given : d.operate options rounds call = some result) :
    result = (departures, next) := by
  rcases operated.result with ⟨enough, same⟩
  have later := same (max rounds enough) (le_max_right _ _)
  have more : d.operate options (max rounds enough) call = some result := by
    cases call with
    | enque p =>
        rcases Option.map_eq_some_iff.mp given with ⟨answer, ran, rfl⟩
        refine Option.map_eq_some_iff.mpr ⟨answer, ?_, rfl⟩
        rw [enque] at ran ⊢
        cases home : bucket options p with
        | none =>
            rw [home] at ran
            cases ran
        | some which =>
            rw [home] at ran
            dsimp only at ran ⊢
            cases accepted : d.accept which p with
            | none =>
                rw [accepted] at ran
                cases ran
            | some filled =>
                rw [accepted] at ran
                exact dropAll_mono ran (le_max_left _ _)
    | deque =>
        rcases Option.map_eq_some_iff.mp given with ⟨answer, ran, rfl⟩
        refine Option.map_eq_some_iff.mpr ⟨answer, ?_, rfl⟩
        rw [deque] at ran ⊢
        split at ran
        · next empty =>
            rw [if_pos empty]
            exact ran
        · next bytes =>
            rw [if_neg bytes]
            rcases Option.map_eq_some_iff.mp ran with ⟨sent, served, rfl⟩
            rw [dequeLoop_mono served (le_max_left _ _)]
            rfl
  rw [later] at more
  exact (Option.some.inj more).symm

/-! ## Runs -/

/-- What is asked of the options that a script sets. -/
structure Workable (options : DRROptions) : Prop where
  buckets : 0 < options.buckets
  blimit : 0 ≤ options.blimit
  quantum : 0 < options.quantum

theorem operate_spec
    (holds : Holds options bound d s) (workable : Workable options)
    (positive : 0 < bound) (call : QueueCall)
    (fits : ∀ p, call = .enque p → Fits bound p) :
    ∃ departures next t,
      Operated options bound d s call departures next t := by
  cases call with
  | enque p =>
      rcases enque_spec holds workable.buckets workable.blimit positive
          (fits p rfl) with
        ⟨_, _, log, next, t, _, _, _, _, operated⟩
      exact ⟨_, next, t, operated⟩
  | deque =>
      rcases deque_spec holds workable.quantum with
        ⟨departures, next, t, _, operated⟩
      exact ⟨departures, next, t, operated⟩

theorem Moves.refl : Moves options s [] [] s where
  queue _ := by simp [inBucket]
  tally _ := by simp

theorem Moves.trans
    {middle t : Robin Nat Packet} {arrivals arrivals' : List Packet}
    {departures departures' : List Departure}
    (first : Moves options s arrivals departures middle)
    (second : Moves options middle arrivals' departures' t) :
    Moves options s (arrivals ++ arrivals') (departures ++ departures')
      t where
  queue b := by
    have here := first.queue b
    have there := second.queue b
    simp only [inBucket, List.map_append, List.filter_append] at here there ⊢
    rw [← List.append_assoc, here, List.append_assoc, there,
      List.append_assoc]
  tally weight := by
    have here := first.tally weight
    have there := second.tally weight
    simp only [List.map_append, List.sum_append]
    omega

/-- Run lemma: with enough rounds every run has a result. -/
theorem run_spec
    (workable : Workable options) (positive : 0 < bound)
    (calls : List QueueCall)
    (fits : ∀ p, .enque p ∈ calls → Fits bound p)
    (holds : Holds options bound d s) :
    ∃ departures next t,
      (∃ enough, ∀ rounds, enough ≤ rounds →
        run options rounds d calls = some (departures, next)) ∧
      Holds options bound next t ∧
      Moves options s (calls.flatMap arrival) departures t := by
  induction calls generalizing d s with
  | nil => exact ⟨[], d, s, ⟨0, fun _ _ => rfl⟩, holds, .refl⟩
  | cons call calls induction =>
      rcases operate_spec holds workable positive call fun p same =>
          fits p (same ▸ List.mem_cons_self) with
        ⟨first, middle, m, operated⟩
      obtain ⟨rest, next, t, ⟨enough', ran⟩, holds', moves⟩ :=
        induction (fun p member => fits p (List.mem_cons_of_mem call member))
          operated.holds
      rcases operated.result with ⟨enough, result⟩
      refine ⟨first ++ rest, next, t, ⟨max enough enough', ?_⟩, holds', ?_⟩
      · intro rounds more
        rw [run, result rounds (le_of_max_le_left more)]
        dsimp only
        rw [ran rounds (le_of_max_le_right more)]
        rfl
      · exact operated.moves.trans moves

theorem Holds.start (limit : 0 ≤ options.blimit) :
    Holds options bound .start DeficitRoundRobin.start where
  represents := .start
  sound := .start
  placed _ _ member := nomatch member
  within := limit

/-- A bucket has packets between all calls of a run. -/
def backlogged (options : DRROptions) (rounds b : Nat) :
    DRR → List QueueCall → Bool
  | d, [] => !(d.drr b).queue.packets.isEmpty
  | d, call :: calls =>
      !(d.drr b).queue.packets.isEmpty &&
        match d.operate options rounds call with
        | none => false
        | some (_, next) => backlogged options rounds b next calls

theorem mem_ring_of_backlogged
    {rounds b : Nat} {calls : List QueueCall}
    (busy : backlogged options rounds b d calls = true)
    (holds : Holds options bound d s) : b ∈ s.ring := by
  apply holds.sound.mem_iff.mpr
  rw [← (holds.represents.books b).packets]
  cases calls with
  | nil => simpa [backlogged] using busy
  | cons call calls =>
      rw [backlogged, Bool.and_eq_true] at busy
      simpa using busy.1

theorem backlogged_next
    {rounds b : Nat} {call : QueueCall} {calls : List QueueCall}
    (busy : backlogged options rounds b d (call :: calls) = true)
    {departures : List Departure} {next : DRR}
    (given : d.operate options rounds call = some (departures, next)) :
    backlogged options rounds b next calls = true := by
  rw [backlogged, given, Bool.and_eq_true] at busy
  exact busy.2

theorem sentBytes_append (b : Nat) (first rest : List Departure) :
    sentBytes options b (first ++ rest) =
      sentBytes options b first + sentBytes options b rest := by
  simp [sentBytes, inBucket]

/-- The first call of a run that has a result, and the rest. -/
theorem run_cons
    (workable : Workable options) (positive : 0 < bound)
    {rounds : Nat} {call : QueueCall} {calls : List QueueCall}
    (fits : ∀ p, .enque p ∈ call :: calls → Fits bound p)
    (holds : Holds options bound d s) {departures : List Departure}
    {final : DRR}
    (ran : run options rounds d (call :: calls) =
      some (departures, final)) :
    ∃ first middle t rest,
      Operated options bound d s call first middle t ∧
        d.operate options rounds call = some (first, middle) ∧
        run options rounds middle calls = some (rest, final) ∧
        departures = first ++ rest := by
  rcases operate_spec holds workable positive call fun p same =>
      fits p (same ▸ List.mem_cons_self) with
    ⟨first, middle, t, operated⟩
  rw [run] at ran
  cases given : d.operate options rounds call with
  | none =>
      rw [given] at ran
      cases ran
  | some result =>
      have same := operated.unique given
      rw [given, same] at ran
      rcases Option.map_eq_some_iff.mp ran with ⟨⟨rest, final'⟩, ran', same'⟩
      cases same'
      exact ⟨first, middle, t, rest, operated, congrArg some same, ran',
        rfl⟩

/-- Run lemma: what holds at the start holds at the end. -/
theorem run_holds
    (workable : Workable options) (positive : 0 < bound)
    {rounds : Nat} {calls : List QueueCall}
    (fits : ∀ p, .enque p ∈ calls → Fits bound p)
    (holds : Holds options bound d s) {departures : List Departure}
    {final : DRR}
    (ran : run options rounds d calls = some (departures, final)) :
    ∃ t, Holds options bound final t := by
  induction calls generalizing d s departures with
  | nil =>
      cases ran
      exact ⟨s, holds⟩
  | cons call calls induction =>
      rcases run_cons workable positive fits holds ran with
        ⟨_, _, _, _, operated, _, rest, _⟩
      exact induction
        (fun p member => fits p (List.mem_cons_of_mem call member))
        operated.holds rest

/-- Run lemma: the balance of two buckets that have packets all the time. -/
theorem run_fair
    (workable : Workable options) (positive : 0 < bound)
    {rounds : Nat} {calls : List QueueCall}
    (fits : ∀ p, .enque p ∈ calls → Fits bound p)
    (holds : Holds options bound d s) {departures : List Departure}
    {final : DRR}
    (ran : run options rounds d calls = some (departures, final))
    {i j : Nat} (different : i ≠ j)
    (first : backlogged options rounds i d calls = true)
    (second : backlogged options rounds j d calls = true) :
    ∃ t, Holds options bound final t ∧ i ∈ t.ring ∧ j ∈ t.ring ∧
      Fair options s departures t i j := by
  have firstIn := mem_ring_of_backlogged first holds
  have secondIn := mem_ring_of_backlogged second holds
  induction calls generalizing d s departures with
  | nil =>
      cases ran
      exact ⟨s, holds, firstIn, secondIn, by simp [sentBytes, inBucket],
        fun _ _ stale => stale⟩
  | cons call calls induction =>
      rcases run_cons workable positive fits holds ran with
        ⟨left, middle, m, right, operated, given, rest, rfl⟩
      have first' := backlogged_next first given
      have second' := backlogged_next second given
      have firstIn' := mem_ring_of_backlogged first' operated.holds
      have secondIn' := mem_ring_of_backlogged second' operated.holds
      rcases induction
        (fun p member => fits p (List.mem_cons_of_mem call member))
        operated.holds rest first' second' firstIn' secondIn' with
        ⟨t, holds', firstAfter, secondAfter, fair'⟩
      have fair := operated.fair i j different firstIn secondIn firstIn'
        secondIn'
      refine ⟨t, holds', firstAfter, secondAfter, ?_, fun k which stale =>
        fair.stale k which (fair'.stale k which stale)⟩
      have here := fair.balance
      have there := fair'.balance
      rw [sentBytes_append, sentBytes_append]
      push_cast
      omega

end DRR

end NetworkingLab.Simulator
