import Mathlib.Algebra.BigOperators.Intervals
import Mathlib.Algebra.Order.BigOperators.Group.Finset
import Mathlib.Order.Bounds.Basic
import NetworkingLab.Simulator.Acker

/-!
# What the receive window stands for

The window of `Acker` is compared with the list of the packets that arrived
since the last `reset`, the last one first.  `Window` is the relation; `update`
keeps it (`Window.update`), so it holds behind every list of calls.

Packets may come in any order, again and again, and far ahead.  A packet of no
bytes could not be told from one that has not arrived; the code prints an
error for it, and the results ask for a size above zero.  The code computes
with `int`: `InRange` bounds the numbers it computes, for packets numbered
below `2 ^ 30`.
-/

namespace NetworkingLab.Simulator

open NetworkingLab.Foundation.RingBuffer

/-- A packet of this number is among the arrivals. -/
def Held (past : List Arrival) (seq : Int) : Prop :=
  ∃ packet ∈ past, packet.seq = seq

/-- The size of the last copy of a packet, 0 when it has not arrived. -/
def latest : List Arrival → Int → Int
  | [], _ => 0
  | packet :: past, seq =>
      if packet.seq = seq then packet.numBytes else latest past seq

@[simp]
theorem held_cons {packet : Arrival} {past : List Arrival} {seq : Int} :
    Held (packet :: past) seq ↔ packet.seq = seq ∨ Held past seq := by
  simp [Held]

theorem latest_eq_zero_iff
    {past : List Arrival} (sizes : ∀ packet ∈ past, 0 < packet.numBytes)
    {seq : Int} : latest past seq = 0 ↔ ¬ Held past seq := by
  induction past with
  | nil => simp [latest, Held]
  | cons packet past induction =>
      have positive := sizes packet List.mem_cons_self
      have rest := induction fun other member =>
        sizes other (List.mem_cons_of_mem _ member)
      by_cases same : packet.seq = seq
      · simp [latest, same, positive.ne']
      · simp [latest, same, rest]

/-- The numbers from 0 on that have not arrived. -/
def missing (past : List Arrival) : Set Nat :=
  {k | ¬ Held past k}

/-- The window of an acker after these arrivals. -/
structure Window {Time : Type*} (past : List Arrival)
    (acker : Acker Time) : Prop where
  wide : 2 ≤ acker.seen.capacity
  least : IsLeast (missing past) acker.next
  reach : ∀ k : Nat, Held past k → k ≤ acker.maxseen
  room : acker.maxseen + 2 ≤ acker.next + acker.seen.capacity
  marks : ∀ k, acker.next ≤ k → k ≤ acker.maxseen + 1 →
    acker.seen.read k = latest past k

namespace Window

variable {Time : Type*} {past : List Arrival} {acker : Acker Time}

/-- Nothing has arrived. -/
theorem blank
    (next : acker.next = 0) (maxseen : acker.maxseen = 0)
    (wide : 2 ≤ acker.seen.capacity)
    (unmarked : ∀ k, acker.seen.read k = 0) : Window [] acker where
  wide := wide
  least := by
    rw [next]
    exact ⟨by simp [missing, Held], fun k _ => Nat.zero_le k⟩
  reach k held := by simp [Held] at held
  room := by omega
  marks k _ _ := unmarked k

theorem next_le (window : Window past acker) :
    acker.next ≤ acker.maxseen + 1 := by
  apply window.least.2
  intro held
  have := window.reach _ held
  omega

/-! ## Making room -/

/-- Twice the ring holds the same window. -/
theorem resizeBuffers (window : Window past acker) :
    Window past acker.resizeBuffers where
  wide := by
    have wide := window.wide
    rw [Acker.capacity_resizeBuffers]
    omega
  least := window.least
  reach := window.reach
  room := by
    have room := window.room
    rw [Acker.capacity_resizeBuffers]
    simp only [Acker.resizeBuffers]
    omega
  marks k lower upTo := by
    have room := window.room
    have double := Acker.capacity_resizeBuffers acker
    simp only [Acker.resizeBuffers, Slots.capacity_writeAll]
      at double lower upTo ⊢
    rw [Slots.read_writeAll, if_pos]
    · exact window.marks k lower upTo
    · rw [List.mem_range'_1]
      omega
    · intro index member
      rw [List.mem_range'_1] at member
      omega

/-- What `grow` leaves: the same window, with room for the packet. -/
theorem grow (window : Window past acker) (seq : Int) :
    Window past (acker.grow seq) ∧
      (acker.grow seq).next = acker.next ∧
      (acker.grow seq).maxseen = acker.maxseen ∧
      seq + 2 ≤ acker.next + (acker.grow seq).seen.capacity := by
  fun_induction Acker.grow acker seq with
  | case1 acker short induction => exact induction window.resizeBuffers
  | case2 acker enough =>
      refine ⟨window, rfl, rfl, ?_⟩
      have positive := acker.seen.capacity_pos
      simp only [Slots.mask] at enough
      omega

/-! ## One packet -/

/-- What stands in the ring when a packet has been marked in it. -/
structure Ahead (past : List Arrival) (packet : Arrival)
    (before acker : Acker Time) : Prop where
  next : acker.next = before.next
  farther : before.maxseen ≤ acker.maxseen
  reached : packet.seq ≤ acker.maxseen
  wide : 2 ≤ acker.seen.capacity
  room : acker.maxseen + 2 ≤ acker.next + acker.seen.capacity
  others : ∀ k : Nat, acker.next ≤ k → k ≤ acker.maxseen + 1 →
    packet.seq ≠ k → acker.seen.read k = latest past k

/-- A packet below `maxseen_` moves nothing. -/
theorem ahead_of_le
    (window : Window past acker) {packet : Arrival}
    (below : packet.seq ≤ acker.maxseen) :
    Ahead past packet acker acker where
  next := rfl
  farther := Nat.le_refl _
  reached := below
  wide := window.wide
  room := window.room
  others k lower upTo _ := window.marks k lower upTo

/-- The cells between the old and the new `maxseen_` are cleared. -/
theorem ahead_of_stretch
    (window : Window past acker)
    (sizes : ∀ packet ∈ past, 0 < packet.numBytes)
    {packet : Arrival} (above : (acker.maxseen : Int) < packet.seq)
    (room : packet.seq + 2 ≤ acker.next + acker.seen.capacity) :
    Ahead past packet acker
      (acker.stretch packet.seq.toNat packet.numBytes) where
  next := rfl
  farther := by
    simp only [Acker.stretch]
    omega
  reached := by
    simp only [Acker.stretch]
    omega
  wide := by
    simp only [Acker.stretch, Slots.capacity_write,
      Slots.capacity_writeAll]
    exact window.wide
  room := by
    simp only [Acker.stretch, Slots.capacity_write,
      Slots.capacity_writeAll]
    omega
  others k lower upTo different := by
    have ahead := window.next_le
    obtain ⟨seq, number⟩ : ∃ seq : Nat, packet.seq = seq :=
      Int.eq_ofNat_of_zero_le (by omega)
    have unheard : ∀ other : Nat, acker.maxseen < other →
        latest past other = 0 := by
      intro other beyond
      rw [latest_eq_zero_iff sizes]
      intro held
      have := window.reach other held
      omega
    simp only [Acker.stretch, number, Int.toNat_natCast]
      at lower upTo different room above ⊢
    by_cases last : k = seq + 1
    · rw [last, Slots.read_write_self]
      exact (unheard (seq + 1) (by omega)).symm
    · rw [Slots.read_write_of_near (Ne.symm last)
          (by simp; omega) (by simp; omega),
        Slots.read_write_of_near (by omega)
          (by simp; omega) (by simp; omega),
        Slots.read_writeAll]
      · split
        · next inside =>
            rw [List.mem_range'_1] at inside
            exact (unheard k (by omega)).symm
        · next outside =>
            rw [List.mem_range'_1] at outside
            exact window.marks k lower (by omega)
      · intro index member
        rw [List.mem_range'_1] at member
        omega

/-- The loop over the marked cells stops at the first unmarked one. -/
theorem collect_eq
    {seen : Slots Int} {rounds next stop : Nat}
    (lower : next ≤ stop) (enough : stop < next + rounds)
    (marked : ∀ k, next ≤ k → k < stop → seen.read k ≠ 0)
    (unmarked : seen.read stop = 0) (numToDeliver : Int) :
    Acker.collect seen rounds next numToDeliver =
      some (stop,
        numToDeliver + ∑ k ∈ Finset.Ico next stop, seen.read k) := by
  induction rounds generalizing next numToDeliver with
  | zero => omega
  | succ rounds induction =>
      rw [Acker.collect]
      rcases Nat.lt_or_eq_of_le lower with before | here
      · rw [if_pos (marked next (Nat.le_refl _) before),
          induction before (by omega)
            (fun k behind => marked k (Nat.le_of_succ_le behind)),
          Finset.sum_eq_sum_Ico_succ_bot before, add_assoc]
      · rw [here, unmarked]
        simp

theorem exists_least (past : List Arrival) {bound : Nat}
    (beyond : ¬ Held past bound) :
    ∃ stop, IsLeast (missing past) stop := by
  classical
  have present : ∃ k : Nat, ¬ Held past k := ⟨bound, beyond⟩
  exact ⟨Nat.find present, Nat.find_spec present, fun k missed =>
    Nat.find_min' present missed⟩

/-- What an update returns and leaves, the window having begun at `first`. -/
structure Updated (past : List Arrival) (packet : Arrival) (first : Nat)
    (acker : Acker Time) (numToDeliver : Int) : Prop where
  window : Window (packet :: past) acker
  onward : first ≤ acker.next
  isDup : acker.isDup = true ↔ packet.seq < 0 ∨ Held past packet.seq
  delivered : numToDeliver =
    ∑ k ∈ Finset.Ico first acker.next, latest (packet :: past) k

/-- A packet in front of the window is a duplicate and changes nothing. -/
theorem updated_of_lt
    (window : Window past acker) {packet : Arrival}
    (passed : packet.seq < acker.next) :
    Updated past packet acker.next { acker with isDup := true } 0 where
  window :=
    { wide := window.wide
      least := by
        refine ⟨?_, ?_⟩
        · rintro arrived
          rcases held_cons.mp arrived with same | held
          · have : packet.seq = acker.next := same
            omega
          · exact window.least.1 held
        · intro k missed
          apply window.least.2
          intro held
          exact missed (held_cons.mpr (Or.inr held))
      reach := by
        intro k held
        rcases held_cons.mp held with same | held
        · have := window.next_le
          simp only
          omega
        · exact window.reach k held
      room := window.room
      marks := by
        intro k lower upTo
        simp only at lower
        rw [latest, if_neg (by omega)]
        exact window.marks k lower upTo }
  onward := Nat.le_refl _
  isDup := by
    simp only [true_iff]
    rcases Int.lt_or_le packet.seq 0 with negative | natural
    · exact Or.inl negative
    · right
      rcases Int.eq_ofNat_of_zero_le natural with ⟨seq, number⟩
      rw [number] at passed ⊢
      by_contra missed
      have := window.least.2 missed
      omega
  delivered := by simp

/-- A packet inside the window is marked, and the window moves. -/
theorem updated_of_ahead
    {before : Acker Time} (least : IsLeast (missing past) before.next)
    (reach : ∀ k : Nat, Held past k → k ≤ before.maxseen)
    (sizes : ∀ packet ∈ past, 0 < packet.numBytes)
    {packet : Arrival} (positive : 0 < packet.numBytes)
    (ahead : Ahead past packet before acker)
    (inside : (acker.next : Int) ≤ packet.seq)
    (dup : Bool)
    (duplicate : dup = true ↔ Held past packet.seq) :
    ∃ result,
      Acker.collect
          (acker.seen.write packet.seq.toNat packet.numBytes)
          (acker.maxseen + 2 - acker.next) acker.next 0 =
        some result ∧
      Updated past packet before.next
        { acker with
          next := result.1
          seen := acker.seen.write packet.seq.toNat packet.numBytes
          isDup := dup }
        result.2 := by
  obtain ⟨seq, number⟩ : ∃ seq : Nat, packet.seq = seq :=
    Int.eq_ofNat_of_zero_le (by omega)
  have reached := ahead.reached
  have room := ahead.room
  have all : ∀ other ∈ packet :: past, 0 < other.numBytes := by
    intro other member
    rcases List.mem_cons.mp member with rfl | old
    · exact positive
    · exact sizes other old
  have bound : ∀ k : Nat, Held (packet :: past) k → k ≤ acker.maxseen := by
    intro k held
    rcases held_cons.mp held with same | held
    · omega
    · exact (reach k held).trans ahead.farther
  have marks : ∀ k : Nat, acker.next ≤ k → k ≤ acker.maxseen + 1 →
      (acker.seen.write packet.seq.toNat packet.numBytes).read k =
        latest (packet :: past) k := by
    intro k lower upTo
    rw [number, Int.toNat_natCast, latest, number]
    by_cases same : seq = k
    · subst same
      rw [Slots.read_write_self, if_pos rfl]
    · rw [Slots.read_write_of_near same (by omega) (by omega),
        if_neg (by omega)]
      exact ahead.others k lower upTo (by omega)
  have last : ¬ Held (packet :: past) (acker.maxseen + 1 : Nat) := by
    intro held
    have := bound _ held
    omega
  rcases exists_least (packet :: past) last with ⟨stop, stopped⟩
  have lower : acker.next ≤ stop := by
    rw [ahead.next]
    apply least.2
    intro held
    exact stopped.1 (held_cons.mpr (Or.inr held))
  have upTo : stop ≤ acker.maxseen + 1 := stopped.2 last
  have collected := @collect_eq
    (acker.seen.write packet.seq.toNat packet.numBytes)
    (acker.maxseen + 2 - acker.next) acker.next stop lower (by omega)
    (by
      intro k behind before
      rw [marks k behind (by omega), Ne, latest_eq_zero_iff all,
        not_not]
      by_contra missed
      have := stopped.2 missed
      omega)
    (by
      rw [marks stop lower upTo, latest_eq_zero_iff all]
      exact stopped.1)
    0
  refine ⟨_, collected, ?_, ?_, ?_, ?_⟩
  · exact
      { wide := ahead.wide
        least := stopped
        reach := bound
        room := by
          simp only [Slots.capacity_write]
          omega
        marks := fun k behind before =>
          marks k (Nat.le_trans lower behind) before }
  · rw [← ahead.next]
    exact lower
  · simp only [duplicate]
    constructor
    · exact Or.inr
    · rintro (negative | held)
      · omega
      · exact held
  · simp only [zero_add, ← ahead.next]
    apply Finset.sum_congr rfl
    intro k member
    rw [Finset.mem_Ico] at member
    exact marks k member.1 (by omega)

/-- Step lemma: an update returns, and the window stands for one more. -/
theorem update
    (window : Window past acker)
    (sizes : ∀ packet ∈ past, 0 < packet.numBytes)
    (packet : Arrival) (positive : 0 < packet.numBytes) :
    ∃ next numToDeliver,
      acker.update packet = some (next, numToDeliver) ∧
        Updated past packet acker.next next numToDeliver := by
  have fresh : Window past { acker with isDup := false } :=
    ⟨window.wide, window.least, window.reach, window.room, window.marks⟩
  rcases fresh.grow packet.seq with ⟨grown, nextKept, maxseenKept, room⟩
  simp only at nextKept maxseenKept room
  rw [Acker.update]
  generalize { acker with isDup := false }.grow packet.seq = wide
    at grown nextKept maxseenKept room
  rw [← nextKept] at room ⊢
  by_cases above : (wide.maxseen : Int) < packet.seq
  · -- the packet is the highest so far, so it cannot have come before
    have ahead := grown.ahead_of_stretch sizes above room
    have inside : (wide.next : Int) ≤ packet.seq := by
      have := grown.next_le
      omega
    have unheard : ¬ Held past packet.seq := by
      obtain ⟨seq, number⟩ : ∃ seq : Nat, packet.seq = seq :=
        Int.eq_ofNat_of_zero_le (by omega)
      rw [number]
      intro held
      have := grown.reach seq held
      omega
    rcases updated_of_ahead grown.least grown.reach sizes positive ahead
        (by rwa [ahead.next]) false (by simp [unheard]) with
      ⟨result, collected, updated⟩
    refine ⟨_, _, ?_, updated⟩
    simp only [above, decide_true, if_true, Bool.not_true,
      Bool.false_and, ahead.reached, ahead.next,
      if_neg (not_lt.mpr inside)]
    rw [← ahead.next, collected]
    rfl
  · have below : packet.seq ≤ wide.maxseen := by omega
    by_cases passed : packet.seq < wide.next
    · refine ⟨_, _, ?_, grown.updated_of_lt passed⟩
      simp [above, passed]
    · have ahead := grown.ahead_of_le below
      have inside : (wide.next : Int) ≤ packet.seq := not_lt.mp passed
      have marked :
          (wide.seen.read packet.seq.toNat != 0) = true ↔
            Held past packet.seq := by
        obtain ⟨seq, number⟩ : ∃ seq : Nat, packet.seq = seq :=
          Int.eq_ofNat_of_zero_le (by omega)
        rw [number, Int.toNat_natCast, bne_iff_ne, Ne,
          grown.marks seq (by omega) (by omega),
          latest_eq_zero_iff sizes, not_not]
      rcases updated_of_ahead grown.least grown.reach sizes positive ahead
          inside _ marked with
        ⟨result, collected, updated⟩
      refine ⟨_, _, ?_, updated⟩
      simp only [above, decide_false, Bool.false_eq_true, if_false,
        Bool.not_false, Bool.true_and, if_neg passed, if_pos below]
      rw [collected]
      rfl

/-- `reset` forgets all arrivals and keeps the size of the ring. -/
theorem reset (window : Window past acker) : Window [] acker.reset :=
  blank rfl rfl window.wide fun _ => Slots.read_blank _ _ _

end Window

theorem Window.start {Time : Type*} [Zero Time] :
    Window [] (Acker.start : Acker Time) :=
  Window.blank rfl rfl (show 2 ≤ 2 ^ 6 by decide)
    fun _ => Slots.read_blank _ _ _

/-! ## The range of `int` -/

/-- A packet with a size, whose number is far inside the range of `int`. -/
structure Arrival.Bounded (packet : Arrival) : Prop where
  size : 0 < packet.numBytes
  low : -2 ^ 30 ≤ packet.seq
  high : packet.seq + 2 < 2 ^ 30

/--
The numbers from which `update` computes others: twice a size, and sums and
differences of a packet number, `next_` and `maxseen_`, are `int`s with these.
-/
structure Acker.InRange {Time : Type*} (acker : Acker Time) : Prop where
  ring : acker.seen.capacity ≤ 2 ^ 30
  highest : acker.maxseen + 2 ≤ 2 ^ 30

section Range

variable {Time : Type*}

/-- A ring that has to grow is not longer than the distance to the packet. -/
theorem Acker.InRange.grow
    {acker : Acker Time} {seq : Int} (small : seq + 2 < 2 ^ 30)
    (range : acker.InRange) : (acker.grow seq).InRange := by
  fun_induction Acker.grow acker seq with
  | case1 acker short induction =>
      apply induction
      refine ⟨?_, range.highest⟩
      have positive := acker.seen.capacity_pos
      have below : 2 ^ acker.seen.bits < 2 ^ 30 := by
        simp only [Slots.mask, Slots.capacity] at short positive ⊢
        omega
      have bits := (Nat.pow_lt_pow_iff_right (by decide)).mp below
      rw [capacity_resizeBuffers, Slots.capacity, ← Nat.pow_succ']
      exact Nat.pow_le_pow_right (by decide) bits
  | case2 acker enough => exact range

/-- Marking a packet keeps the size and moves `maxseen_` at most to it. -/
theorem Acker.InRange.update
    {acker next : Acker Time} {packet : Arrival} {numToDeliver : Int}
    (range : acker.InRange) (bounded : packet.Bounded)
    (taken : acker.update packet = some (next, numToDeliver)) :
    next.InRange := by
  have fresh : { acker with isDup := false }.InRange :=
    ⟨range.ring, range.highest⟩
  have grown := fresh.grow bounded.high
  rw [Acker.update] at taken
  generalize { acker with isDup := false }.grow packet.seq = wide
    at taken grown
  have ahead : (if decide ((wide.maxseen : Int) < packet.seq) then
      wide.stretch packet.seq.toNat packet.numBytes
    else
      wide).InRange := by
    split
    · have high := bounded.high
      refine ⟨?_, ?_⟩
      · simpa [stretch] using grown.ring
      · simp only [stretch]
        omega
    · exact grown
  simp only at taken
  generalize (if decide ((wide.maxseen : Int) < packet.seq) then
      wide.stretch packet.seq.toNat packet.numBytes
    else
      wide) = marked at taken ahead
  split at taken
  · rcases Prod.mk.inj (Option.some.inj taken) with ⟨rfl, _⟩
    exact ⟨ahead.ring, ahead.highest⟩
  · split at taken
    · rcases Option.map_eq_some_iff.mp taken with ⟨result, _, equal⟩
      rcases Prod.mk.inj equal with ⟨rfl, _⟩
      exact ⟨ahead.ring, ahead.highest⟩
    · rcases Prod.mk.inj (Option.some.inj taken) with ⟨rfl, _⟩
      exact ahead

theorem Acker.InRange.start [Zero Time] :
    (Acker.start : Acker Time).InRange :=
  ⟨Nat.pow_le_pow_right (by decide) (show 6 ≤ 30 by decide),
    show 2 ≤ 2 ^ 30 by decide⟩

theorem Acker.InRange.reset
    {acker : Acker Time} (range : acker.InRange) : acker.reset.InRange :=
  ⟨range.ring, show 2 ≤ 2 ^ 30 by decide⟩

end Range

/-- The bytes of all arrivals. -/
def arrived : List Arrival → Int
  | [] => 0
  | packet :: past => packet.numBytes + arrived past

theorem latest_nonneg
    {past : List Arrival} (sizes : ∀ packet ∈ past, 0 < packet.numBytes)
    (seq : Int) : 0 ≤ latest past seq := by
  induction past with
  | nil => exact le_refl 0
  | cons packet past induction =>
      rw [latest]
      split
      · exact (sizes packet List.mem_cons_self).le
      · exact induction fun other member =>
          sizes other (List.mem_cons_of_mem _ member)

/-- The last copies of different packets are among the arrivals. -/
theorem sum_latest_le
    {past : List Arrival} (sizes : ∀ packet ∈ past, 0 < packet.numBytes)
    (numbers : Finset Nat) :
    ∑ k ∈ numbers, latest past k ≤ arrived past := by
  induction past with
  | nil => simp [latest, arrived]
  | cons packet past induction =>
      have positive := sizes packet List.mem_cons_self
      have others : ∀ other ∈ past, 0 < other.numBytes :=
        fun other member => sizes other (List.mem_cons_of_mem _ member)
      -- the packet counts for one number at most
      have once : ∑ k ∈ numbers,
          (if packet.seq = (k : Int) then packet.numBytes else 0) ≤
            packet.numBytes := by
        by_cases natural : 0 ≤ packet.seq
        · rcases Int.eq_ofNat_of_zero_le natural with ⟨seq, number⟩
          simp only [number, Int.natCast_inj, Finset.sum_ite_eq]
          split <;> omega
        · rw [Finset.sum_eq_zero]
          · exact positive.le
          · intro k _
            rw [if_neg (by omega)]
      calc
        ∑ k ∈ numbers, latest (packet :: past) k ≤
            ∑ k ∈ numbers,
              ((if packet.seq = (k : Int) then packet.numBytes else 0) +
                latest past k) := by
          apply Finset.sum_le_sum
          intro k _
          rw [latest]
          have rest := latest_nonneg others k
          split <;> omega
        _ ≤ arrived (packet :: past) := by
          rw [Finset.sum_add_distrib, arrived]
          exact add_le_add once (induction others)

/-! ## Whole runs -/

/-- What a sink does with its acker. -/
inductive AckerCall where
  | update (packet : Arrival)
  | reset

/-- The arrivals since the last `reset`, the last one first. -/
def recorded : List Arrival → List AckerCall → List Arrival
  | past, [] => past
  | past, .update packet :: calls => recorded (packet :: past) calls
  | _, .reset :: calls => recorded [] calls

namespace Acker

variable {Time : Type*}

/-- The acker behind a list of calls. -/
def run : Acker Time → List AckerCall → Option (Acker Time)
  | acker, [] => some acker
  | acker, .update packet :: calls =>
      match acker.update packet with
      | none => none
      | some (next, _) => next.run calls
  | acker, .reset :: calls => acker.reset.run calls

end Acker

/-- Run lemma: the window stands for the arrivals behind every run. -/
theorem Window.run
    {Time : Type*} {past : List Arrival} {acker : Acker Time}
    (window : Window past acker)
    (sizes : ∀ packet ∈ past, 0 < packet.numBytes)
    (range : acker.InRange) (calls : List AckerCall)
    (bounded : ∀ packet, .update packet ∈ calls → packet.Bounded) :
    ∃ final, acker.run calls = some final ∧
      Window (recorded past calls) final ∧
      (∀ packet ∈ recorded past calls, 0 < packet.numBytes) ∧
        final.InRange := by
  induction calls generalizing past acker with
  | nil => exact ⟨acker, rfl, window, sizes, range⟩
  | cons call calls induction =>
      have later : ∀ packet, .update packet ∈ calls → packet.Bounded :=
        fun packet member => bounded packet
          (List.mem_cons_of_mem _ member)
      cases call with
      | update packet =>
          have bound := bounded packet List.mem_cons_self
          rcases window.update sizes packet bound.size with
            ⟨next, numToDeliver, taken, updated⟩
          rcases induction updated.window
            (by
              intro other member
              rcases List.mem_cons.mp member with rfl | old
              · exact bound.size
              · exact sizes other old)
            (range.update bound taken) later with
            ⟨final, ran, result⟩
          refine ⟨final, ?_, result⟩
          rw [Acker.run, taken]
          exact ran
      | reset =>
          exact induction window.reset (by simp) range.reset later

/--
Behind every sequence of arrivals and resets, `update` returns.  `next_` is
the least number that has not arrived, a packet is called a duplicate exactly
when it has a negative number or has arrived before, and the bytes to deliver
are those of the packets that `next_` moves over.  No number leaves the range
of `int` as long as the packets are numbered below `2 ^ 30` and have fewer than
`2 ^ 31` bytes in all.
-/
theorem receive_window
    {Time : Type*} [Zero Time] (calls : List AckerCall)
    (bounded : ∀ packet, .update packet ∈ calls → packet.Bounded) :
    ∃ acker : Acker Time,
      Acker.start.run calls = some acker ∧
        IsLeast (missing (recorded [] calls)) acker.next ∧
        ∀ packet : Arrival, packet.Bounded →
          arrived (packet :: recorded [] calls) < 2 ^ 31 →
          ∃ next numToDeliver,
            acker.update packet = some (next, numToDeliver) ∧
              next.InRange ∧ 0 ≤ numToDeliver ∧ numToDeliver < 2 ^ 31 ∧
              (next.isDup = true ↔
                packet.seq < 0 ∨ Held (recorded [] calls) packet.seq) ∧
              numToDeliver =
                ∑ k ∈ Finset.Ico acker.next next.next,
                  latest (packet :: recorded [] calls) k := by
  have initial : Window [] (Acker.start : Acker Time) := Window.start
  rcases initial.run (by simp) Acker.InRange.start calls bounded with
    ⟨acker, ran, window, sizes, range⟩
  refine ⟨acker, ran, window.least, ?_⟩
  intro packet bound few
  rcases window.update sizes packet bound.size with
    ⟨next, numToDeliver, taken, updated⟩
  have all : ∀ other ∈ packet :: recorded [] calls,
      0 < other.numBytes := by
    intro other member
    rcases List.mem_cons.mp member with rfl | old
    · exact bound.size
    · exact sizes other old
  have sum := sum_latest_le all (Finset.Ico acker.next next.next)
  rw [← updated.delivered] at sum
  have nonneg : 0 ≤ numToDeliver := by
    rw [updated.delivered]
    exact Finset.sum_nonneg fun k _ => latest_nonneg all k
  exact ⟨next, numToDeliver, taken, range.update bound taken, nonneg,
    by omega, updated.isDup, updated.delivered⟩

/-- Two packets in the wrong order, and then the next one. -/
theorem receive_window_swapped :
    ∃ acker next : Acker Nat, ∃ numToDeliver,
      Acker.start.run [.update ⟨1, 512⟩, .update ⟨0, 512⟩] = some acker ∧
        acker.next = 2 ∧
        acker.update ⟨2, 512⟩ = some (next, numToDeliver) ∧
          next.InRange ∧ next.isDup = false := by
  rcases @receive_window Nat _ [.update ⟨1, 512⟩, .update ⟨0, 512⟩] (by
      intro packet member
      simp only [List.mem_cons, AckerCall.update.injEq, List.not_mem_nil,
        or_false] at member
      rcases member with rfl | rfl <;> constructor <;> decide) with
    ⟨acker, ran, least, later⟩
  rcases later ⟨2, 512⟩ (by constructor <;> decide) (by decide) with
    ⟨next, numToDeliver, taken, range, _, _, duplicate, _⟩
  refine ⟨acker, next, numToDeliver, ran, least.unique ⟨?_, ?_⟩, taken,
    range, ?_⟩
  · simp [missing, Held, recorded]
  · intro k missed
    by_contra below
    apply missed
    have small : k = 0 ∨ k = 1 := by omega
    rcases small with rfl | rfl <;> simp [Held, recorded]
  · rw [Bool.eq_false_iff, Ne, duplicate]
    simp [Held, recorded]

end NetworkingLab.Simulator
