import Mathlib.Data.Int.Cast.Basic
import Mathlib.Data.List.Basic
import NetworkingLab.SelectiveRepeat.Pack

/-!
# `sendpacket`

The function runs two loops over the counters `*base` and `*nextseq`.  The
first walks over the outstanding slots and, for each one that is not
acknowledged, sends slot `next` (not the slot it tested); its start-up case
sends packet 0 and sets the counters to 0 and 1.  The second sends new packets
while the window is open and the next slot is valid.  The process leaves
through `exit(0)` when the next slot is invalid.

`sendpacket_first` and `sendpacket_later` give the complete effect of a call
on a numbered buffer: the new counters, both lists of transmissions and the
exit decision.  Only when the packets fill the whole block can a call read the
slot behind it.
-/

namespace NetworkingLab.SelectiveRepeat

open NetworkingLab.Foundation.CString

/-- The variables `sendbase` and `nextseq` of a peer. -/
structure Counters where
  base : Int
  nextseq : Int
deriving DecidableEq

/-- One `send` of a data packet, with the counters stored at that moment. -/
structure Transmission where
  counters : Counters
  packet : Pack
deriving DecidableEq

/-- What one call of `sendpacket` leaves behind. -/
structure SendResult where
  counters : Counters
  resent : List Transmission
  fresh : List Transmission
  exits : Bool
deriving DecidableEq

/-- All packets a call put on the wire, in order. -/
def SendResult.sent (result : SendResult) : List Transmission :=
  result.resent ++ result.fresh

/-! ## The two loops -/

/--
The loop `for(i=bas;i<next;i++)`, with the number of passes left: every pass
increments `i` and none changes `next`.
-/
def retransmit (buffer : Buffer) (next : Int) :
    Nat → Int → Int → Counters →
      Option (Counters × List Transmission)
  | 0, _, _, counters => some (counters, [])
  | passes + 1, i, bas, counters =>
      if bas = -1 then
        match readSlot buffer next with
        | none => none
        | some packet =>
            (retransmit buffer next passes (i + 1) (bas + 1)
              ⟨bas + 1, 1⟩).map
              fun final => (final.1, ⟨counters, packet⟩ :: final.2)
      else
        match readSlot buffer i with
        | none => none
        | some tested =>
            if tested.ackno = -1 then
              match readSlot buffer next with
              | none => none
              | some packet =>
                  (retransmit buffer next passes (i + 1) bas
                    counters).map
                    fun final => (final.1, ⟨counters, packet⟩ :: final.2)
            else
              retransmit buffer next passes (i + 1) bas counters

/--
The `while` loop over new packets.  A pass reads slot `next` and increments
it, so after 100 passes the read leaves the block.
-/
def transmit (buffer : Buffer) (window : Int) :
    Nat → Int → Counters →
      Option (Int × Counters × List Transmission)
  | 0, _, _ => none
  | passes + 1, next, counters =>
      if counters.nextseq - counters.base < window then
        match readSlot buffer next with
        | none => none
        | some packet =>
            if packet.sno ≠ -1 then
              (transmit buffer window passes (next + 1)
                { counters with nextseq := next + 1 }).map
                fun final =>
                  (final.1, final.2.1, ⟨counters, packet⟩ :: final.2.2)
            else
              some (next, counters, [])
      else
        some (next, counters, [])

/-- `sendpacket`. -/
def sendpacket (buffer : Buffer) (window : Int) (counters : Counters) :
    Option SendResult :=
  let next := counters.nextseq
  let bas := counters.base
  match retransmit buffer next (next - bas).toNat bas bas counters with
  | none => none
  | some (started, resent) =>
      match transmit buffer window 101 started.nextseq started with
      | none => none
      | some (next, final, fresh) =>
          match readSlot buffer next with
          | none => none
          | some last =>
              some ⟨final, resent, fresh, last.sno = -1⟩

/-! ## The counters behind a call -/

/-- The second loop moves `nextseq` to the slot that it stops at. -/
theorem transmit_counters
    {buffer : Buffer} {window next stop : Int} {passes : Nat}
    {counters final : Counters} {fresh : List Transmission}
    (same : counters.nextseq = next)
    (sent : transmit buffer window passes next counters =
      some (stop, final, fresh)) :
    final = ⟨counters.base, stop⟩ := by
  induction passes generalizing next counters fresh with
  | zero => cases sent
  | succ passes induction =>
      simp only [transmit] at sent
      split at sent
      · split at sent
        · cases sent
        · split at sent
          · simp only [Option.map_eq_some_iff, Prod.mk.injEq] at sent
            rcases sent with ⟨⟨_, _, _⟩, rest, rfl, rfl, rfl⟩
            exact @induction (next + 1) ⟨counters.base, next + 1⟩ _ rfl
              rest
          · cases sent
            rw [← same]
      · cases sent
        rw [← same]

/--
Inversion of a call: the first loop sets the base, and the exit test has read
the slot that `nextseq` counts.
-/
theorem sendpacket_cases
    {buffer : Buffer} {window : Int} {counters : Counters}
    {result : SendResult}
    (call : sendpacket buffer window counters = some result) :
    ∃ started,
      retransmit buffer counters.nextseq
          (counters.nextseq - counters.base).toNat counters.base
          counters.base counters = some (started, result.resent) ∧
        result.counters.base = started.base ∧
        result.counters.nextseq < 100 := by
  simp only [sendpacket] at call
  split at call
  · cases call
  · next started _ first =>
      split at call
      · cases call
      · next sent =>
          split at call
          · cases call
          · next read =>
              cases call
              refine ⟨started, first, ?_⟩
              rw [transmit_counters rfl sent]
              refine ⟨rfl, ?_⟩
              by_contra behind
              rw [readSlot_outside buffer (Int.not_lt.mp behind)] at read
              cases read

/-! ## Numbered buffers -/

/-- Slots `0 .. count - 1` carry their own number, the others are invalid. -/
structure Numbered (count : Nat) (buffer : Buffer) : Prop where
  valid : ∀ j : Fin 100, (j : Nat) < count → (buffer j).sno = (j : Nat)
  invalid : ∀ j : Fin 100, count ≤ (j : Nat) → (buffer j).sno = -1

theorem Prepared.numbered
    {file : List Byte} {buffer : Buffer}
    (prepared : Prepared file buffer) :
    Numbered (packetCount file) buffer where
  valid j inside := (prepared.filled j inside).sno
  invalid j outside := (prepared.invalid j outside).1

/-- Slot `k` of a buffer, for an index inside the block. -/
def slotAt (buffer : Buffer) (k : Nat) : Pack :=
  buffer (Fin.ofNat 100 k)

@[simp]
theorem slotAt_coe (buffer : Buffer) (j : Fin 100) :
    slotAt buffer j = buffer j := by
  simp [slotAt]

theorem slotAt_of_lt (buffer : Buffer) {k : Nat} (inside : k < 100) :
    slotAt buffer k = buffer ⟨k, inside⟩ :=
  slotAt_coe buffer ⟨k, inside⟩

theorem readSlot_of_lt (buffer : Buffer) {k : Nat} (inside : k < 100) :
    readSlot buffer (k : Int) = some (slotAt buffer k) := by
  rw [slotAt_of_lt buffer inside]
  exact readSlot_coe buffer ⟨k, inside⟩

namespace Numbered

variable {count : Nat} {buffer : Buffer}

theorem sno_of_lt
    (numbered : Numbered count buffer)
    {k : Nat} (inside : k < count) (bound : k < 100) :
    (slotAt buffer k).sno = k := by
  rw [slotAt_of_lt buffer bound]
  exact numbered.valid ⟨k, bound⟩ inside

theorem sno_count
    (numbered : Numbered count buffer) (bound : count < 100) :
    (slotAt buffer count).sno = -1 := by
  rw [slotAt_of_lt buffer bound]
  exact numbered.invalid ⟨count, bound⟩ (Nat.le_refl _)

end Numbered

/-! ## Calls on a full block -/

/-- The call has this result, or the block is full and it leaves the block. -/
def Returns {α : Type*} (count : Nat) (call : Option α) (result : α) :
    Prop :=
  call = some result ∨ (call = none ∧ count = 100)

namespace Returns

variable {α β : Type*} {count : Nat} {call : Option α} {result : α}

theorem eq_some
    (returns : Returns count call result) (bounded : count ≤ 99) :
    call = some result := by
  rcases returns with defined | ⟨_, full⟩
  · exact defined
  · omega

theorem eq_of_some
    (returns : Returns count call result)
    {other : α} (defined : call = some other) :
    result = other := by
  rcases returns with same | ⟨outside, _⟩
  · rw [same] at defined
    exact Option.some.inj defined
  · rw [outside] at defined
    cases defined

theorem map
    (returns : Returns count call result) (f : α → β) :
    Returns count (call.map f) (f result) := by
  rcases returns with defined | ⟨outside, full⟩
  · exact Or.inl (by rw [defined]; rfl)
  · exact Or.inr ⟨by rw [outside]; rfl, full⟩

end Returns

/-! ## Effect of the loops -/

/-- The outstanding slots among `start .. start + length - 1`. -/
def unacknowledged (buffer : Buffer) (start length : Nat) : Nat :=
  (List.range' start length).countP
    fun k => (slotAt buffer k).ackno = -1

/-- The transmissions of slots `start .. start + length - 1`, in order. -/
def newTransmissions (buffer : Buffer) (base : Int)
    (start length : Nat) : List Transmission :=
  (List.range' start length).map
    fun (k : Nat) => ⟨⟨base, k⟩, slotAt buffer k⟩

/--
Once started, the first loop keeps the counters and sends slot `next` once for
every unacknowledged slot it passes.
-/
theorem retransmit_later
    (buffer : Buffer) (counters : Counters)
    {next : Int} {packet : Pack}
    (read : readSlot buffer next = some packet)
    {bas : Int} (started : bas ≠ -1)
    (passes i : Nat) (inside : i + passes ≤ 100) :
    retransmit buffer next passes i bas counters =
      some (counters,
        List.replicate (unacknowledged buffer i passes)
          ⟨counters, packet⟩) := by
  induction passes generalizing i with
  | zero => simp [retransmit, unacknowledged]
  | succ passes induction =>
      have tail := induction (i + 1) (by omega)
      push_cast at tail
      have tested := readSlot_of_lt buffer (k := i) (by omega)
      simp only [retransmit, if_neg started, tested, read, tail,
        Option.map_some]
      by_cases outstanding : (slotAt buffer i).ackno = -1
      · simp [unacknowledged, List.range'_succ, outstanding,
          List.replicate_succ]
      · simp [unacknowledged, List.range'_succ, outstanding]

/-- The first loop of a call on any later counters. -/
theorem retransmit_started
    (buffer : Buffer) (base : Nat) {nextseq : Nat}
    (inside : nextseq < 100) :
    retransmit buffer nextseq ((nextseq : Int) - base).toNat base base
        ⟨base, nextseq⟩ =
      some (⟨base, nextseq⟩,
        List.replicate (unacknowledged buffer base (nextseq - base))
          ⟨⟨base, nextseq⟩, slotAt buffer nextseq⟩) := by
  have passes : ((nextseq : Int) - base).toNat = nextseq - base := by
    omega
  rw [passes]
  rcases Nat.lt_or_ge nextseq base with passed | waiting
  · have nothingLeft : nextseq - base = 0 := by omega
    simp [nothingLeft, retransmit, unacknowledged]
  · exact retransmit_later buffer ⟨base, nextseq⟩
      (readSlot_of_lt buffer inside) (show (base : Int) ≠ -1 by omega)
      (nextseq - base) base (by omega)

/--
The second loop sends the packets from `next` up to the end of the window or
of the file, whichever comes first.
-/
theorem transmit_spec
    {count : Nat} {buffer : Buffer}
    (numbered : Numbered count buffer) (bounded : count ≤ 100)
    (window base : Int) (passes next : Nat)
    (inside : next ≤ count) (enough : count - next < passes) :
    ∃ stop : Nat,
      (stop : Int) = max (next : Int) (min (base + window) count) ∧
        Returns count (transmit buffer window passes next ⟨base, next⟩)
          ((stop : Int), ⟨base, stop⟩,
            newTransmissions buffer base next (stop - next)) := by
  induction passes generalizing next with
  | zero => omega
  | succ passes induction =>
      by_cases opened : (next : Int) - base < window
      · by_cases last : next = count
        · subst last
          refine ⟨next, by omega, ?_⟩
          by_cases full : next = 100
          · right
            have outside := readSlot_outside buffer
              (show (100 : Int) ≤ next by omega)
            exact ⟨by simp [transmit, opened, outside], full⟩
          · left
            have read := readSlot_of_lt buffer (k := next) (by omega)
            have sno := numbered.sno_count (by omega)
            simp [transmit, opened, read, sno, newTransmissions]
        · have read := readSlot_of_lt buffer (k := next) (by omega)
          have sno :=
            numbered.sno_of_lt (k := next) (by omega) (by omega)
          have valid : (slotAt buffer next).sno ≠ -1 := by omega
          obtain ⟨stop, reached, tail⟩ :=
            induction (next + 1) (by omega) (by omega)
          push_cast at tail
          refine ⟨stop, by omega, ?_⟩
          have length : stop - next = (stop - (next + 1)) + 1 := by
            omega
          simp only [transmit, opened, if_true, read, ne_eq, valid,
            not_false_eq_true, length, newTransmissions,
            List.range'_succ, List.map_cons]
          exact tail.map fun final =>
            (final.1, final.2.1, ⟨⟨base, next⟩, slotAt buffer next⟩ ::
              final.2.2)
      · refine ⟨next, by omega, Or.inl ?_⟩
        simp [transmit, opened, newTransmissions]

/-! ## Effect of a call -/

section Call

variable
    {count : Nat} {buffer : Buffer}
    (numbered : Numbered count buffer)
    (bounded : count ≤ 100)
    (window : Int)

include numbered bounded

/-- The exit test reads the slot behind the last transmitted packet. -/
theorem exit_test
    (stop : Nat) (inside : stop ≤ count) :
    Returns count
      ((readSlot buffer stop).map fun last => decide (last.sno = -1))
      (decide (stop = count)) := by
  by_cases full : stop = 100
  · right
    rw [readSlot_outside buffer (by omega)]
    exact ⟨rfl, by omega⟩
  · left
    rw [readSlot_of_lt buffer (by omega), Option.map_some]
    by_cases final : stop = count
    · subst final
      simp [numbered.sno_count (by omega)]
    · have sno := numbered.sno_of_lt (k := stop) (by omega) (by omega)
      simp only [sno, final, Option.some.injEq, decide_eq_decide,
        iff_false]
      omega

/-- Behind the first loop a call is the second loop and the exit test. -/
theorem sendpacket_returns
    {bas next : Int} {base start : Nat} {resent : List Transmission}
    (first : retransmit buffer next (next - bas).toNat bas bas
      ⟨bas, next⟩ = some (⟨base, start⟩, resent))
    (inside : start ≤ count) :
    ∃ stop : Nat,
      (stop : Int) = max (start : Int) (min (base + window) count) ∧
        Returns count (sendpacket buffer window ⟨bas, next⟩)
          { counters := ⟨base, stop⟩
            resent := resent
            fresh := newTransmissions buffer base start (stop - start)
            exits := decide (stop = count) } := by
  obtain ⟨stop, reached, fresh⟩ :=
    transmit_spec numbered bounded window base 101 start inside
      (by omega)
  refine ⟨stop, reached, ?_⟩
  rcases fresh with fresh | ⟨outside, full⟩
  · have exits := (exit_test numbered bounded stop (by omega)).map
      fun exits => SendResult.mk ⟨base, stop⟩ resent
        (newTransmissions buffer base start (stop - start)) exits
    rw [Option.map_map] at exits
    cases read : readSlot buffer stop with
    | none =>
        rw [read] at exits
        simpa [sendpacket, first, fresh, read] using exits
    | some last =>
        rw [read] at exits
        simpa [sendpacket, first, fresh, read] using exits
  · right
    exact ⟨by simp [sendpacket, first, outside], full⟩

/-- The call that finds the initial counters. -/
theorem sendpacket_first (nonempty : 0 < count) :
    ∃ stop : Nat,
      (stop : Int) = max 1 (min window count) ∧
        Returns count (sendpacket buffer window ⟨-1, 0⟩)
          { counters := ⟨0, stop⟩
            resent := [⟨⟨-1, 0⟩, slotAt buffer 0⟩]
            fresh := newTransmissions buffer 0 1 (stop - 1)
            exits := decide (stop = count) } := by
  have first : retransmit buffer 0 (0 - -1 : Int).toNat (-1) (-1)
      ⟨-1, 0⟩ =
        some (⟨(0 : Nat), (1 : Nat)⟩,
          [⟨⟨-1, 0⟩, slotAt buffer 0⟩]) := by
    have read := readSlot_of_lt buffer (k := 0) (by omega)
    push_cast at read
    simp [retransmit, read]
  simpa using sendpacket_returns numbered bounded window first nonempty

/-- The call on any later counters. -/
theorem sendpacket_later
    (base : Nat) {nextseq : Nat} (nextInside : nextseq < count) :
    ∃ stop : Nat,
      (stop : Int) =
          max (nextseq : Int) (min (base + window) count) ∧
        Returns count (sendpacket buffer window ⟨base, nextseq⟩)
          { counters := ⟨base, stop⟩
            resent :=
              List.replicate
                (unacknowledged buffer base (nextseq - base))
                ⟨⟨base, nextseq⟩, slotAt buffer nextseq⟩
            fresh :=
              newTransmissions buffer base nextseq (stop - nextseq)
            exits := decide (stop = count) } := by
  have resent := retransmit_started buffer base
    (show nextseq < 100 by omega)
  exact sendpacket_returns numbered bounded window resent
    (Nat.le_of_lt nextInside)

end Call

end NetworkingLab.SelectiveRepeat
