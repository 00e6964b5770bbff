import NetworkingLab.Foundation.InOrder
import NetworkingLab.SelectiveRepeat.Peer

/-!
# The invariant of a sending peer

`SenderInv packets count announced sender` relates a sender to the buffer
`packets` it started from.  The number `announced` counts the packets that
have been put on the wire at least once; they are `0 .. announced - 1`,
although the retransmission loop may put packet `nextseq` on the wire before
it is counted, so `announced` is `nextseq` or one more.  Because only announced
packets are acknowledged, the base can pass `nextseq` by at most one.

`SenderInv.send` and `SenderInv.receiveAck` are the step lemmas: neither
operation leaves the buffer unless the packets fill all of it, both keep the
invariant, and the packs sent by a call announce the missing numbers in order.
-/

namespace NetworkingLab.SelectiveRepeat

open NetworkingLab.Foundation.InOrder

/-- A buffer that can be sent: numbered, terminated and not acknowledged. -/
structure Sendable (count : Nat) (packets : Buffer) : Prop
    extends Numbered count packets where
  nonempty : 0 < count
  bounded : count ≤ 100
  unmarked : ∀ j : Fin 100, (packets j).ackno = -1
  terminated : ∀ j : Fin 100, (j : Nat) < count →
    (packets j).payload.Terminated

theorem Prepared.sendable
    {file : List Foundation.CString.Byte} {buffer : Buffer}
    (prepared : Prepared file buffer)
    (bounded : packetCount file ≤ 100) :
    Sendable (packetCount file) buffer where
  toNumbered := prepared.numbered
  nonempty := packetCount_pos file
  bounded := bounded
  unmarked j := by
    by_cases inside : (j : Nat) < packetCount file
    · exact (prepared.filled j inside).ackno
    · exact (prepared.invalid j (by omega)).2
  terminated j inside := (prepared.filled j inside).terminated

/-- A pack that carries packet `number` of the sender. -/
structure CopyOf (packets : Buffer) (number : Nat) (packet : Pack) :
    Prop where
  sno : packet.sno = number
  payload : packet.payload = (slotAt packets number).payload
  mark : packet.ackno = 1 ∨ packet.ackno = -1

/-- A pack that its receiver will treat as data. -/
def Fresh (packet : Pack) : Prop :=
  packet.ackno = -1

/-- The counters of a sender that has made its first call. -/
structure StartedLaw (count announced base nextseq : Nat)
    (sender : Sender) : Prop where
  counters : sender.counters = ⟨base, nextseq⟩
  positive : 0 < nextseq
  below : ∀ j : Fin 100, (j : Nat) < base →
    (sender.datato j).ackno = 1
  atBase : ∀ j : Fin 100, (j : Nat) = base →
    (sender.datato j).ackno ≠ 1
  baseBound : base ≤ announced
  counted : nextseq ≤ announced
  early : announced ≤ nextseq + 1
  total : announced ≤ count
  windowed : nextseq = 1 ∨ (nextseq : Int) ≤ base + sender.window
  runs : sender.running = true ↔ nextseq < count

/-- The relation between the counters, the marks and the announced packets. -/
inductive CounterLaw (count announced : Nat) (sender : Sender) : Prop where
  | initial
      (counters : sender.counters = ⟨-1, 0⟩)
      (silent : announced = 0)
      (running : sender.running = true)
  | started
      (base nextseq : Nat)
      (law : StartedLaw count announced base nextseq sender)

/-- The invariant of a sender that started from `packets`. -/
structure SenderInv (packets : Buffer) (count announced : Nat)
    (sender : Sender) : Prop where
  slots : ∀ j : Fin 100,
    sender.datato j =
      { packets j with ackno := (sender.datato j).ackno }
  marks : ∀ j : Fin 100,
    (sender.datato j).ackno = 1 ∨ (sender.datato j).ackno = -1
  acked : ∀ j : Fin 100, (sender.datato j).ackno = 1 →
    (j : Nat) < announced
  law : CounterLaw count announced sender

namespace SenderInv

variable
    {packets : Buffer} {count announced : Nat} {sender : Sender}

theorem start
    (sendable : Sendable count packets) (window : Int) :
    SenderInv packets count 0 ⟨window, packets, ⟨-1, 0⟩, true⟩ where
  slots _ := rfl
  marks j := Or.inr (sendable.unmarked j)
  acked j marked := by
    have unmarked := sendable.unmarked j
    simp only at marked
    omega
  law := .initial rfl rfl rfl

theorem numbered
    (inv : SenderInv packets count announced sender)
    (sendable : Sendable count packets) :
    Numbered count sender.datato where
  valid j inside := by
    rw [inv.slots j]
    exact sendable.valid j inside
  invalid j outside := by
    rw [inv.slots j]
    exact sendable.invalid j outside

theorem announced_le
    (inv : SenderInv packets count announced sender) :
    announced ≤ count := by
  cases inv.law with
  | initial _ silent _ => omega
  | started _ _ law => exact law.total

/-- Every slot of the sender is a copy of the packet it started from. -/
theorem copy
    (inv : SenderInv packets count announced sender)
    (sendable : Sendable count packets)
    {number : Nat} (inside : number < count) :
    CopyOf packets number (slotAt sender.datato number) := by
  have bounded := sendable.bounded
  have slot := slotAt_of_lt sender.datato
    (show number < 100 by omega)
  constructor
  · exact (inv.numbered sendable).sno_of_lt inside (by omega)
  · rw [slot, inv.slots, slotAt_of_lt packets]
  · rw [slot]
    exact inv.marks _

/-- A packet that was never sent is not acknowledged. -/
theorem fresh
    (inv : SenderInv packets count announced sender)
    {number : Nat} (unsent : announced ≤ number) (bound : number < 100) :
    Fresh (slotAt sender.datato number) := by
  rw [slotAt_of_lt sender.datato bound]
  rcases inv.marks ⟨number, bound⟩ with marked | unmarked
  · have := inv.acked ⟨number, bound⟩ marked
    simp only at this
    omega
  · exact unmarked

/--
A sender that only moved its counters keeps the invariant when the new
counters obey the law.
-/
theorem withCounters
    (inv : SenderInv packets count announced sender)
    {later : Nat} (grown : announced ≤ later)
    {counters : Counters} {running : Bool}
    (law : CounterLaw count later
      { sender with counters := counters, running := running }) :
    SenderInv packets count later
      { sender with counters := counters, running := running } where
  slots := inv.slots
  marks := inv.marks
  acked j marked := Nat.lt_of_lt_of_le (inv.acked j marked) grown
  law := law

/-- The packs of a run of new transmissions. -/
theorem newTransmissions_announces
    (inv : SenderInv packets count announced sender)
    (sendable : Sendable count packets)
    {reached first : Nat} (base : Int) (length : Nat)
    (announcedLe : announced ≤ reached)
    (connected : first ≤ reached)
    (inside : first + length ≤ count) :
    Announces (CopyOf packets) Fresh reached
      ((newTransmissions sender.datato base first length).map
        Transmission.packet)
      (max reached (first + length)) := by
  have bounded := sendable.bounded
  rw [newTransmissions, List.map_map]
  apply Announces.run length connected
  · intro number _ upper
    exact inv.copy sendable (by omega)
  · intro number lower upper
    exact inv.fresh (by omega) (by omega)

/-- Step lemma for the first call of `sendpacket`. -/
theorem send_first
    (inv : SenderInv packets count 0 sender)
    (sendable : Sendable count packets)
    (counters : sender.counters = ⟨-1, 0⟩) :
    ∃ next sent later,
      Returns count sender.send (next, sent) ∧
        SenderInv packets count later next ∧
        Announces (CopyOf packets) Fresh 0
          (sent.map Transmission.packet) later := by
  have bounded := sendable.bounded
  have nonempty := sendable.nonempty
  rcases sendpacket_first (inv.numbered sendable) bounded
      sender.window nonempty with ⟨stop, reached, call⟩
  have firstCopy : CopyOf packets 0 (slotAt sender.datato 0) :=
    inv.copy sendable nonempty
  have firstFresh : Fresh (slotAt sender.datato 0) :=
    inv.fresh (Nat.le_refl 0) (by omega)
  have others :=
    inv.newTransmissions_announces sendable 0 (stop - 1)
      (Nat.zero_le 1) (Nat.le_refl 1) (by omega)
  have last : max 1 (1 + (stop - 1)) = stop := by omega
  rw [last] at others
  refine
    ⟨_, _, stop, Sender.send_returns counters call, ?_, ?_⟩
  · apply inv.withCounters (Nat.zero_le stop)
    refine .started 0 stop
      { counters := rfl
        positive := by omega
        below := ?_
        atBase := ?_
        baseBound := Nat.zero_le _
        counted := Nat.le_refl _
        early := by omega
        total := by omega
        windowed := by simp only; omega
        runs := ?_ }
    · intro j below
      omega
    · intro j _ marked
      have := inv.acked j marked
      omega
    · simp only [Bool.not_eq_true', decide_eq_false_iff_not]
      omega
  · exact .next firstCopy firstFresh others

/-- Step lemma for every later call of `sendpacket`. -/
theorem send_later
    (inv : SenderInv packets count announced sender)
    (sendable : Sendable count packets)
    {base nextseq : Nat}
    (law : StartedLaw count announced base nextseq sender)
    (unfinished : nextseq < count) :
    ∃ next sent later,
      Returns count sender.send (next, sent) ∧
        SenderInv packets count later next ∧
        Announces (CopyOf packets) Fresh announced
          (sent.map Transmission.packet) later := by
  have bounded := sendable.bounded
  have positive := law.positive
  have baseBound := law.baseBound
  have counted := law.counted
  have early := law.early
  have total := law.total
  have windowed := law.windowed
  rcases sendpacket_later (inv.numbered sendable) bounded
      sender.window base unfinished with
    ⟨stop, reached, call⟩
  have nextCopy := inv.copy sendable unfinished
  -- the first loop announces `nextseq` if it sends it and it is new
  have resent : ∃ middle,
      announced ≤ middle ∧ middle ≤ nextseq + 1 ∧ nextseq ≤ middle ∧
        Announces (CopyOf packets) Fresh announced
          (List.replicate
            (unacknowledged sender.datato base (nextseq - base))
            (slotAt sender.datato nextseq)) middle := by
    cases unacknowledged sender.datato base (nextseq - base) with
    | zero =>
        exact ⟨announced, Nat.le_refl _, early, counted, .nil _⟩
    | succ times =>
        by_cases known : nextseq < announced
        · exact ⟨announced, Nat.le_refl _, early, counted,
            Announces.replicate_known nextCopy known _⟩
        · have equal : announced = nextseq := by omega
          subst equal
          exact ⟨announced + 1, by omega, Nat.le_refl _, by omega,
            Announces.replicate_next nextCopy
              (inv.fresh (Nat.le_refl _) (by omega)) times⟩
  rcases resent with ⟨middle, grown, small, connected, resent⟩
  have others :=
    inv.newTransmissions_announces sendable base (stop - nextseq)
      grown connected (by omega)
  have last : nextseq + (stop - nextseq) = stop := by omega
  rw [last] at others
  refine
    ⟨_, _, max middle stop, Sender.send_returns law.counters call, ?_, ?_⟩
  · apply inv.withCounters (by omega)
    refine .started base stop
      { counters := rfl
        positive := by omega
        below := law.below
        atBase := law.atBase
        baseBound := by omega
        counted := by omega
        early := by omega
        total := by omega
        windowed := by simp only; omega
        runs := ?_ }
    simp only [Bool.not_eq_true', decide_eq_false_iff_not]
    omega
  · simp only [SendResult.sent, List.map_append, List.map_replicate]
    exact resent.append others

/--
Step lemma for `sendpacket`: a running sender that performs the call keeps the
invariant and announces packets in order.
-/
theorem send
    (inv : SenderInv packets count announced sender)
    (sendable : Sendable count packets)
    (running : sender.running = true) :
    ∃ next sent later,
      Returns count sender.send (next, sent) ∧
        SenderInv packets count later next ∧
        Announces (CopyOf packets) Fresh announced
          (sent.map Transmission.packet) later := by
  cases inv.law with
  | initial counters silent _ =>
      subst silent
      exact inv.send_first sendable counters
  | started base nextseq law =>
      exact inv.send_later sendable law (law.runs.mp running)

/--
Step lemma for `ackprocess`: an acknowledgement of an announced packet marks
that packet and no other.
-/
theorem receiveAck
    (inv : SenderInv packets count announced sender)
    (sendable : Sendable count packets)
    {packet : Pack} {j : Fin 100}
    (number : packet.ackno = (j : Nat))
    (sent : (j : Nat) < announced) :
    ∃ next,
      sender.receiveAck packet = some next ∧
        SenderInv packets count announced next ∧
        next.datato = acknowledge sender.datato j ∧
        sender.counters.base ≤ next.counters.base ∧
        next.counters.nextseq = sender.counters.nextseq := by
  have bounded := sendable.bounded
  cases inv.law with
  | initial _ silent _ => omega
  | started base nextseq law =>
      have baseBound := law.baseBound
      have total := law.total
      have windowed := law.windowed
      rcases ackprocess_spec sender.datato j number
          (show base ≤ 100 by omega) with
        ⟨stop, call, grown, upper, run, atStop⟩
      refine
        ⟨_, by rw [Sender.receiveAck, law.counters, call]; rfl,
          ?_, rfl, by rw [law.counters]; simp only; omega,
          by rw [law.counters]⟩
      have acked : ∀ k : Fin 100,
          (acknowledge sender.datato j k).ackno = 1 →
            (k : Nat) < announced := by
        intro k marked
        rw [acknowledge_ackno] at marked
        by_cases same : k = j
        · rw [same]
          exact sent
        · rw [if_neg same] at marked
          exact inv.acked k marked
      refine ⟨?_, ?_, acked, ?_⟩
      · intro k
        have slot := inv.slots k
        by_cases same : k = j
        · subst same
          simp only [acknowledge, Function.update_self]
          rw [slot]
        · simp only [acknowledge, Function.update_of_ne same]
          exact slot
      · intro k
        simp only [acknowledge_ackno]
        split_ifs
        · exact Or.inl rfl
        · exact inv.marks k
      · refine .started stop nextseq
          { counters := rfl
            positive := law.positive
            below := ?_
            atBase := atStop
            baseBound := ?_
            counted := law.counted
            early := law.early
            total := law.total
            windowed := by simp only; omega
            runs := law.runs }
        · intro k under
          by_cases old : (k : Nat) < base
          · simp only [acknowledge_ackno, law.below k old, ite_self]
          · exact run k (by omega) under
        · by_contra beyond
          have inside : stop - 1 < 100 := by omega
          have marked :=
            run ⟨stop - 1, inside⟩ (by simp only; omega)
              (by simp only; omega)
          have := acked ⟨stop - 1, inside⟩ marked
          simp only at this
          omega

end SenderInv

end NetworkingLab.SelectiveRepeat
