import NetworkingLab.Foundation.Delivery
import NetworkingLab.SelectiveRepeat.SenderInvariant

/-!
# One direction of a transfer

The part of two connected peers that moves one file: the sending side of one
peer, the buffer `datafrom` of the other, the data packs on their way to it
and the acknowledgements on their way back.  Both channels are lossless queues
of whole packs.

`TransferInv` ties the four parts together.  Its index is the abstract
progress of the delivery: the receiver holds exactly the first `delivered`
packets, and the queue of data packs announces, in order, the packets from
there to `announced`.  `step_refines` shows that every step of the direction
keeps the invariant and is a run of the abstract delivery.
-/

namespace NetworkingLab.SelectiveRepeat

open NetworkingLab.Foundation.InOrder
open NetworkingLab.Foundation.Delivery

/-- The state of one direction. -/
structure Transfer where
  sender : Sender
  datafrom : Buffer
  wire : List Pack
  acks : List Pack

/-- The steps of one direction. -/
inductive TransferStep : Transfer → Transfer → Prop where
  | send {state : Transfer} {sender : Sender}
      {sent : List Transmission}
      (running : state.sender.running = true)
      (call : state.sender.send = some (sender, sent)) :
      TransferStep state
        { state with
          sender := sender
          wire := state.wire ++ sent.map Transmission.packet }
  | ack {state : Transfer} {sender : Sender}
      {packet : Pack} {rest : List Pack}
      (arrival : state.acks = packet :: rest)
      (call : state.sender.receiveAck packet = some sender) :
      TransferStep state { state with sender := sender, acks := rest }
  | store {state : Transfer} {datafrom : Buffer}
      {packet : Pack} {rest : List Pack} (junk : Payload)
      (arrival : state.wire = packet :: rest)
      (data : packet.ackno = -1)
      (call : dataprocess packet state.datafrom = some datafrom) :
      TransferStep state
        { state with
          datafrom := datafrom
          wire := rest
          acks := state.acks ++ [ackpacket junk packet] }
  | skip {state : Transfer} {packet : Pack} {rest : List Pack}
      (arrival : state.wire = packet :: rest)
      (marked : packet.ackno ≠ -1) :
      TransferStep state { state with wire := rest }

/-! ## The invariant -/

/-- An acknowledgement of one of the first `delivered` packets. -/
def AckBelow (delivered : Nat) (packet : Pack) : Prop :=
  packet.sno = -1 ∧ ∃ j : Fin 100,
    packet.ackno = (j : Nat) ∧ (j : Nat) < delivered

/-- The buffer holds exactly the first `delivered` packets. -/
structure Holds (packets : Buffer) (delivered : Nat) (datafrom : Buffer) :
    Prop where
  filled : ∀ j : Fin 100,
    (datafrom j).ackno = 1 ↔ (j : Nat) < delivered
  texts : ∀ j : Fin 100, (j : Nat) < delivered →
    (datafrom j).payload.text = (packets j).payload.text

/-- The invariant of one direction, at an abstract progress. -/
structure TransferInv (packets : Buffer) {count : Nat}
    (progress : Progress count) (state : Transfer) : Prop where
  sender : SenderInv packets count progress.announced state.sender
  wire : Announces (CopyOf packets) Fresh progress.delivered
    state.wire progress.announced
  holds : Holds packets progress.delivered state.datafrom
  acks : ∀ packet ∈ state.acks, AckBelow progress.delivered packet
  acked : ∀ j : Fin 100, (state.sender.datato j).ackno = 1 →
    (j : Nat) < progress.delivered

theorem AckBelow.mono
    {few many : Nat} (le : few ≤ many) {packet : Pack}
    (below : AckBelow few packet) :
    AckBelow many packet := by
  rcases below with ⟨tag, j, number, inside⟩
  exact ⟨tag, j, number, inside.trans_le le⟩

theorem Holds.of_makeinvalid (packets memory : Buffer) :
    Holds packets 0 (makeinvalid memory) where
  filled j := by simp
  texts j inside := by omega

namespace TransferInv

variable
    {packets : Buffer} {count : Nat} {progress : Progress count}
    {state : Transfer}

theorem start
    (sendable : Sendable count packets) (window : Int) (memory : Buffer) :
    TransferInv packets (Progress.start count)
      ⟨⟨window, packets, ⟨-1, 0⟩, true⟩, makeinvalid memory, [], []⟩ where
  sender := SenderInv.start sendable window
  wire := .nil 0
  holds := Holds.of_makeinvalid packets memory
  acks := by simp
  acked j marked := by
    have unmarked := sendable.unmarked j
    simp only at marked
    omega

/-- A queued data pack carries a packet of the sender. -/
theorem wire_copy
    (inv : TransferInv packets progress state)
    {packet : Pack} (member : packet ∈ state.wire) :
    ∃ number < count, CopyOf packets number packet := by
  rcases inv.wire.copy_of_mem member with ⟨number, sent, copy⟩
  exact ⟨number, sent.trans_le progress.bounded, copy⟩

/-- Step lemma for `sendpacket`. -/
theorem send
    (inv : TransferInv packets progress state)
    (sendable : Sendable count packets)
    {sender : Sender} {sent : List Transmission}
    (running : state.sender.running = true)
    (call : state.sender.send = some (sender, sent)) :
    ∃ later : Progress count,
      Progress.Reaches progress later ∧
        TransferInv packets later
          { state with
            sender := sender
            wire := state.wire ++ sent.map Transmission.packet } := by
  rcases inv.sender.send sendable running with
    ⟨next, packs, announced, returns, senderInv, announces⟩
  cases returns.eq_of_some call
  have grows := announces.le
  have bounded := senderInv.announced_le
  refine ⟨_, .single (.announce progress announced grows bounded), ?_⟩
  exact
    { sender := senderInv
      wire := inv.wire.append announces
      holds := inv.holds
      acks := inv.acks
      acked := by
        rw [Sender.send_datato call]
        exact inv.acked }

/-- Step lemma for `ackprocess`. -/
theorem ack
    (inv : TransferInv packets progress state)
    (sendable : Sendable count packets)
    {packet : Pack} {rest : List Pack} {sender : Sender}
    (arrival : state.acks = packet :: rest)
    (call : state.sender.receiveAck packet = some sender) :
    TransferInv packets progress
      { state with sender := sender, acks := rest } := by
  have head : AckBelow progress.delivered packet :=
    inv.acks packet (by simp [arrival])
  rcases head with ⟨_, j, number, stored⟩
  rcases inv.sender.receiveAck sendable number
      (stored.trans_le progress.ordered) with
    ⟨next, defined, senderInv, datato, _⟩
  rw [call] at defined
  cases defined
  refine
    { sender := senderInv
      wire := inv.wire
      holds := inv.holds
      acks := ?_
      acked := ?_ }
  · intro later member
    exact inv.acks later (by simp [arrival, member])
  · intro k marked
    simp only [datato, acknowledge_ackno] at marked
    by_cases same : k = j
    · rw [same]
      exact stored
    · rw [if_neg same] at marked
      exact inv.acked k marked

/-- Storing the next packet extends what the buffer holds. -/
theorem holds_next
    {delivered : Nat} {datafrom stored : Buffer}
    (holds : Holds packets delivered datafrom)
    {j : Fin 100} (next : (j : Nat) = delivered)
    (filled : (stored j).ackno = 1)
    (others : ∀ k : Fin 100, k ≠ j → stored k = datafrom k)
    (text : (stored j).payload.text = (packets j).payload.text) :
    Holds packets (delivered + 1) stored where
  filled k := by
    by_cases same : k = j
    · subst same
      simp only [filled, true_iff]
      omega
    · have different : (k : Nat) ≠ delivered := by
        intro equal
        exact same (Fin.ext (equal.trans next.symm))
      rw [others k same, holds.filled k]
      omega
  texts k inside := by
    by_cases same : k = j
    · rw [same]
      exact text
    · have different : (k : Nat) ≠ delivered := by
        intro equal
        exact same (Fin.ext (equal.trans next.symm))
      rw [others k same]
      exact holds.texts k (by omega)

/-- Step lemma for `dataprocess` and its acknowledgement. -/
theorem store
    (inv : TransferInv packets progress state)
    {packet : Pack} {rest : List Pack} {datafrom : Buffer}
    (junk : Payload)
    (arrival : state.wire = packet :: rest)
    (call : dataprocess packet state.datafrom = some datafrom) :
    ∃ later : Progress count,
      Progress.Reaches progress later ∧
        TransferInv packets later
          { state with
            datafrom := datafrom
            wire := rest
            acks := state.acks ++ [ackpacket junk packet] } := by
  have wire := inv.wire
  rw [arrival] at wire
  rcases dataprocess_cases call with ⟨j, number, filled, others, kept⟩
  cases wire with
  | @again _ _ repeated _ _ copy known tail =>
      -- an announced packet: its slot is filled, nothing is stored
      have slot : (j : Nat) = repeated := by
        have := copy.sno
        omega
      have already : (state.datafrom j).ackno = 1 := by
        rw [inv.holds.filled, slot]
        exact known
      have unchanged : datafrom = state.datafrom := by
        rcases kept with ⟨_, same⟩ | ⟨free, _⟩
        · exact same
        · exact (free already).elim
      refine ⟨progress, .refl, ?_⟩
      refine
        { sender := inv.sender
          wire := tail
          holds := by
            rw [unchanged]
            exact inv.holds
          acks := ?_
          acked := inv.acked }
      intro later member
      rcases List.mem_append.mp member with old | new
      · exact inv.acks later old
      · rw [List.mem_singleton] at new
        subst new
        exact ⟨rfl, j, number, by rw [slot]; exact known⟩
  | next copy first tail =>
      -- the packet after the delivered ones: it is stored
      have slot : (j : Nat) = progress.delivered := by
        have := copy.sno
        omega
      have free : (state.datafrom j).ackno ≠ 1 := by
        rw [Ne, inv.holds.filled, slot]
        exact Nat.lt_irrefl _
      have text : (datafrom j).payload.text =
          (packets j).payload.text := by
        rcases kept with ⟨taken, _⟩ | ⟨_, text⟩
        · exact (free taken).elim
        · rw [text, copy.payload, ← slot, slotAt_coe]
      have pending := tail.le
      refine ⟨_, .single (.deliver progress pending), ?_⟩
      refine
        { sender := inv.sender
          wire := tail
          holds := holds_next inv.holds slot filled others text
          acks := ?_
          acked := ?_ }
      · intro later member
        rcases List.mem_append.mp member with old | new
        · exact (inv.acks later old).mono (Nat.le_succ _)
        · rw [List.mem_singleton] at new
          subst new
          exact ⟨rfl, j, number, by rw [slot]; exact Nat.lt_succ_self _⟩
      · intro k marked
        exact (inv.acked k marked).trans (Nat.lt_succ_self _)

/-- Step lemma for a data pack that both tests of `main` ignore. -/
theorem skip
    (inv : TransferInv packets progress state)
    {packet : Pack} {rest : List Pack}
    (arrival : state.wire = packet :: rest)
    (marked : packet.ackno ≠ -1) :
    TransferInv packets progress { state with wire := rest } := by
  have wire := inv.wire
  rw [arrival] at wire
  cases wire with
  | again _ _ tail =>
      exact
        { sender := inv.sender
          wire := tail
          holds := inv.holds
          acks := inv.acks
          acked := inv.acked }
  | next _ first _ =>
      exact (marked first).elim

/--
Refinement: a step of the direction keeps the invariant and is matched by
abstract delivery steps.
-/
theorem step_refines
    (inv : TransferInv packets progress state)
    (sendable : Sendable count packets)
    {next : Transfer} (step : TransferStep state next) :
    ∃ later : Progress count,
      Progress.Reaches progress later ∧
        TransferInv packets later next := by
  cases step with
  | send running call => exact inv.send sendable running call
  | ack arrival call =>
      exact ⟨progress, .refl, inv.ack sendable arrival call⟩
  | store junk arrival _ call => exact inv.store junk arrival call
  | skip arrival marked =>
      exact ⟨progress, .refl, inv.skip arrival marked⟩

/-! ## Every step is defined -/

theorem send_defined
    (inv : TransferInv packets progress state)
    (sendable : Sendable count packets) (bounded : count ≤ 99)
    (running : state.sender.running = true) :
    ∃ result, state.sender.send = some result := by
  rcases inv.sender.send sendable running with
    ⟨next, packs, _, returns, _⟩
  exact ⟨(next, packs), returns.eq_some bounded⟩

theorem ack_defined
    (inv : TransferInv packets progress state)
    (sendable : Sendable count packets)
    {packet : Pack} {rest : List Pack}
    (arrival : state.acks = packet :: rest) :
    ∃ sender, state.sender.receiveAck packet = some sender := by
  have head : AckBelow progress.delivered packet :=
    inv.acks packet (by simp [arrival])
  rcases head with ⟨_, j, number, stored⟩
  rcases inv.sender.receiveAck sendable number
      (stored.trans_le progress.ordered) with ⟨next, defined, _⟩
  exact ⟨next, defined⟩

theorem store_defined
    (inv : TransferInv packets progress state)
    (sendable : Sendable count packets)
    {packet : Pack} {rest : List Pack}
    (arrival : state.wire = packet :: rest) :
    ∃ datafrom, dataprocess packet state.datafrom = some datafrom := by
  rcases inv.wire_copy (show packet ∈ state.wire by simp [arrival]) with
    ⟨number, inside, copy⟩
  have bound : number < 100 := by
    have := sendable.bounded
    omega
  have terminated : packet.payload.Terminated := by
    rw [copy.payload, slotAt_of_lt packets bound]
    exact sendable.terminated _ inside
  by_cases filled : (state.datafrom ⟨number, bound⟩).ackno = 1
  · exact ⟨_, dataprocess_duplicate (j := ⟨number, bound⟩)
      copy.sno filled⟩
  · rcases dataprocess_store (j := ⟨number, bound⟩)
        copy.sno filled terminated with ⟨_, _, defined⟩
    exact ⟨_, defined⟩

end TransferInv

end NetworkingLab.SelectiveRepeat
