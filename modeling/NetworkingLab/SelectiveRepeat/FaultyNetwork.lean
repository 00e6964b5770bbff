import NetworkingLab.SelectiveRepeat.EndToEnd
import NetworkingLab.SelectiveRepeat.WindowSafety

/-!
# The transfer over a network that loses, repeats and reorders

Selective repeat is meant for a network that may drop a packet, deliver it
twice or deliver it late.  Here the sender and the receiver of one direction
are joined by such a network: whatever is in flight may arrive, in any order
and any number of times, and any part of it may be lost.

The safety half of the protocol does not need the queues
(`faulty_network_safe`): the receiver never holds anything but the sender's
packets under their own numbers, and the sender never counts a packet as
acknowledged that is not stored.  The other half fails.  The retransmission
loop sends the slot `nextseq` in place of the unacknowledged one, so a packet
of which no copy is left is never sent again (`lost_packet_not_recovered`).
-/

namespace NetworkingLab.SelectiveRepeat

open NetworkingLab.Foundation.CString
open NetworkingLab.Foundation.Delivery
open Relation (ReflTransGen)

/--
The steps of one direction over a faulty network.  A pack that arrives stays
in flight and may arrive again; `lose` drops any packs in flight.
-/
inductive FaultyStep : Transfer → Transfer → Prop where
  | send {state : Transfer} {sender : Sender}
      {sent : List Transmission}
      (running : state.sender.running = true)
      (call : state.sender.send = some (sender, sent)) :
      FaultyStep state
        { state with
          sender := sender
          wire := state.wire ++ sent.map Transmission.packet }
  | ack {state : Transfer} {sender : Sender} {packet : Pack}
      (running : state.sender.running = true)
      (arrival : packet ∈ state.acks)
      (call : state.sender.receiveAck packet = some sender) :
      FaultyStep state { state with sender := sender }
  | store {state : Transfer} {datafrom : Buffer} {packet : Pack}
      (junk : Payload)
      (arrival : packet ∈ state.wire)
      (data : packet.ackno = -1)
      (call : dataprocess packet state.datafrom = some datafrom) :
      FaultyStep state
        { state with
          datafrom := datafrom
          acks := state.acks ++ [ackpacket junk packet] }
  | lose {state : Transfer} {wire acks : List Pack}
      (wireLeft : wire.Sublist state.wire)
      (acksLeft : acks.Sublist state.acks) :
      FaultyStep state { state with wire := wire, acks := acks }

/-- The states a faulty network can lead one direction to. -/
def FaultyReaches : Transfer → Transfer → Prop :=
  ReflTransGen FaultyStep

/-- One direction before its first step. -/
def Transfer.start (sender : Sender) (memory : Buffer) : Transfer :=
  ⟨sender, makeinvalid memory, [], []⟩

/-! ## Computed steps -/

/-- A choice of the network and of the two peers. -/
inductive FaultyInput where
  | send
  | ack (index : Nat)
  | store (index : Nat)
  | loseData (index : Nat)
  | loseAck (index : Nat)

def Transfer.faultyStep (state : Transfer) :
    FaultyInput → Option Transfer
  | .send =>
      if state.sender.running then
        state.sender.send.map fun result =>
          { state with
            sender := result.1
            wire := state.wire ++ result.2.map Transmission.packet }
      else
        none
  | .ack index =>
      if state.sender.running then
        state.acks[index]?.bind fun packet =>
          (state.sender.receiveAck packet).map fun sender =>
            { state with sender := sender }
      else
        none
  | .store index =>
      state.wire[index]?.bind fun packet =>
        if packet.ackno = -1 then
          (dataprocess packet state.datafrom).map fun datafrom =>
            { state with
              datafrom := datafrom
              acks := state.acks ++ [ackpacket zeroPayload packet] }
        else
          none
  | .loseData index =>
      some { state with wire := state.wire.eraseIdx index }
  | .loseAck index =>
      some { state with acks := state.acks.eraseIdx index }

theorem Transfer.faultyStep_sound
    {state next : Transfer} {input : FaultyInput}
    (computed : state.faultyStep input = some next) :
    FaultyStep state next := by
  cases input with
  | send =>
      simp only [faultyStep] at computed
      split at computed
      · next running =>
          simp only [Option.map_eq_some_iff] at computed
          rcases computed with ⟨⟨sender, sent⟩, call, rfl⟩
          exact .send running call
      · cases computed
  | ack index =>
      simp only [faultyStep] at computed
      split at computed
      · next running =>
          simp only [Option.bind_eq_some_iff, Option.map_eq_some_iff]
            at computed
          rcases computed with ⟨packet, found, sender, call, rfl⟩
          exact .ack running (List.mem_of_getElem? found) call
      · cases computed
  | store index =>
      simp only [faultyStep, Option.bind_eq_some_iff] at computed
      rcases computed with ⟨packet, found, stored⟩
      split at stored
      · next data =>
          simp only [Option.map_eq_some_iff] at stored
          rcases stored with ⟨datafrom, call, rfl⟩
          exact .store zeroPayload (List.mem_of_getElem? found) data call
      · cases stored
  | loseData index =>
      cases computed
      exact .lose (List.eraseIdx_sublist _ _) (List.Sublist.refl _)
  | loseAck index =>
      cases computed
      exact .lose (List.Sublist.refl _) (List.eraseIdx_sublist _ _)

/-- Perform the inputs in order. -/
def Transfer.faultyRun (state : Transfer) :
    List FaultyInput → Option Transfer
  | [] => some state
  | input :: inputs =>
      (state.faultyStep input).bind fun next => next.faultyRun inputs

theorem Transfer.faultyRun_reaches
    {state final : Transfer} {inputs : List FaultyInput}
    (computed : state.faultyRun inputs = some final) :
    FaultyReaches state final := by
  induction inputs generalizing state with
  | nil =>
      cases computed
      exact .refl
  | cons input inputs induction =>
      simp only [faultyRun, Option.bind_eq_some_iff] at computed
      rcases computed with ⟨next, stepped, ran⟩
      exact .head (faultyStep_sound stepped) (induction ran)

/-! ## The invariant -/

/-- What no behaviour of the network can break. -/
structure FaultyInv (packets : Buffer) (count announced : Nat)
    (state : Transfer) : Prop where
  sender : SenderInv packets count announced state.sender
  wire : ∀ packet ∈ state.wire,
    ∃ number < announced, CopyOf packets number packet
  stored : ∀ j : Fin 100, (state.datafrom j).ackno = 1 →
    (j : Nat) < announced ∧
      (state.datafrom j).payload.text = (packets j).payload.text
  acks : ∀ packet ∈ state.acks, ∃ j : Fin 100,
    packet.ackno = (j : Nat) ∧ (state.datafrom j).ackno = 1
  acked : ∀ j : Fin 100, (state.sender.datato j).ackno = 1 →
    (state.datafrom j).ackno = 1

namespace FaultyInv

variable
    {packets : Buffer} {count announced : Nat} {state : Transfer}

theorem start
    (sendable : Sendable count packets) (window : Int) (memory : Buffer) :
    FaultyInv packets count 0
      (Transfer.start ⟨window, packets, ⟨-1, 0⟩, true⟩ memory) where
  sender := SenderInv.start sendable window
  wire := by simp [Transfer.start]
  stored j filled := by
    simp [Transfer.start, makeinvalid] at filled
  acks := by simp [Transfer.start]
  acked j marked := by
    have unmarked := sendable.unmarked j
    simp only [Transfer.start] at marked
    omega

theorem send
    (inv : FaultyInv packets count announced state)
    (sendable : Sendable count packets)
    {sender : Sender} {sent : List Transmission}
    (running : state.sender.running = true)
    (call : state.sender.send = some (sender, sent)) :
    ∃ later, FaultyInv packets count later
      { state with
        sender := sender
        wire := state.wire ++ sent.map Transmission.packet } := by
  rcases inv.sender.send sendable running with
    ⟨next, packs, later, returns, senderInv, announces⟩
  cases returns.eq_of_some call
  have grows := announces.le
  refine
    ⟨later,
      { sender := senderInv
        wire := ?_
        stored := ?_
        acks := inv.acks
        acked := ?_ }⟩
  · intro packet member
    rcases List.mem_append.mp member with old | new
    · rcases inv.wire packet old with ⟨number, below, copy⟩
      exact ⟨number, below.trans_le grows, copy⟩
    · exact announces.copy_of_mem new
  · intro j filled
    rcases inv.stored j filled with ⟨below, text⟩
    exact ⟨below.trans_le grows, text⟩
  · intro j marked
    rw [Sender.send_datato call] at marked
    exact inv.acked j marked

theorem ack
    (inv : FaultyInv packets count announced state)
    (sendable : Sendable count packets)
    {packet : Pack} {sender : Sender}
    (arrival : packet ∈ state.acks)
    (call : state.sender.receiveAck packet = some sender) :
    FaultyInv packets count announced { state with sender := sender } := by
  rcases inv.acks packet arrival with ⟨j, number, filled⟩
  rcases inv.sender.receiveAck sendable number
      (inv.stored j filled).1 with
    ⟨next, defined, senderInv, datato, _⟩
  rw [call] at defined
  cases defined
  refine
    { sender := senderInv
      wire := inv.wire
      stored := inv.stored
      acks := inv.acks
      acked := ?_ }
  intro k marked
  simp only [datato, acknowledge_ackno] at marked
  by_cases same : k = j
  · rw [same]
    exact filled
  · rw [if_neg same] at marked
    exact inv.acked k marked

theorem store
    (inv : FaultyInv packets count announced state)
    {packet : Pack} {datafrom : Buffer} (junk : Payload)
    (arrival : packet ∈ state.wire)
    (call : dataprocess packet state.datafrom = some datafrom) :
    FaultyInv packets count announced
      { state with
        datafrom := datafrom
        acks := state.acks ++ [ackpacket junk packet] } := by
  rcases inv.wire packet arrival with ⟨number, sent, copy⟩
  rcases dataprocess_cases call with ⟨j, slot, filled, others, kept⟩
  have same : (j : Nat) = number := by
    have := copy.sno
    omega
  -- a slot that was filled stays filled, and its text stays
  have grown : ∀ k : Fin 100, (state.datafrom k).ackno = 1 →
      (datafrom k).ackno = 1 := by
    intro k earlier
    by_cases this : k = j
    · rw [this]
      exact filled
    · rw [others k this]
      exact earlier
  refine
    { sender := inv.sender
      wire := inv.wire
      stored := ?_
      acks := ?_
      acked := fun k marked => grown k (inv.acked k marked) }
  · intro k now
    by_cases this : k = j
    · subst this
      refine ⟨by omega, ?_⟩
      rcases kept with ⟨earlier, unchanged⟩ | ⟨_, text⟩
      · simp only [unchanged]
        exact (inv.stored k earlier).2
      · simp only [text, copy.payload, ← same, slotAt_coe]
    · simp only [others k this] at now ⊢
      exact inv.stored k now
  · intro reply member
    rcases List.mem_append.mp member with old | new
    · rcases inv.acks reply old with ⟨k, tag, earlier⟩
      exact ⟨k, tag, grown k earlier⟩
    · rw [List.mem_singleton] at new
      subst new
      exact ⟨j, slot, filled⟩

theorem lose
    (inv : FaultyInv packets count announced state)
    {wire acks : List Pack}
    (wireLeft : wire.Sublist state.wire)
    (acksLeft : acks.Sublist state.acks) :
    FaultyInv packets count announced
      { state with wire := wire, acks := acks } where
  sender := inv.sender
  wire packet member := inv.wire packet (wireLeft.subset member)
  stored := inv.stored
  acks packet member := inv.acks packet (acksLeft.subset member)
  acked := inv.acked

theorem step
    (inv : FaultyInv packets count announced state)
    (sendable : Sendable count packets)
    {next : Transfer} (step : FaultyStep state next) :
    ∃ later, FaultyInv packets count later next := by
  cases step with
  | send running call => exact inv.send sendable running call
  | ack _ arrival call => exact ⟨_, inv.ack sendable arrival call⟩
  | store junk arrival _ call => exact ⟨_, inv.store junk arrival call⟩
  | lose wireLeft acksLeft => exact ⟨_, inv.lose wireLeft acksLeft⟩

theorem reaches
    (sendable : Sendable count packets)
    (inv : FaultyInv packets count announced state)
    {later : Transfer} (reaches : FaultyReaches state later) :
    ∃ now, FaultyInv packets count now later := by
  induction reaches with
  | refl => exact ⟨_, inv⟩
  | tail _ move induction =>
      rcases induction with ⟨_, held⟩
      exact held.step sendable move

end FaultyInv

/-! ## Safety -/

/-- Handling a copy of a packet stays inside the block and its slot. -/
theorem CopyOf.dataprocess_defined
    {packets : Buffer} {count number : Nat} {packet : Pack}
    (sendable : Sendable count packets)
    (copy : CopyOf packets number packet) (inside : number < count)
    (datafrom : Buffer) :
    ∃ stored, dataprocess packet datafrom = some stored := by
  have bound : number < 100 := by
    have := sendable.bounded
    omega
  have terminated : packet.payload.Terminated := by
    rw [copy.payload, slotAt_of_lt packets bound]
    exact sendable.terminated _ inside
  by_cases filled : (datafrom ⟨number, bound⟩).ackno = 1
  · exact ⟨_, dataprocess_duplicate (j := ⟨number, bound⟩)
      copy.sno filled⟩
  · rcases dataprocess_store (j := ⟨number, bound⟩)
        copy.sno filled terminated with ⟨_, _, defined⟩
    exact ⟨_, defined⟩

/-- What a transfer keeps over a network that may do anything but forge. -/
structure FaultySafe (file : List Byte) (state : Transfer) : Prop where
  stored : ∀ j : Fin 100, (state.datafrom j).ackno = 1 →
    (j : Nat) < packetCount file ∧
      (state.datafrom j).payload.text = chunk file j
  complete :
    (∀ j : Fin 100, (j : Nat) < packetCount file →
      (state.datafrom j).ackno = 1) →
    storedText state.datafrom = file
  acked : ∀ j : Fin 100, (state.sender.datato j).ackno = 1 →
    (state.datafrom j).ackno = 1
  below : ∀ j : Fin 100,
    ((j : Nat) : Int) < state.sender.counters.base →
    (state.datafrom j).ackno = 1
  sends : state.sender.running = true →
    ∃ result, state.sender.send = some result
  takesData : ∀ packet ∈ state.wire, ∃ datafrom,
    dataprocess packet state.datafrom = some datafrom
  takesAcks : ∀ packet ∈ state.acks, ∃ sender,
    state.sender.receiveAck packet = some sender

/-- Every slot below the base is marked. -/
theorem SenderInv.marked_below
    {packets : Buffer} {count announced : Nat} {sender : Sender}
    (inv : SenderInv packets count announced sender)
    {j : Fin 100} (below : ((j : Nat) : Int) < sender.counters.base) :
    (sender.datato j).ackno = 1 := by
  cases inv.law with
  | initial counters _ _ =>
      rw [counters] at below
      simp only at below
      omega
  | started base nextseq law =>
      rw [law.counters] at below
      exact law.below j (by simpa using below)

theorem FaultyInv.safe
    {file : List Byte} {packets : Buffer} {announced : Nat}
    {state : Transfer}
    (inv : FaultyInv packets (packetCount file) announced state)
    (prepared : Prepared file packets) (text : NulFree file)
    (bounded : packetCount file ≤ 99) :
    FaultySafe file state := by
  have sendable := prepared.sendable (show packetCount file ≤ 100 by omega)
  have total := inv.sender.announced_le
  constructor
  · intro j filled
    rcases inv.stored j filled with ⟨below, same⟩
    have inside : (j : Nat) < packetCount file := by omega
    exact ⟨inside, same.trans (prepared.text_eq_chunk text inside)⟩
  · intro whole
    let progress : Progress (packetCount file) :=
      ⟨packetCount file, packetCount file, Nat.le_refl _, Nat.le_refl _⟩
    have holds :
        Holds packets progress.delivered state.datafrom :=
      { filled := fun j =>
          ⟨fun filled => (inv.stored j filled).1.trans_le total, whole j⟩
        texts := fun j inside => (inv.stored j (whole j inside)).2 }
    rw [holds.storedText_eq prepared (by omega) text,
      Progress.text_complete (by simp [chunks]) rfl, flatten_chunks]
  · exact inv.acked
  · intro j below
    exact inv.acked j (inv.sender.marked_below below)
  · intro running
    rcases inv.sender.send sendable running with
      ⟨next, packs, _, returns, _⟩
    exact ⟨(next, packs), returns.eq_some bounded⟩
  · intro packet member
    rcases inv.wire packet member with ⟨number, below, copy⟩
    exact copy.dataprocess_defined sendable (by omega) state.datafrom
  · intro packet member
    rcases inv.acks packet member with ⟨j, number, filled⟩
    rcases inv.sender.receiveAck sendable number
        (inv.stored j filled).1 with ⟨next, defined, _⟩
    exact ⟨next, defined⟩

/--
Over a network that loses, repeats and reorders packs at will, every filled
slot of the receiver holds that packet of the file, whatever is acknowledged
or below the base is stored, and no pack in flight can make a peer leave its
buffers.
-/
theorem faulty_network_safe
    (window : Int) (datato datafrom memory : Buffer)
    (file : List Byte) (text : NulFree file)
    (bounded : packetCount file ≤ 99) (sender : Peer)
    (started : Peer.start window datato datafrom file = some sender)
    (state : Transfer)
    (reaches :
      FaultyReaches (Transfer.start sender.toSender memory) state) :
    FaultySafe file state := by
  rcases Peer.start_cases started with ⟨packets, prepared, side, _⟩
  have sendable := prepared.sendable (show packetCount file ≤ 100 by omega)
  rw [side] at reaches
  rcases FaultyInv.reaches sendable (FaultyInv.start sendable window memory)
      reaches with ⟨announced, inv⟩
  exact inv.safe prepared text bounded

/-- A peer started on zeroed blocks and the state some inputs lead to. -/
def faultyOutcome (window : Int) (file : List Byte)
    (inputs : List FaultyInput) : Option (Peer × Transfer) :=
  (Peer.start window zeroed zeroed file).bind fun sender =>
    ((Transfer.start sender.toSender zeroed).faultyRun inputs).map
      fun state => (sender, state)

theorem faultyOutcome_sound
    {window : Int} {file : List Byte} {inputs : List FaultyInput}
    {sender : Peer} {state : Transfer}
    (computed : faultyOutcome window file inputs = some (sender, state)) :
    Peer.start window zeroed zeroed file = some sender ∧
      (Transfer.start sender.toSender zeroed).faultyRun inputs =
        some state := by
  simp only [faultyOutcome, Option.bind_eq_some_iff,
    Option.map_eq_some_iff, Prod.mk.injEq] at computed
  rcases computed with ⟨_, started, _, ran, rfl, rfl⟩
  exact ⟨started, ran⟩

/--
Packet 0 arrives twice and packet 1 arrives before it; then an acknowledgement
is lost.
-/
theorem faulty_network_safe_hi :
    ∃ sender state,
      faultyOutcome 2 [104, 105] [.send, .store 1, .store 0, .store 0,
          .loseAck 0] = some (sender, state) ∧
        FaultySafe [104, 105] state := by
  rcases Option.isSome_iff_exists.mp
      (show (faultyOutcome 2 [104, 105] [.send, .store 1, .store 0,
        .store 0, .loseAck 0]).isSome = true by decide) with
    ⟨⟨sender, state⟩, computed⟩
  rcases faultyOutcome_sound computed with ⟨started, ran⟩
  exact ⟨sender, state, computed,
    faulty_network_safe 2 zeroed zeroed zeroed [104, 105] (by decide)
      (by decide) sender started state (Transfer.faultyRun_reaches ran)⟩

/-! ## What is lost stays lost -/

/--
What a call sends lies at or above the next number, and the next number moves
past the window by nothing.
-/
theorem SenderInv.send_beyond
    {packets : Buffer} {count announced base nextseq : Nat}
    {sender next : Sender} {sent : List Transmission}
    (inv : SenderInv packets count announced sender)
    (sendable : Sendable count packets)
    (law : StartedLaw count announced base nextseq sender)
    (running : sender.running = true)
    (call : sender.send = some (next, sent)) :
    (∀ transmission ∈ sent,
        (nextseq : Int) ≤ transmission.packet.sno) ∧
      ∃ stop : Nat, next.counters = ⟨base, stop⟩ ∧ nextseq ≤ stop ∧
        (stop : Int) ≤ max (nextseq : Int) (base + sender.window) := by
  have unfinished := law.runs.mp running
  have numbered := inv.numbered sendable
  rcases sendpacket_later numbered sendable.bounded sender.window base
      unfinished with ⟨stop, reached, returns⟩
  cases (Sender.send_returns law.counters returns).eq_of_some call
  refine ⟨?_, stop, rfl, by omega, by omega⟩
  intro transmission member
  rcases List.mem_append.mp member with resent | fresh
  · rw [List.eq_of_mem_replicate resent,
      numbered.sno_of_lt unfinished
        (unfinished.trans_le sendable.bounded)]
  · rcases newTransmissions_sno numbered sendable.bounded
        (show nextseq + (stop - nextseq) ≤ count by omega) fresh with
      ⟨number, lower, _, _, sno⟩
    rw [sno]
    exact_mod_cast lower

/-- Packet `k` was sent, is not stored, and no copy of it is in flight. -/
structure Gone (k : Fin 100) (state : Transfer) : Prop where
  sent : ((k : Nat) : Int) < state.sender.counters.nextseq
  absent : ∀ packet ∈ state.wire, packet.sno ≠ ((k : Nat) : Int)
  missing : (state.datafrom k).ackno ≠ 1

/-- The next number never passes the window that starts at a lost packet. -/
def Capped (k : Fin 100) (limit : Int) (state : Transfer) : Prop :=
  state.sender.counters.nextseq ≤ limit ∧
    ((k : Nat) : Int) + state.sender.window ≤ limit

namespace Gone

variable
    {packets : Buffer} {count announced : Nat} {state : Transfer}
    {k : Fin 100}

theorem base_le
    (gone : Gone k state)
    (inv : FaultyInv packets count announced state) :
    state.sender.counters.base ≤ ((k : Nat) : Int) := by
  by_contra beyond
  exact gone.missing
    (inv.acked k (inv.sender.marked_below (Int.not_le.mp beyond)))

theorem step
    (gone : Gone k state)
    (inv : FaultyInv packets count announced state)
    (sendable : Sendable count packets)
    {limit : Int} (capped : Capped k limit state)
    {next : Transfer} (step : FaultyStep state next) :
    Gone k next ∧ Capped k limit next := by
  have sent := gone.sent
  have baseLe := gone.base_le inv
  rcases capped with ⟨low, room⟩
  cases step with
  | send running call =>
      cases inv.sender.law with
      | initial counters _ _ =>
          rw [counters] at sent
          simp only at sent
          omega
      | started base nextseq law =>
          rw [law.counters] at sent baseLe low
          simp only at sent baseLe low
          rcases inv.sender.send_beyond sendable law running call with
            ⟨numbers, stop, counters, grown, upper⟩
          refine ⟨⟨?_, ?_, gone.missing⟩, ?_, ?_⟩
          · simp only [counters]
            omega
          · intro packet member
            rcases List.mem_append.mp member with old | new
            · exact gone.absent packet old
            · rcases List.mem_map.mp new with
                ⟨transmission, from_call, rfl⟩
              have := numbers transmission from_call
              omega
          · simp only [counters]
            omega
          · simp only [Sender.send_window call]
            exact room
  | ack running arrival call =>
      rcases Sender.receiveAck_cases call with ⟨_, _, _, rfl⟩
      exact ⟨⟨sent, gone.absent, gone.missing⟩, low, room⟩
  | store junk arrival data call =>
      rcases dataprocess_cases call with ⟨j, slot, _, others, _⟩
      have other : k ≠ j := by
        rintro rfl
        exact gone.absent _ arrival slot
      refine ⟨⟨sent, gone.absent, ?_⟩, low, room⟩
      simp only [others k other]
      exact gone.missing
  | lose wireLeft acksLeft =>
      exact
        ⟨⟨sent, fun packet member =>
            gone.absent packet (wireLeft.subset member), gone.missing⟩,
          low, room⟩

theorem reaches
    (gone : Gone k state)
    (inv : FaultyInv packets count announced state)
    (sendable : Sendable count packets)
    {limit : Int} (capped : Capped k limit state)
    {later : Transfer} (reaches : FaultyReaches state later) :
    Gone k later ∧ Capped k limit later := by
  induction reaches with
  | refl => exact ⟨gone, capped⟩
  | tail earlier move induction =>
      rcases FaultyInv.reaches sendable inv earlier with ⟨_, held⟩
      exact induction.1.step held sendable induction.2 move

end Gone

/--
Once every copy of a counted packet is lost before it was stored, it is never
sent and never stored again, the base stays at or below it, and the next number
passes neither its value then nor the window that starts at the packet, the
larger of the two.
-/
theorem lost_packet_not_recovered
    (window : Int) (datato datafrom memory : Buffer)
    (file : List Byte) (bounded : packetCount file ≤ 99) (sender : Peer)
    (started : Peer.start window datato datafrom file = some sender)
    (state later : Transfer)
    (reaches :
      FaultyReaches (Transfer.start sender.toSender memory) state)
    (k : Fin 100) (gone : Gone k state)
    (continues : FaultyReaches state later) :
    Gone k later ∧
      later.sender.counters.base ≤ ((k : Nat) : Int) ∧
      later.sender.counters.nextseq ≤
        max state.sender.counters.nextseq
          (((k : Nat) : Int) + state.sender.window) := by
  rcases Peer.start_cases started with ⟨packets, prepared, side, _⟩
  have sendable := prepared.sendable (show packetCount file ≤ 100 by omega)
  rw [side] at reaches
  rcases FaultyInv.reaches sendable (FaultyInv.start sendable window memory)
      reaches with ⟨_, inv⟩
  rcases FaultyInv.reaches sendable inv continues with ⟨_, held⟩
  rcases gone.reaches inv sendable
      ⟨le_max_left _ _, le_max_right _ _⟩ continues with ⟨still, capped⟩
  exact ⟨still, still.base_le held, capped.1⟩

/-- The only packet of the first window is lost; the next call sends slot 1. -/
theorem lost_packet_not_recovered_hi :
    ∃ sender state later,
      faultyOutcome 1 [104, 105] [.send, .loseData 0] =
          some (sender, state) ∧
        state.faultyRun [.send, .store 0, .ack 0, .send] = some later ∧
          Gone 0 later ∧ later.sender.counters.base ≤ 0 ∧
            later.sender.counters.nextseq ≤
              max state.sender.counters.nextseq
                (0 + state.sender.window) := by
  rcases Option.isSome_iff_exists.mp
      (show ((faultyOutcome 1 [104, 105] [.send, .loseData 0]).bind
        fun outcome => outcome.2.faultyRun
          [.send, .store 0, .ack 0, .send]).isSome = true by decide) with
    ⟨later, computed⟩
  rcases Option.bind_eq_some_iff.mp computed with
    ⟨⟨sender, state⟩, before, after⟩
  have lost :
      (faultyOutcome 1 [104, 105] [.send, .loseData 0]).map
        (fun outcome =>
          (outcome.2.sender.counters.nextseq, outcome.2.wire.length,
            (outcome.2.datafrom 0).ackno)) = some (1, 0, -1) := by
    decide
  simp only [before, Option.map_some, Option.some.injEq,
    Prod.mk.injEq, List.length_eq_zero_iff] at lost
  rcases lost with ⟨sent, absent, missing⟩
  rcases faultyOutcome_sound before with ⟨started, ran⟩
  refine ⟨sender, state, later, before, after, ?_⟩
  exact
    lost_packet_not_recovered 1 zeroed zeroed zeroed [104, 105]
      (by decide) sender started state later
      (Transfer.faultyRun_reaches ran) 0
      ⟨by simp [sent], by simp [absent], by simp [missing]⟩
      (Transfer.faultyRun_reaches after)

end NetworkingLab.SelectiveRepeat
