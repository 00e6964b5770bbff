import NetworkingLab.SelectiveRepeat.FaultyNetwork

/-!
# A transfer over lossless queues never gets stuck

Over lossless queues the wrong slot of the retransmission loop costs nothing:
no packet needs to be sent again.  From every state of a direction, whatever
was done before, the packs in flight can be handled, the acknowledgements with
them, and then the next call of `sendpacket` moves `nextseq` on.  So a transfer
can always be completed (`transfer_can_complete`), for every window of at least
one packet.

The invariant behind it says that no acknowledgement is missing: a stored
packet is marked at the sender or its acknowledgement is on the way.
-/

namespace NetworkingLab.SelectiveRepeat

open NetworkingLab.Foundation.CString
open NetworkingLab.Foundation.InOrder
open NetworkingLab.Foundation.Delivery
open Relation (ReflTransGen)

/-- A step of a direction in which a sender that has left does nothing. -/
def LiveStep (before after : Transfer) : Prop :=
  TransferStep before after ∧
    (before.sender.running = false → after.sender = before.sender)

/-- The states a direction can go on to. -/
def LiveReaches : Transfer → Transfer → Prop :=
  ReflTransGen LiveStep

/-- Every stored packet is marked, or its acknowledgement is on the way. -/
def Answered (state : Transfer) : Prop :=
  ∀ j : Fin 100, (state.datafrom j).ackno = 1 →
    (state.sender.datato j).ackno = 1 ∨
      ∃ packet ∈ state.acks, packet.ackno = ((j : Nat) : Int)

/-- The invariant of a transfer that can be completed. -/
structure LiveInv (packets : Buffer) (count : Nat) (window : Int)
    (state : Transfer) : Prop where
  transfer : ∃ progress : Progress count,
    TransferInv packets progress state
  answered : Answered state
  window : state.sender.window = window

namespace LiveInv

variable
    {packets : Buffer} {count : Nat} {window : Int} {state : Transfer}

theorem start
    (sendable : Sendable count packets) (window : Int) (memory : Buffer) :
    LiveInv packets count window
      (Transfer.start ⟨window, packets, ⟨-1, 0⟩, true⟩ memory) where
  transfer := ⟨_, TransferInv.start sendable window memory⟩
  answered j filled := by
    simp [Transfer.start, makeinvalid] at filled
  window := rfl

theorem answered_ack
    (answered : Answered state)
    {packet : Pack} {rest : List Pack} {sender : Sender} {k : Fin 100}
    (arrival : state.acks = packet :: rest)
    (number : packet.ackno = ((k : Nat) : Int))
    (datato : sender.datato = acknowledge state.sender.datato k) :
    Answered { state with sender := sender, acks := rest } := by
  intro j filled
  by_cases same : j = k
  · left
    simp only [datato, acknowledge_ackno, if_pos same]
  · rcases answered j filled with marked | ⟨reply, member, tag⟩
    · left
      simp only [datato, acknowledge_ackno, if_neg same, marked]
    · right
      rw [arrival] at member
      rcases List.mem_cons.mp member with rfl | later
      · exact (same (Fin.ext (by omega))).elim
      · exact ⟨reply, later, tag⟩

theorem answered_store
    (answered : Answered state)
    {packet : Pack} {rest : List Pack} {datafrom : Buffer}
    (junk : Payload)
    (call : dataprocess packet state.datafrom = some datafrom) :
    Answered
      { state with
        datafrom := datafrom
        wire := rest
        acks := state.acks ++ [ackpacket junk packet] } := by
  rcases dataprocess_cases call with ⟨k, number, _, others, _⟩
  intro j filled
  by_cases same : j = k
  · right
    exact ⟨ackpacket junk packet, by simp, by rw [same]; exact number⟩
  · simp only [others j same] at filled
    rcases answered j filled with marked | ⟨reply, member, tag⟩
    · exact Or.inl marked
    · exact Or.inr ⟨reply, List.mem_append_left _ member, tag⟩

/-- Step lemma. -/
theorem step
    (inv : LiveInv packets count window state)
    (sendable : Sendable count packets)
    {next : Transfer} (step : TransferStep state next) :
    LiveInv packets count window next := by
  rcases inv.transfer with ⟨progress, transfer⟩
  rcases transfer.step_refines sendable step with ⟨later, _, kept⟩
  cases step with
  | send running call =>
      refine ⟨⟨later, kept⟩, ?_, ?_⟩
      · intro j filled
        simp only [Sender.send_datato call]
        exact inv.answered j filled
      · exact (Sender.send_window call).trans inv.window
  | @ack sender packet rest arrival call =>
      have head : AckBelow progress.delivered packet :=
        transfer.acks packet (by simp [arrival])
      rcases head with ⟨_, k, number, stored⟩
      rcases transfer.sender.receiveAck sendable number
          (stored.trans_le progress.ordered) with
        ⟨_, defined, _, datato, _⟩
      rw [call] at defined
      cases defined
      exact ⟨⟨later, kept⟩, answered_ack inv.answered arrival number datato,
        (Sender.receiveAck_window call).trans inv.window⟩
  | store junk arrival _ call =>
      exact ⟨⟨later, kept⟩, answered_store inv.answered junk call,
        inv.window⟩
  | skip arrival marked =>
      exact ⟨⟨later, kept⟩, inv.answered, inv.window⟩

theorem reaches
    (inv : LiveInv packets count window state)
    (sendable : Sendable count packets)
    {later : Transfer} (reaches : LiveReaches state later) :
    LiveInv packets count window later := by
  induction reaches with
  | refl => exact inv
  | tail _ move induction => exact induction.step sendable move.1

/-! ## Emptying the queues -/

/-- The receiver can handle all data packs in flight. -/
theorem drain_wire
    (inv : LiveInv packets count window state)
    (sendable : Sendable count packets) :
    ∃ next, LiveReaches state next ∧
      LiveInv packets count window next ∧
        next.sender = state.sender ∧ next.wire = [] := by
  induction pending : state.wire.length generalizing state with
  | zero =>
      exact ⟨state, .refl, inv, rfl, List.length_eq_zero_iff.mp pending⟩
  | succ length induction =>
      rcases List.exists_of_length_succ _ pending with
        ⟨packet, rest, arrival⟩
      rcases inv.transfer with ⟨progress, transfer⟩
      -- one pack is handled; the sender does not move
      have handled : ∃ next, TransferStep state next ∧
          next.sender = state.sender ∧ next.wire = rest := by
        by_cases data : packet.ackno = -1
        · rcases transfer.store_defined sendable arrival with
            ⟨datafrom, call⟩
          exact ⟨_, .store zeroPayload arrival data call, rfl, rfl⟩
        · exact ⟨_, .skip arrival data, rfl, rfl⟩
      rcases handled with ⟨next, move, sender, wire⟩
      have shorter : next.wire.length = length := by
        rw [wire]
        simpa [arrival] using pending
      rcases induction (inv.step sendable move) shorter with
        ⟨final, reaches, held, same, empty⟩
      exact ⟨final, .head ⟨move, fun _ => sender⟩ reaches, held,
        same.trans sender, empty⟩

/-- A running sender can handle all acknowledgements in flight. -/
theorem drain_acks
    (inv : LiveInv packets count window state)
    (sendable : Sendable count packets)
    (running : state.sender.running = true) :
    ∃ next, LiveReaches state next ∧
      LiveInv packets count window next ∧
        next.sender.running = true ∧
        next.sender.counters.nextseq = state.sender.counters.nextseq ∧
        next.wire = state.wire ∧ next.acks = [] := by
  induction pending : state.acks.length generalizing state with
  | zero =>
      exact ⟨state, .refl, inv, running, rfl, rfl,
        List.length_eq_zero_iff.mp pending⟩
  | succ length induction =>
      rcases List.exists_of_length_succ _ pending with
        ⟨packet, rest, arrival⟩
      rcases inv.transfer with ⟨progress, transfer⟩
      rcases transfer.ack_defined sendable arrival with ⟨sender, call⟩
      have move : TransferStep state
          { state with sender := sender, acks := rest } :=
        .ack arrival call
      rcases Sender.receiveAck_cases call with ⟨_, _, _, rfl⟩
      rcases induction (inv.step sendable move) running
          (by simpa [arrival] using pending) with
        ⟨final, reaches, held, runs, same, wire, empty⟩
      refine ⟨final, .head ⟨move, ?_⟩ reaches, held, runs, same, wire,
        empty⟩
      intro left
      rw [running] at left
      cases left

/-! ## Completing the transfer -/

/-- With empty queues a running sender moves its next number on. -/
theorem send_advances
    (inv : LiveInv packets count window state)
    (sendable : Sendable count packets) (bounded : count ≤ 99)
    (positive : 1 ≤ window)
    (running : state.sender.running = true)
    (wire : state.wire = []) (acks : state.acks = []) :
    ∃ next, LiveStep state next ∧
      state.sender.counters.nextseq < next.sender.counters.nextseq := by
  rcases inv.transfer with ⟨progress, transfer⟩
  rcases transfer.send_defined sendable bounded running with
    ⟨⟨sender, sent⟩, call⟩
  refine ⟨_, ⟨.send running call, ?_⟩, ?_⟩
  · intro left
    rw [running] at left
    cases left
  have numbered := transfer.sender.numbered sendable
  cases transfer.sender.law with
  | initial counters _ _ =>
      rcases sendpacket_first numbered sendable.bounded
          state.sender.window sendable.nonempty with
        ⟨stop, reached, returns⟩
      cases (Sender.send_returns counters returns).eq_of_some call
      simp only [counters]
      omega
  | started base nextseq law =>
      have unfinished := law.runs.mp running
      have counted := law.counted
      have baseBound := law.baseBound
      rcases sendpacket_later numbered sendable.bounded
          state.sender.window base unfinished with
        ⟨stop, reached, returns⟩
      cases (Sender.send_returns law.counters returns).eq_of_some call
      -- everything announced is stored, and everything stored is marked
      have delivered : progress.delivered = progress.announced := by
        have announces := transfer.wire
        rw [wire] at announces
        exact announces.eq_of_nil
      have known : nextseq ≤ base := by
        by_contra behind
        have inside : base < 100 := by omega
        have stored :
            (state.datafrom ⟨base, inside⟩).ackno = 1 := by
          rw [transfer.holds.filled]
          simp only
          omega
        rcases inv.answered ⟨base, inside⟩ stored with
          marked | ⟨packet, member, _⟩
        · exact law.atBase ⟨base, inside⟩ rfl marked
        · simp [acks] at member
      have width := inv.window
      simp only [law.counters]
      omega

/-- What is left to transmit. -/
def untransmitted (count : Nat) (state : Transfer) : Nat :=
  (count - state.sender.counters.nextseq).toNat

theorem nextseq_le
    (inv : LiveInv packets count window state) :
    state.sender.counters.nextseq ≤ count := by
  rcases inv.transfer with ⟨progress, transfer⟩
  cases transfer.sender.law with
  | initial counters _ _ =>
      rw [counters]
      simp
  | started base nextseq law =>
      have counted := law.counted
      have total := law.total
      rw [law.counters]
      simp only
      omega

/-- Round by round the sender comes to its end. -/
theorem can_complete
    (inv : LiveInv packets count window state)
    (sendable : Sendable count packets) (bounded : count ≤ 99)
    (positive : 1 ≤ window) :
    ∃ final, LiveReaches state final ∧
      LiveInv packets count window final ∧
        final.sender.running = false ∧ final.wire = [] := by
  induction remaining : untransmitted count state using Nat.strongRecOn
    generalizing state with
  | ind left induction =>
      rcases inv.drain_wire sendable with
        ⟨handled, first, held, same, empty⟩
      by_cases running : state.sender.running = true
      · rw [← same] at running
        rcases held.drain_acks sendable running with
          ⟨told, second, known, runs, next, wire, silent⟩
        rcases known.send_advances sendable bounded positive runs
            (wire.trans empty) silent with ⟨after, move, advanced⟩
        have later := known.step sendable move.1
        have reached := later.nextseq_le
        have fewer : untransmitted count after < left := by
          rw [next, same] at advanced
          rw [← remaining, untransmitted, untransmitted]
          omega
        rcases induction _ fewer later rfl with
          ⟨final, rest, done, departed, quiet⟩
        exact ⟨final, (first.trans second).trans (.head move rest), done,
          departed, quiet⟩
      · refine ⟨handled, first, held, ?_, empty⟩
        rw [same]
        simpa using running

end LiveInv

/--
From every state of a direction over lossless queues the transfer can be
completed: the sender leaves, no data packet is in flight, and the receiver
holds the file.
-/
theorem transfer_can_complete
    (window : Int) (positive : 1 ≤ window)
    (datato datafrom memory : Buffer)
    (file : List Byte) (text : NulFree file)
    (bounded : packetCount file ≤ 99) (sender : Peer)
    (started : Peer.start window datato datafrom file = some sender)
    (state : Transfer)
    (reaches :
      LiveReaches (Transfer.start sender.toSender memory) state) :
    ∃ final, LiveReaches state final ∧
      final.sender.running = false ∧ final.wire = [] ∧
        storedText final.datafrom = file := by
  rcases Peer.start_cases started with ⟨packets, prepared, side, _⟩
  have sendable := prepared.sendable (show packetCount file ≤ 100 by omega)
  rw [side] at reaches
  have inv :=
    (LiveInv.start sendable window memory).reaches sendable reaches
  rcases inv.can_complete sendable bounded positive with
    ⟨final, continues, held, departed, quiet⟩
  rcases held.transfer with ⟨progress, transfer⟩
  exact ⟨final, continues, departed, quiet,
    transfer.storedText_complete prepared (by omega) text departed quiet⟩

/-- A two-packet file with window 1, from the state behind the first call. -/
theorem transfer_can_complete_hi :
    ∃ sender next sent,
      Peer.start 1 zeroed zeroed [104, 105] = some sender ∧
        sender.toSender.send = some (next, sent) ∧
        ∃ final,
          LiveReaches
              ⟨next, makeinvalid zeroed,
                [] ++ sent.map Transmission.packet, []⟩ final ∧
            final.sender.running = false ∧ final.wire = [] ∧
              storedText final.datafrom = [104, 105] := by
  rcases Option.isSome_iff_exists.mp
      (show ((Peer.start 1 zeroed zeroed [104, 105]).bind
        fun sender => sender.toSender.send).isSome = true by decide) with
    ⟨⟨next, sent⟩, computed⟩
  rcases Option.bind_eq_some_iff.mp computed with ⟨sender, started, call⟩
  have running : sender.running = true := by
    rcases Peer.start_cases started with ⟨_, _, side, _⟩
    exact congrArg Sender.running side
  have step :
      LiveStep (Transfer.start sender.toSender zeroed)
        ⟨next, makeinvalid zeroed,
          [] ++ sent.map Transmission.packet, []⟩ := by
    refine ⟨.send running call, fun left => ?_⟩
    exact absurd (running.symm.trans left) (by decide)
  exact ⟨sender, next, sent, started, call,
    transfer_can_complete 1 (by decide) zeroed zeroed zeroed [104, 105]
      (by decide) (by decide) sender started _ (.single step)⟩

end NetworkingLab.SelectiveRepeat
