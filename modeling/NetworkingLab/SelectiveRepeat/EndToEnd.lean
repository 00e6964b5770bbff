import Mathlib.Data.List.FinRange
import NetworkingLab.SelectiveRepeat.PeerPair

/-!
# End-to-end properties of two connected peers

The results about whole runs: what the receiver holds is always a prefix of
the sender's file and is the whole file once the sender has left and
everything it sent is handled; acknowledgements are sound; and what is known
when a peer leaves through the exit test of `sendpacket`.

That test looks only at the next slot, so a peer leaves as soon as its last
packet has been transmitted once.  It waits for neither the acknowledgements
of the last window of its own packets nor the packets of the other peer; the
packets before that window had to be acknowledged for the last one to be sent.
-/

namespace NetworkingLab.SelectiveRepeat

open NetworkingLab.Foundation.CString
open NetworkingLab.Foundation.Delivery

/-! ## The stored text -/

/-- The payload strings of the filled slots, in slot order. -/
def storedText (datafrom : Buffer) : List Byte :=
  ((List.finRange 100).filter fun j => (datafrom j).ackno = 1).flatMap
    fun j => (datafrom j).payload.text

/-- The chunks of a file, one for each packet. -/
def chunks (file : List Byte) : List (List Byte) :=
  (List.range (packetCount file)).map (chunk file)

theorem flatten_chunk_range (file : List Byte) (packets : Nat) :
    ((List.range packets).map (chunk file)).flatten =
      file.take (19 * packets) := by
  induction packets with
  | zero => simp
  | succ packets induction =>
      rw [List.range_succ, List.map_append, List.flatten_append,
        induction, Nat.mul_succ, List.take_add]
      simp [chunk]

theorem flatten_chunks (file : List Byte) :
    (chunks file).flatten = file := by
  rw [chunks, flatten_chunk_range]
  apply List.take_of_length_le
  simp only [packetCount]
  omega

theorem filter_lt_range {few many : Nat} (le : few ≤ many) :
    (List.range many).filter (fun k => k < few) = List.range few := by
  induction many with
  | zero =>
      have : few = 0 := by omega
      simp [this]
  | succ many induction =>
      by_cases last : few = many + 1
      · rw [last, List.filter_eq_self]
        intro k member
        simpa using member
      · rw [List.range_succ, List.filter_append, induction (by omega)]
        have outside : ¬ many < few := by omega
        simp [outside]

theorem filter_lt_finRange {few : Nat} (le : few ≤ 100) :
    ((List.finRange 100).filter fun j : Fin 100 => (j : Nat) < few).map Fin.val =
      List.range few := by
  rw [← filter_lt_range le, ← List.map_coe_finRange_eq_range,
    List.filter_map]
  rfl

/-- The slots of a prepared buffer hold the chunks of a text. -/
theorem Prepared.text_eq_chunk
    {file : List Byte} {packets : Buffer} (prepared : Prepared file packets)
    (text : NulFree file) {j : Fin 100}
    (filled : (j : Nat) < packetCount file) :
    (packets j).payload.text = chunk file j := by
  rw [(prepared.filled j filled).text]
  apply cString_of_nulFree
  exact text.of_sublist
    ((List.take_sublist _ _).trans (List.drop_sublist _ _))

/-- Slots that hold chunks in a row, put together. -/
theorem flatMap_slots
    {file : List Byte} {few : Nat} (fits : few ≤ 100)
    {texts : Fin 100 → List Byte}
    (hold : ∀ j : Fin 100, (j : Nat) < few → texts j = chunk file j) :
    ((List.finRange 100).filter
        fun j : Fin 100 => (j : Nat) < few).flatMap texts =
      ((List.range few).map (chunk file)).flatten := by
  rw [← filter_lt_finRange fits, List.map_map, List.flatMap_def]
  congr 1
  apply List.map_congr_left
  intro j member
  exact hold j (by simpa using (List.mem_filter.mp member).2)

/-- A buffer that holds the first packets of a text holds their chunks. -/
theorem Holds.storedText_eq
    {file : List Byte} {packets datafrom : Buffer}
    {progress : Progress (packetCount file)}
    (holds : Holds packets progress.delivered datafrom)
    (prepared : Prepared file packets)
    (fits : packetCount file ≤ 100) (text : NulFree file) :
    storedText datafrom = progress.text (chunks file) := by
  have inside : progress.delivered ≤ packetCount file :=
    progress.ordered.trans progress.bounded
  have slots :
      ((List.finRange 100).filter fun j => (datafrom j).ackno = 1) =
        (List.finRange 100).filter
          fun j : Fin 100 => (j : Nat) < progress.delivered := by
    apply List.filter_congr
    intro j _
    simp [holds.filled j]
  have payloads : ∀ j : Fin 100, (j : Nat) < progress.delivered →
      (datafrom j).payload.text = chunk file j := by
    intro j below
    rw [holds.texts j below]
    exact prepared.text_eq_chunk text (below.trans_le inside)
  rw [storedText, slots, flatMap_slots (by omega) payloads,
    Progress.text, chunks, ← List.map_take, List.take_range,
    Nat.min_eq_left inside]

theorem TransferInv.storedText_prefix
    {file : List Byte} {packets : Buffer}
    {progress : Progress (packetCount file)} {state : Transfer}
    (inv : TransferInv packets progress state)
    (prepared : Prepared file packets)
    (fits : packetCount file ≤ 100) (text : NulFree file) :
    storedText state.datafrom <+: file := by
  rw [inv.holds.storedText_eq prepared fits text]
  have whole := progress.text_prefix (chunks file)
  rwa [flatten_chunks] at whole

/-- A sender that has left has announced all its packets. -/
theorem SenderInv.announced_of_exit
    {packets : Buffer} {count announced : Nat} {sender : Sender}
    (inv : SenderInv packets count announced sender)
    (left : sender.running = false) :
    announced = count := by
  cases inv.law with
  | initial _ _ running =>
      rw [running] at left
      cases left
  | started base nextseq law =>
      have total := law.total
      have counted := law.counted
      have finished : ¬ nextseq < count := by
        intro unfinished
        have running := law.runs.mpr unfinished
        rw [running] at left
        cases left
      omega

/-- A sender that has left has the packets before its last window acknowledged. -/
theorem SenderInv.acknowledged_of_exit
    {packets : Buffer} {count announced : Nat} {sender : Sender}
    (inv : SenderInv packets count announced sender)
    (left : sender.running = false) (several : 1 < count)
    (j : Fin 100) (before : (j : Int) + sender.window < count) :
    (sender.datato j).ackno = 1 := by
  cases inv.law with
  | initial _ _ running =>
      rw [running] at left
      cases left
  | started base nextseq law =>
      have finished : ¬ nextseq < count := by
        intro unfinished
        have running := law.runs.mpr unfinished
        rw [running] at left
        cases left
      have windowed := law.windowed
      exact law.below j (by omega)

theorem TransferInv.storedText_complete
    {file : List Byte} {packets : Buffer}
    {progress : Progress (packetCount file)} {state : Transfer}
    (inv : TransferInv packets progress state)
    (prepared : Prepared file packets)
    (fits : packetCount file ≤ 100) (text : NulFree file)
    (left : state.sender.running = false)
    (handled : state.wire = []) :
    storedText state.datafrom = file := by
  have announced := inv.sender.announced_of_exit left
  have delivered : progress.delivered = progress.announced := by
    have wire := inv.wire
    rw [handled] at wire
    exact wire.eq_of_nil
  rw [inv.holds.storedText_eq prepared fits text,
    Progress.text_complete (by simp [chunks]) (delivered.trans announced),
    flatten_chunks]

/-! ## One peer sends, the other receives -/

/-- The invariant of a one-way transfer. -/
structure OneWayInv (packets : Buffer) {count : Nat}
    (progress : Progress count) (state : Pair) : Prop where
  transfer : TransferInv packets progress state.leftToRight
  onlyAcks : ∀ packet ∈ state.toLeft, packet.sno = -1
  onlyData : ∀ packet ∈ state.toRight, packet.sno ≠ -1

theorem OneWayInv.step
    {packets : Buffer} {count : Nat} {progress : Progress count}
    {state next : Pair} {action : Action}
    (inv : OneWayInv packets progress state)
    (sendable : Sendable count packets)
    (silent : action ≠ .sendRight)
    (step : PairStep state action next) :
    ∃ later : Progress count, OneWayInv packets later next := by
  rcases leftToRight_refines inv.transfer sendable
      (fun packet member tag => (inv.onlyData packet member tag).elim)
      (fun sends => (silent sends).elim) step with
    ⟨later, _, transfer⟩
  refine ⟨later, transfer, ?_, ?_⟩
  · cases step with
    | sendLeft => exact inv.onlyAcks
    | sendRight => exact (silent rfl).elim
    | receiveLeft junk running arrival call =>
        intro packet member
        exact inv.onlyAcks packet (by simp [arrival, member])
    | @receiveRight _ incomming _ _ _ _ arrival call =>
        have tag := inv.onlyData incomming (by simp [arrival])
        intro packet member
        rcases List.mem_append.mp member with old | new
        · exact inv.onlyAcks packet old
        · exact (dispatch_data_sender tag call).2 packet new
  · cases step with
    | sendLeft running call =>
        rcases Peer.send_cases call with ⟨_, sent, defined, _, rfl⟩
        intro packet member
        rcases List.mem_append.mp member with old | new
        · exact inv.onlyData packet old
        · exact inv.transfer.sender.sent_data sendable running defined
            packet new
    | sendRight => exact (silent rfl).elim
    | @receiveLeft _ incomming rest _ _ _ arrival call =>
        have tag := inv.onlyAcks incomming (by simp [arrival])
        have head : incomming ∈ state.leftToRight.acks := by
          simp [Pair.leftToRight, arrival, Pack.isAck, tag]
        have number := (inv.transfer.acks incomming head).number_ne
        rcases dispatch_ack tag number call with ⟨_, _, _, rfl⟩
        simpa using inv.onlyData
    | receiveRight junk running arrival call =>
        intro packet member
        exact inv.onlyData packet (by simp [arrival, member])

theorem oneWay_invariant
    {packets : Buffer} {count : Nat}
    (sendable : Sendable count packets)
    {sender receiver : Peer} {window : Int} {memory : Buffer}
    (senderSide : sender.toSender =
      ⟨window, packets, ⟨-1, 0⟩, true⟩)
    (receiverBuffer : receiver.datafrom = makeinvalid memory)
    {state : Pair} (reaches : OneWayReaches sender receiver state) :
    ∃ progress : Progress count, OneWayInv packets progress state := by
  induction reaches with
  | refl =>
      refine ⟨Progress.start _, ?_, by simp, by simp⟩
      simpa [Pair.leftToRight, senderSide, receiverBuffer] using
        TransferInv.start sendable window memory
  | tail _ move induction =>
      rcases induction with ⟨progress, inv⟩
      rcases move with ⟨action, silent, step⟩
      exact inv.step sendable silent step

/--
Whatever the window and the interleaving, the receiver holds a prefix of the
file at every moment, in the slots `0 .. m - 1`; and it holds the whole file
once the sender has left and every pack sent to the receiver is handled.
-/
theorem transfer_delivers_file
    (window receiverWindow : Int)
    (datato datafrom receiverTo receiverFrom : Buffer)
    (file receiverFile : List Byte)
    (text : NulFree file) (sender receiver : Peer)
    (senderStarted :
      Peer.start window datato datafrom file = some sender)
    (receiverStarted :
      Peer.start receiverWindow receiverTo receiverFrom receiverFile =
        some receiver)
    (state : Pair) (reaches : OneWayReaches sender receiver state) :
    ((∃ m : Nat, ∀ j : Fin 100,
        (state.right.datafrom j).ackno = 1 ↔ (j : Nat) < m) ∧
      storedText state.right.datafrom <+: file) ∧
      (state.left.running = false → state.right.running = true →
        state.toRight = [] →
          storedText state.right.datafrom = file) := by
  rcases Peer.start_cases senderStarted with
    ⟨packets, prepared, senderSide, _⟩
  have fits := Peer.start_fits senderStarted
  rcases oneWay_invariant (prepared.sendable fits) senderSide
      (Peer.start_datafrom receiverStarted) reaches with
    ⟨progress, inv⟩
  refine ⟨⟨⟨_, inv.transfer.holds.filled⟩, ?_⟩, ?_⟩
  · exact inv.transfer.storedText_prefix prepared fits text
  · intro left _ handled
    apply inv.transfer.storedText_complete prepared fits text left
    simp [Pair.leftToRight, handled]

/-- A two-packet file with window 1: send, store, acknowledge, send, store. -/
theorem transfer_delivers_hi :
    ∃ outcome,
      scheduled 1 [104, 105] []
          [.sendLeft, .receiveRight, .receiveLeft, .sendLeft,
            .receiveRight] = some outcome ∧
        storedText outcome.state.right.datafrom = [104, 105] := by
  rcases Option.isSome_iff_exists.mp
      (show (scheduled 1 [104, 105] []
        [.sendLeft, .receiveRight, .receiveLeft, .sendLeft,
          .receiveRight]).isSome = true by decide) with
    ⟨outcome, computed⟩
  have final :
      (scheduled 1 [104, 105] []
        [.sendLeft, .receiveRight, .receiveLeft, .sendLeft,
          .receiveRight]).map
        (fun outcome =>
          (outcome.state.left.running, outcome.state.right.running,
            outcome.state.toRight)) = some (false, true, []) := by
    decide
  simp only [computed, Option.map_some, Option.some.injEq,
    Prod.mk.injEq] at final
  rcases scheduled_sound computed with ⟨left, right, ran⟩
  refine ⟨outcome, computed, ?_⟩
  exact
    (transfer_delivers_file 1 1 zeroed zeroed zeroed zeroed [104, 105] []
      (by decide) outcome.left outcome.right left right
      outcome.state (Pair.run_reaches (by decide) ran)).2
      final.1 final.2.1 final.2.2

/-! ## Both peers send -/

/-- Soundness of the acknowledgements and of the base of one peer. -/
structure AckSound (count : Nat) (sender receiver : Peer)
    (inFlight : List Pack) : Prop where
  flight : ∀ packet ∈ inFlight,
    (∃ j : Fin 100, packet.sno = (j : Nat) ∧ (j : Nat) < count ∧
      packet.payload = (sender.datato j).payload) ∨
    (packet.sno = -1 ∧ ∃ j : Fin 100, packet.ackno = (j : Nat) ∧
      (sender.datafrom j).ackno = 1)
  stored : ∀ j : Fin 100, (sender.datato j).ackno = 1 →
    (receiver.datafrom j).ackno = 1 ∧
      (receiver.datafrom j).payload.text =
        (sender.datato j).payload.text
  base : sender.counters = ⟨-1, 0⟩ ∨
    ∃ j : Fin 100, sender.counters.base = (j : Nat) ∧
      (j : Nat) ≤ count ∧
      (∀ k : Fin 100, k < j → (sender.datato k).ackno = 1) ∧
      (sender.datato j).ackno ≠ 1

section BothDirections

variable
    {leftPackets rightPackets : Buffer} {leftCount rightCount : Nat}
    {leftProgress : Progress leftCount}
    {rightProgress : Progress rightCount} {state : Pair}

theorem SenderInv.base_law
    {packets : Buffer} {count announced : Nat} {sender : Sender}
    (inv : SenderInv packets count announced sender)
    (bounded : count ≤ 99) :
    sender.counters = ⟨-1, 0⟩ ∨
      ∃ j : Fin 100, sender.counters.base = (j : Nat) ∧
        (j : Nat) ≤ count ∧
        (∀ k : Fin 100, k < j → (sender.datato k).ackno = 1) ∧
        (sender.datato j).ackno ≠ 1 := by
  cases inv.law with
  | initial counters _ _ => exact Or.inl counters
  | started base nextseq law =>
      have baseBound := law.baseBound
      have total := law.total
      have inside : base < 100 := by omega
      right
      refine
        ⟨⟨base, inside⟩, by rw [law.counters], by simp only; omega,
          ?_, law.atBase _ rfl⟩
      intro k below
      exact law.below k (Fin.lt_def.mp below)

/-- The payload of a slot never changes on the sending side. -/
theorem SenderInv.slot_payload
    {packets : Buffer} {count announced : Nat} {sender : Sender}
    (inv : SenderInv packets count announced sender) (j : Fin 100) :
    (sender.datato j).payload = (packets j).payload := by
  rw [inv.slots j]

/-- The left peer's half of acknowledgement soundness. -/
theorem PairInv.left_ackSound
    (inv : PairInv leftPackets rightPackets leftProgress rightProgress
      state)
    (bounded : leftCount ≤ 99) :
    AckSound leftCount state.left state.right state.toRight where
  flight := by
    intro packet member
    by_cases tag : packet.sno = -1
    · right
      have acked : AckBelow rightProgress.delivered packet := by
        apply inv.rightToLeft.acks
        simp [Pair.leftToRight, Pair.swap, Pack.isAck, member, tag]
      rcases acked with ⟨_, j, number, stored⟩
      exact ⟨tag, j, number, (inv.rightToLeft.holds.filled j).mpr stored⟩
    · left
      have queued : packet ∈ state.leftToRight.wire := by
        simp [Pair.leftToRight, Pack.isAck, member, tag]
      rcases inv.leftToRight.wire_copy queued with
        ⟨number, inside, copy⟩
      have bound : number < 100 := by omega
      refine ⟨⟨number, bound⟩, copy.sno, inside, ?_⟩
      rw [copy.payload, slotAt_of_lt leftPackets bound]
      exact (inv.leftToRight.sender.slot_payload _).symm
  stored := by
    intro j marked
    have delivered := inv.leftToRight.acked j marked
    constructor
    · exact (inv.leftToRight.holds.filled j).mpr delivered
    · exact (inv.leftToRight.holds.texts j delivered).trans
        (congrArg Payload.text
          (inv.leftToRight.sender.slot_payload j).symm)
  base := inv.leftToRight.sender.base_law bounded

/-- The invariant of two peers that were started with files. -/
theorem exists_pairInv
    {leftWindow rightWindow : Int}
    {leftTo leftFrom rightTo rightFrom : Buffer}
    {leftFile rightFile : List Byte} {left right : Peer}
    (leftStarted :
      Peer.start leftWindow leftTo leftFrom leftFile = some left)
    (rightStarted :
      Peer.start rightWindow rightTo rightFrom rightFile = some right)
    {state : Pair} (reaches : PairReaches left right state) :
    ∃ (leftPackets rightPackets : Buffer)
        (leftProgress : Progress (packetCount leftFile))
        (rightProgress : Progress (packetCount rightFile)),
      PairInv leftPackets rightPackets leftProgress rightProgress
        state := by
  rcases Peer.start_cases leftStarted with
    ⟨leftPackets, leftPrepared, leftSide, leftBuffer⟩
  rcases Peer.start_cases rightStarted with
    ⟨rightPackets, rightPrepared, rightSide, rightBuffer⟩
  exact ⟨leftPackets, rightPackets, pair_invariant
    (leftPrepared.sendable (Peer.start_fits leftStarted))
    (rightPrepared.sendable (Peer.start_fits rightStarted)) leftSide
    rightSide leftBuffer rightBuffer reaches⟩

/--
In every reachable state of two peers, packs in flight are genuine, marks on
the sending side mean storage on the other side, and the base is the first
slot that is not acknowledged.
-/
theorem acknowledgements_sound
    (leftWindow rightWindow : Int)
    (leftTo leftFrom rightTo rightFrom : Buffer)
    (leftFile rightFile : List Byte)
    (leftFits : packetCount leftFile ≤ 99)
    (rightFits : packetCount rightFile ≤ 99)
    (left right : Peer)
    (leftStarted :
      Peer.start leftWindow leftTo leftFrom leftFile = some left)
    (rightStarted :
      Peer.start rightWindow rightTo rightFrom rightFile = some right)
    (state : Pair) (reaches : PairReaches left right state) :
    AckSound (packetCount leftFile) state.left state.right
        state.toRight ∧
      AckSound (packetCount rightFile) state.right state.left
        state.toLeft := by
  rcases exists_pairInv leftStarted rightStarted reaches with
    ⟨_, _, _, _, inv⟩
  exact ⟨inv.left_ackSound leftFits, inv.swap.left_ackSound rightFits⟩

/-- Both peers send, each handles what arrived, the left base advances. -/
theorem acknowledgements_sound_exchange :
    ∃ outcome,
      scheduled 1 [104, 105] [111]
          [.sendLeft, .sendRight, .receiveRight, .receiveLeft,
            .receiveLeft] = some outcome ∧
        AckSound 2 outcome.state.left outcome.state.right
          outcome.state.toRight := by
  rcases Option.isSome_iff_exists.mp
      (show (scheduled 1 [104, 105] [111]
        [.sendLeft, .sendRight, .receiveRight, .receiveLeft,
          .receiveLeft]).isSome = true by decide) with
    ⟨outcome, computed⟩
  rcases scheduled_sound computed with ⟨left, right, ran⟩
  refine ⟨outcome, computed, ?_⟩
  exact
    (acknowledgements_sound 1 1 zeroed zeroed zeroed zeroed [104, 105]
      [111] (by decide) (by decide) outcome.left outcome.right left right
      outcome.state (Pair.run_reaches (by simp) ran)).1

/-! ## Leaving through the exit test -/

/-- What the exit of a peer would mean if it waited for the whole exchange. -/
def CompleteAtExit (ownCount otherCount : Nat) (peer : Peer) : Prop :=
  peer.running = false →
    (∀ j : Fin 100, (j : Nat) < ownCount → (peer.datato j).ackno = 1) ∧
      ∀ j : Fin 100, (j : Nat) < otherCount →
        (peer.datafrom j).ackno = 1

/--
What the exit of a peer does mean.  The packets before the last window are
acknowledged; a file of one packet is sent whole by the first call, whatever
the window.
-/
structure TransmittedAtExit (window : Int) (ownCount otherCount : Nat)
    (peer other : Peer) (toOther : List Pack) : Prop where
  acknowledged : ∀ j : Fin 100, 1 < ownCount →
    (j : Int) + window < ownCount → (peer.datato j).ackno = 1
  transmitted : ∀ j : Fin 100, (j : Nat) < ownCount →
    ((other.datafrom j).ackno = 1 ∧
      (other.datafrom j).payload.text = (peer.datato j).payload.text) ∨
    ∃ packet ∈ toOther, packet.sno = (j : Nat) ∧ packet.ackno = -1 ∧
      packet.payload = (peer.datato j).payload
  received : ∃ m ≤ otherCount, ∀ j : Fin 100,
    ((peer.datafrom j).ackno = 1 ↔ (j : Nat) < m) ∧
      ((j : Nat) < m →
        (peer.datafrom j).payload.text = (other.datato j).payload.text)

/--
A peer with an empty file leaves in its first call, with nothing acknowledged
and nothing received.
-/
theorem exit_before_exchange :
    ¬ ∀ (leftWindow rightWindow : Int)
        (leftTo leftFrom rightTo rightFrom : Buffer)
        (leftFile rightFile : List Byte) (left right : Peer)
        (state : Pair),
        Peer.start leftWindow leftTo leftFrom leftFile = some left →
        Peer.start rightWindow rightTo rightFrom rightFile =
          some right →
        PairReaches left right state →
          CompleteAtExit (packetCount leftFile) (packetCount rightFile)
              state.left ∧
            CompleteAtExit (packetCount rightFile)
              (packetCount leftFile) state.right := by
  intro claim
  rcases Option.isSome_iff_exists.mp
      (show (scheduled 4 [] [] [.sendLeft]).isSome = true by decide) with
    ⟨outcome, computed⟩
  have final :
      (scheduled 4 [] [] [.sendLeft]).map
        (fun outcome =>
          (outcome.state.left.running,
            (outcome.state.left.datato 0).ackno)) =
        some (false, -1) := by
    decide
  simp only [computed, Option.map_some, Option.some.injEq,
    Prod.mk.injEq] at final
  rcases scheduled_sound computed with ⟨left, right, ran⟩
  have complete :=
    (claim 4 4 zeroed zeroed zeroed zeroed [] [] outcome.left
      outcome.right outcome.state left right
      (Pair.run_reaches (by simp) ran)).1
  have marked := (complete final.1).1 0 (by decide)
  rw [final.2] at marked
  cases marked

theorem PairInv.left_transmittedAtExit
    (inv : PairInv leftPackets rightPackets leftProgress rightProgress
      state)
    (exited : state.left.running = false) :
    TransmittedAtExit state.left.window leftCount rightCount state.left
      state.right state.toRight where
  acknowledged j several before :=
    inv.leftToRight.sender.acknowledged_of_exit exited several j before
  transmitted := by
    intro j inside
    have announced := inv.leftToRight.sender.announced_of_exit exited
    have payload := inv.leftToRight.sender.slot_payload j
    by_cases delivered : (j : Nat) < leftProgress.delivered
    · left
      constructor
      · exact (inv.leftToRight.holds.filled j).mpr delivered
      · exact (inv.leftToRight.holds.texts j delivered).trans
          (congrArg Payload.text payload.symm)
    · right
      rcases inv.leftToRight.wire.exists_fresh
          (show leftProgress.delivered ≤ (j : Nat) by omega)
          (show (j : Nat) < leftProgress.announced by omega) with
        ⟨packet, queued, copy, fresh⟩
      have member : packet ∈ state.toRight :=
        (List.mem_filter.mp queued).1
      refine ⟨packet, member, copy.sno, fresh, ?_⟩
      rw [copy.payload, slotAt_coe]
      exact payload.symm
  received := by
    refine
      ⟨rightProgress.delivered,
        rightProgress.ordered.trans rightProgress.bounded, ?_⟩
    intro j
    constructor
    · exact inv.rightToLeft.holds.filled j
    · intro delivered
      exact (inv.rightToLeft.holds.texts j delivered).trans
        (congrArg Payload.text
          (inv.rightToLeft.sender.slot_payload j).symm)

/--
A peer that has left has transmitted its whole file: every packet is stored by
the other peer or on its way there as data, and the packets before the last
window are acknowledged.  Of the other peer's file it holds some first
packets.
-/
theorem exit_after_transmission
    (leftWindow rightWindow : Int)
    (leftTo leftFrom rightTo rightFrom : Buffer)
    (leftFile rightFile : List Byte) (left right : Peer)
    (leftStarted :
      Peer.start leftWindow leftTo leftFrom leftFile = some left)
    (rightStarted :
      Peer.start rightWindow rightTo rightFrom rightFile = some right)
    (state : Pair) (reaches : PairReaches left right state) :
    (state.left.running = false →
      TransmittedAtExit leftWindow (packetCount leftFile)
        (packetCount rightFile) state.left state.right state.toRight) ∧
      (state.right.running = false →
        TransmittedAtExit rightWindow (packetCount rightFile)
          (packetCount leftFile) state.right state.left
          state.toLeft) := by
  rcases exists_pairInv leftStarted rightStarted reaches with
    ⟨_, _, _, _, inv⟩
  have kept := reaches.window_kept
  have leftKept := kept.1.trans (Peer.start_window leftStarted)
  have rightKept := kept.2.trans (Peer.start_window rightStarted)
  constructor
  · intro exited
    rw [← leftKept]
    exact inv.left_transmittedAtExit exited
  · intro exited
    rw [← rightKept]
    exact inv.swap.left_transmittedAtExit exited

/--
With window 1 the left peer leaves once packet 0 is acknowledged, while packet
1 is in flight.
-/
theorem exit_after_transmission_hi :
    ∃ outcome,
      scheduled 1 [104, 105] [111]
          [.sendLeft, .receiveRight, .receiveLeft, .sendLeft] =
            some outcome ∧
        outcome.state.left.running = false ∧
        TransmittedAtExit 1 2 2 outcome.state.left outcome.state.right
          outcome.state.toRight := by
  rcases Option.isSome_iff_exists.mp
      (show (scheduled 1 [104, 105] [111]
          [.sendLeft, .receiveRight, .receiveLeft, .sendLeft]).isSome =
            true by
        decide) with
    ⟨outcome, computed⟩
  have final :
      (scheduled 1 [104, 105] [111]
          [.sendLeft, .receiveRight, .receiveLeft, .sendLeft]).map
        (fun outcome => outcome.state.left.running) = some false := by
    decide
  simp only [computed, Option.map_some, Option.some.injEq] at final
  rcases scheduled_sound computed with ⟨left, right, ran⟩
  refine ⟨outcome, computed, final, ?_⟩
  exact
    (exit_after_transmission 1 1 zeroed zeroed zeroed zeroed [104, 105]
      [111] outcome.left outcome.right left right
      outcome.state (Pair.run_reaches (by simp) ran)).1 final

end BothDirections

end NetworkingLab.SelectiveRepeat
