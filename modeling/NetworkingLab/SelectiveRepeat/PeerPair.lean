import NetworkingLab.SelectiveRepeat.Transfer

/-!
# Two connected peers

Two peers run the same code over a connection that carries whole packs in
both directions, in order and without loss.  Each peer is a sender and a
receiver at once: a step is either one call of `sendpacket` or the handling of
the pack that arrives next.  A peer that has left through `exit(0)` makes no
further step; packs on their way to it stay undelivered.

Seen from one peer, a channel mixes its data packs with the acknowledgements
it returns.  `leftToRight` separates them: it is the state of one direction,
and every step of the pair is a step of that direction or leaves it alone
(`leftToRight_refines`).  The other direction follows by swapping the peers.
-/

namespace NetworkingLab.SelectiveRepeat

open NetworkingLab.Foundation.InOrder
open NetworkingLab.Foundation.Delivery

/-- The two peers and the packs on their way to each of them. -/
structure Pair where
  left : Peer
  right : Peer
  toLeft : List Pack
  toRight : List Pack

/-- What a step of the pair does. -/
inductive Action where
  | sendLeft
  | sendRight
  | receiveLeft
  | receiveRight
deriving DecidableEq

/-- The steps of the pair. -/
inductive PairStep : Pair → Action → Pair → Prop where
  | sendLeft {state : Pair} {peer : Peer} {sent : List Pack}
      (running : state.left.running = true)
      (call : state.left.send = some (peer, sent)) :
      PairStep state .sendLeft
        { state with left := peer, toRight := state.toRight ++ sent }
  | sendRight {state : Pair} {peer : Peer} {sent : List Pack}
      (running : state.right.running = true)
      (call : state.right.send = some (peer, sent)) :
      PairStep state .sendRight
        { state with right := peer, toLeft := state.toLeft ++ sent }
  | receiveLeft {state : Pair} {peer : Peer}
      {incomming : Pack} {rest replies : List Pack} (junk : Payload)
      (running : state.left.running = true)
      (arrival : state.toLeft = incomming :: rest)
      (call : dispatch junk incomming state.left = some (peer, replies)) :
      PairStep state .receiveLeft
        { state with
          left := peer
          toLeft := rest
          toRight := state.toRight ++ replies }
  | receiveRight {state : Pair} {peer : Peer}
      {incomming : Pack} {rest replies : List Pack} (junk : Payload)
      (running : state.right.running = true)
      (arrival : state.toRight = incomming :: rest)
      (call : dispatch junk incomming state.right = some (peer, replies)) :
      PairStep state .receiveRight
        { state with
          right := peer
          toRight := rest
          toLeft := state.toLeft ++ replies }

/-- The step an action stands for, when it is possible and defined. -/
def Pair.perform (junk : Payload) (state : Pair) : Action → Option Pair
  | .sendLeft =>
      if state.left.running = true then
        state.left.send.map fun result =>
          { state with
            left := result.1
            toRight := state.toRight ++ result.2 }
      else
        none
  | .sendRight =>
      if state.right.running = true then
        state.right.send.map fun result =>
          { state with
            right := result.1
            toLeft := state.toLeft ++ result.2 }
      else
        none
  | .receiveLeft =>
      match state.toLeft with
      | [] => none
      | incomming :: rest =>
          if state.left.running = true then
            (dispatch junk incomming state.left).map fun result =>
              { state with
                left := result.1
                toLeft := rest
                toRight := state.toRight ++ result.2 }
          else
            none
  | .receiveRight =>
      match state.toRight with
      | [] => none
      | incomming :: rest =>
          if state.right.running = true then
            (dispatch junk incomming state.right).map fun result =>
              { state with
                right := result.1
                toRight := rest
                toLeft := state.toLeft ++ result.2 }
          else
            none

theorem Pair.perform_sound
    {junk : Payload} {before after : Pair} {action : Action}
    (performed : before.perform junk action = some after) :
    PairStep before action after := by
  cases action with
  | sendLeft =>
      simp only [Pair.perform, Option.ite_none_right_eq_some,
        Option.map_eq_some_iff] at performed
      rcases performed with ⟨running, ⟨peer, sent⟩, call, rfl⟩
      exact .sendLeft running call
  | sendRight =>
      simp only [Pair.perform, Option.ite_none_right_eq_some,
        Option.map_eq_some_iff] at performed
      rcases performed with ⟨running, ⟨peer, sent⟩, call, rfl⟩
      exact .sendRight running call
  | receiveLeft =>
      cases arrival : before.toLeft with
      | nil => simp [Pair.perform, arrival] at performed
      | cons incomming rest =>
          simp only [Pair.perform, arrival,
            Option.ite_none_right_eq_some,
            Option.map_eq_some_iff] at performed
          rcases performed with ⟨running, ⟨peer, replies⟩, call, rfl⟩
          exact .receiveLeft junk running arrival call
  | receiveRight =>
      cases arrival : before.toRight with
      | nil => simp [Pair.perform, arrival] at performed
      | cons incomming rest =>
          simp only [Pair.perform, arrival,
            Option.ite_none_right_eq_some,
            Option.map_eq_some_iff] at performed
          rcases performed with ⟨running, ⟨peer, replies⟩, call, rfl⟩
          exact .receiveRight junk running arrival call

/-! ## Symmetry -/

/-- The same pair with the names of the peers exchanged. -/
def Pair.swap (state : Pair) : Pair :=
  ⟨state.right, state.left, state.toRight, state.toLeft⟩

/-- The same step with the names of the peers exchanged. -/
def Action.swap : Action → Action
  | .sendLeft => .sendRight
  | .sendRight => .sendLeft
  | .receiveLeft => .receiveRight
  | .receiveRight => .receiveLeft

theorem PairStep.swap
    {before after : Pair} {action : Action}
    (step : PairStep before action after) :
    PairStep before.swap action.swap after.swap := by
  cases step with
  | sendLeft running call => exact .sendRight running call
  | sendRight running call => exact .sendLeft running call
  | receiveLeft junk running arrival call =>
      exact .receiveRight junk running arrival call
  | receiveRight junk running arrival call =>
      exact .receiveLeft junk running arrival call

/-! ## What `dispatch` does with one pack -/

theorem dispatch_ack
    {junk : Payload} {incomming : Pack} {peer next : Peer}
    {replies : List Pack}
    (tag : incomming.sno = -1) (number : incomming.ackno ≠ -1)
    (call : dispatch junk incomming peer = some (next, replies)) :
    ∃ sender, peer.toSender.receiveAck incomming = some sender ∧
      next = { peer with toSender := sender } ∧ replies = [] := by
  simp only [dispatch, dispatchAck, tag, if_true] at call
  cases acked : peer.toSender.receiveAck incomming with
  | none => simp [acked] at call
  | some sender =>
      simp only [acked, Option.map_some, dispatchData, number, if_false,
        Option.some.injEq, Prod.mk.injEq] at call
      exact ⟨sender, rfl, call.1.symm, call.2.symm⟩

theorem dispatch_data
    {junk : Payload} {incomming : Pack} {peer next : Peer}
    {replies : List Pack}
    (tag : incomming.sno ≠ -1) (unmarked : incomming.ackno = -1)
    (call : dispatch junk incomming peer = some (next, replies)) :
    ∃ datafrom, dataprocess incomming peer.datafrom = some datafrom ∧
      next = { peer with datafrom := datafrom } ∧
      replies = [ackpacket junk incomming] := by
  simp only [dispatch, dispatchAck, tag, if_false, dispatchData,
    unmarked, if_true] at call
  cases stored : dataprocess incomming peer.datafrom with
  | none => simp [stored] at call
  | some datafrom =>
      simp only [stored, Option.map_some, Option.some.injEq,
        Prod.mk.injEq] at call
      exact ⟨datafrom, rfl, call.1.symm, call.2.symm⟩

theorem dispatch_ignored
    {junk : Payload} {incomming : Pack} {peer : Peer}
    (tag : incomming.sno ≠ -1) (marked : incomming.ackno ≠ -1) :
    dispatch junk incomming peer = some (peer, []) := by
  simp [dispatch, dispatchAck, tag, dispatchData, marked]

/-- A data pack never touches the sending side of its receiver. -/
theorem dispatch_data_sender
    {junk : Payload} {incomming : Pack} {peer next : Peer}
    {replies : List Pack}
    (tag : incomming.sno ≠ -1)
    (call : dispatch junk incomming peer = some (next, replies)) :
    next.toSender = peer.toSender ∧
      ∀ packet ∈ replies, packet.sno = -1 := by
  by_cases unmarked : incomming.ackno = -1
  · rcases dispatch_data tag unmarked call with ⟨_, _, rfl, rfl⟩
    simp [ackpacket]
  · rw [dispatch_ignored tag unmarked] at call
    cases call
    simp

/-! ## One direction of the pair -/

/-- The test by which the receive branch of `main` recognises an ack. -/
def Pack.isAck (packet : Pack) : Bool :=
  packet.sno = -1

/-- The direction from the left peer to the right one. -/
def Pair.leftToRight (state : Pair) : Transfer where
  sender := state.left.toSender
  datafrom := state.right.datafrom
  wire := state.toRight.filter fun packet => !packet.isAck
  acks := state.toLeft.filter Pack.isAck

theorem filter_data_of_data
    {packs : List Pack} (data : ∀ packet ∈ packs, packet.sno ≠ -1) :
    packs.filter (fun packet => !packet.isAck) = packs := by
  rw [List.filter_eq_self]
  intro packet member
  simp [Pack.isAck, data packet member]

theorem filter_ack_of_data
    {packs : List Pack} (data : ∀ packet ∈ packs, packet.sno ≠ -1) :
    packs.filter Pack.isAck = [] := by
  rw [List.filter_eq_nil_iff]
  intro packet member
  simp [Pack.isAck, data packet member]

theorem filter_data_of_acks
    {packs : List Pack} (acks : ∀ packet ∈ packs, packet.sno = -1) :
    packs.filter (fun packet => !packet.isAck) = [] := by
  rw [List.filter_eq_nil_iff]
  intro packet member
  simp [Pack.isAck, acks packet member]

theorem CopyOf.data
    {packets : Buffer} {number : Nat} {packet : Pack}
    (copy : CopyOf packets number packet) :
    packet.sno ≠ -1 := by
  have := copy.sno
  omega

theorem AckBelow.number_ne
    {delivered : Nat} {packet : Pack}
    (below : AckBelow delivered packet) :
    packet.ackno ≠ -1 := by
  rcases below with ⟨_, j, number, _⟩
  omega

/-- A call of `sendpacket` puts data packs on the wire and nothing else. -/
theorem SenderInv.sent_data
    {packets : Buffer} {count announced : Nat} {sender next : Sender}
    (inv : SenderInv packets count announced sender)
    (sendable : Sendable count packets)
    {sent : List Transmission}
    (running : sender.running = true)
    (call : sender.send = some (next, sent)) :
    ∀ packet ∈ sent.map Transmission.packet, packet.sno ≠ -1 := by
  rcases inv.send sendable running with
    ⟨_, packs, _, returns, _, announces⟩
  cases returns.eq_of_some call
  intro packet member
  rcases announces.copy_of_mem member with ⟨_, _, copy⟩
  exact copy.data

/--
A step of the pair is a step of the direction from left to right or does not
touch it, provided that packs which the right peer takes for acknowledgements
are not data as well, and that the right peer sends only data packs.
-/
theorem leftToRight_step
    {packets : Buffer} {count : Nat} {progress : Progress count}
    {state next : Pair} {action : Action}
    (inv : TransferInv packets progress state.leftToRight)
    (sendable : Sendable count packets)
    (tagged : ∀ packet ∈ state.toRight,
      packet.sno = -1 → packet.ackno ≠ -1)
    (rightSends : action = .sendRight →
      ∀ sender sent,
        state.right.toSender.send = some (sender, sent) →
          ∀ packet ∈ sent.map Transmission.packet, packet.sno ≠ -1)
    (step : PairStep state action next) :
    next.leftToRight = state.leftToRight ∨
      TransferStep state.leftToRight next.leftToRight := by
  cases step with
  | sendLeft running call =>
      right
      rcases Peer.send_cases call with ⟨sender, sent, defined, rfl, rfl⟩
      have data := inv.sender.sent_data sendable running defined
      have moved : TransferStep state.leftToRight _ :=
        .send running defined
      simpa [Pair.leftToRight, List.filter_append,
        filter_data_of_data data] using moved
  | sendRight running call =>
      left
      rcases Peer.send_cases call with ⟨sender, sent, defined, rfl, rfl⟩
      have data := rightSends rfl sender sent defined
      simp [Pair.leftToRight, List.filter_append,
        filter_ack_of_data data]
  | @receiveLeft peer incomming rest replies junk running arrival
      call =>
      by_cases tag : incomming.sno = -1
      · right
        have head : state.leftToRight.acks =
            incomming :: rest.filter Pack.isAck := by
          simp [Pair.leftToRight, arrival, Pack.isAck, tag]
        have number : incomming.ackno ≠ -1 :=
          (inv.acks incomming (by simp [head])).number_ne
        rcases dispatch_ack tag number call with
          ⟨sender, defined, rfl, rfl⟩
        simpa [Pair.leftToRight] using TransferStep.ack head defined
      · left
        rcases dispatch_data_sender tag call with ⟨same, acks⟩
        have data : incomming.isAck = false := by
          simp [Pack.isAck, tag]
        simp [Pair.leftToRight, arrival, data, same,
          List.filter_append, filter_data_of_acks acks]
  | @receiveRight peer incomming rest replies junk running arrival
      call =>
      by_cases tag : incomming.sno = -1
      · left
        have number : incomming.ackno ≠ -1 :=
          tagged incomming (by simp [arrival]) tag
        rcases dispatch_ack tag number call with
          ⟨sender, defined, rfl, rfl⟩
        simp [Pair.leftToRight, arrival, Pack.isAck, tag]
      · right
        have head : state.leftToRight.wire =
            incomming :: rest.filter fun packet => !packet.isAck := by
          simp [Pair.leftToRight, arrival, Pack.isAck, tag]
        by_cases unmarked : incomming.ackno = -1
        · rcases dispatch_data tag unmarked call with
            ⟨datafrom, defined, rfl, rfl⟩
          simpa [Pair.leftToRight, List.filter_append, Pack.isAck,
            ackpacket] using TransferStep.store junk head unmarked defined
        · rw [dispatch_ignored tag unmarked] at call
          cases call
          simpa [Pair.leftToRight] using TransferStep.skip head unmarked

/-- The direction from left to right refines the abstract delivery. -/
theorem leftToRight_refines
    {packets : Buffer} {count : Nat} {progress : Progress count}
    {state next : Pair} {action : Action}
    (inv : TransferInv packets progress state.leftToRight)
    (sendable : Sendable count packets)
    (tagged : ∀ packet ∈ state.toRight,
      packet.sno = -1 → packet.ackno ≠ -1)
    (rightSends : action = .sendRight →
      ∀ sender sent,
        state.right.toSender.send = some (sender, sent) →
          ∀ packet ∈ sent.map Transmission.packet, packet.sno ≠ -1)
    (step : PairStep state action next) :
    ∃ later : Progress count,
      Progress.Reaches progress later ∧
        TransferInv packets later next.leftToRight := by
  rcases leftToRight_step inv sendable tagged rightSends step with
    same | moved
  · rw [same]
    exact ⟨progress, .refl, inv⟩
  · exact inv.step_refines sendable moved

/-! ## The invariant of the pair -/

/-- Both directions of the pair obey their invariants. -/
structure PairInv (leftPackets rightPackets : Buffer)
    {leftCount rightCount : Nat}
    (leftProgress : Progress leftCount)
    (rightProgress : Progress rightCount) (state : Pair) : Prop where
  leftToRight : TransferInv leftPackets leftProgress state.leftToRight
  rightToLeft : TransferInv rightPackets rightProgress
    state.swap.leftToRight

namespace PairInv

variable
    {leftPackets rightPackets : Buffer} {leftCount rightCount : Nat}
    {leftProgress : Progress leftCount}
    {rightProgress : Progress rightCount} {state : Pair}

theorem swap
    (inv : PairInv leftPackets rightPackets leftProgress rightProgress
      state) :
    PairInv rightPackets leftPackets rightProgress leftProgress
      state.swap :=
  ⟨inv.rightToLeft, inv.leftToRight⟩

/-- A pack in flight is never acknowledgement and data at once. -/
theorem tagged
    (inv : PairInv leftPackets rightPackets leftProgress rightProgress
      state) :
    ∀ packet ∈ state.toRight, packet.sno = -1 → packet.ackno ≠ -1 := by
  intro packet member tag
  apply AckBelow.number_ne
  apply inv.rightToLeft.acks
  simp [Pair.leftToRight, Pair.swap, Pack.isAck, member, tag]

/-- The direction from left to right after one step of the pair. -/
theorem left_step
    (inv : PairInv leftPackets rightPackets leftProgress rightProgress
      state)
    (leftSendable : Sendable leftCount leftPackets)
    (rightSendable : Sendable rightCount rightPackets)
    {next : Pair} {action : Action}
    (step : PairStep state action next) :
    ∃ later : Progress leftCount,
      Progress.Reaches leftProgress later ∧
        TransferInv leftPackets later next.leftToRight := by
  apply leftToRight_refines inv.leftToRight leftSendable inv.tagged ?_
    step
  intro sends sender sent call
  subst sends
  cases step with
  | sendRight running _ =>
      exact inv.rightToLeft.sender.sent_data rightSendable running call

/-- Step lemma: both directions advance along their abstract deliveries. -/
theorem step
    (inv : PairInv leftPackets rightPackets leftProgress rightProgress
      state)
    (leftSendable : Sendable leftCount leftPackets)
    (rightSendable : Sendable rightCount rightPackets)
    {next : Pair} {action : Action}
    (step : PairStep state action next) :
    ∃ (leftLater : Progress leftCount) (rightLater : Progress rightCount),
      Progress.Reaches leftProgress leftLater ∧
        Progress.Reaches rightProgress rightLater ∧
        PairInv leftPackets rightPackets leftLater rightLater next := by
  rcases inv.left_step leftSendable rightSendable step with
    ⟨leftLater, leftReaches, leftInv⟩
  rcases inv.swap.left_step rightSendable leftSendable step.swap with
    ⟨rightLater, rightReaches, rightInv⟩
  exact
    ⟨leftLater, rightLater, leftReaches, rightReaches,
      leftInv, rightInv⟩

end PairInv

/-! ## Runs -/

/-- One step whose action is allowed. -/
def PairMove (allowed : Action → Prop) (before after : Pair) : Prop :=
  ∃ action, allowed action ∧ PairStep before action after

/-- The states two started peers can reach, in any interleaving. -/
abbrev PairReaches (left right : Peer) (state : Pair) : Prop :=
  Relation.ReflTransGen (PairMove fun _ => True)
    ⟨left, right, [], []⟩ state

/-- The states of a sender and a peer that never calls `sendpacket`. -/
abbrev OneWayReaches (sender receiver : Peer) (state : Pair) : Prop :=
  Relation.ReflTransGen (PairMove fun action => action ≠ .sendRight)
    ⟨sender, receiver, [], []⟩ state

theorem PairStep.window_kept
    {state next : Pair} {action : Action}
    (step : PairStep state action next) :
    next.left.window = state.left.window ∧
      next.right.window = state.right.window := by
  cases step with
  | sendLeft _ call => exact ⟨Peer.send_window call, rfl⟩
  | sendRight _ call => exact ⟨rfl, Peer.send_window call⟩
  | receiveLeft _ _ _ call => exact ⟨dispatch_window call, rfl⟩
  | receiveRight _ _ _ call => exact ⟨rfl, dispatch_window call⟩

/-- The peers keep the windows they were started with. -/
theorem PairReaches.window_kept
    {left right : Peer} {state : Pair}
    (reaches : PairReaches left right state) :
    state.left.window = left.window ∧
      state.right.window = right.window := by
  induction reaches with
  | refl => exact ⟨rfl, rfl⟩
  | tail _ move induction =>
      rcases move with ⟨action, _, step⟩
      have kept := step.window_kept
      exact ⟨kept.1.trans induction.1, kept.2.trans induction.2⟩

/-- Run lemma: every reachable state obeys the invariant of the pair. -/
theorem pair_invariant
    {leftPackets rightPackets : Buffer} {leftCount rightCount : Nat}
    (leftSendable : Sendable leftCount leftPackets)
    (rightSendable : Sendable rightCount rightPackets)
    {left right : Peer} {leftWindow rightWindow : Int}
    {leftMemory rightMemory : Buffer}
    (leftSide : left.toSender =
      ⟨leftWindow, leftPackets, ⟨-1, 0⟩, true⟩)
    (rightSide : right.toSender =
      ⟨rightWindow, rightPackets, ⟨-1, 0⟩, true⟩)
    (leftBuffer : left.datafrom = makeinvalid leftMemory)
    (rightBuffer : right.datafrom = makeinvalid rightMemory)
    {state : Pair} (reaches : PairReaches left right state) :
    ∃ (leftProgress : Progress leftCount)
        (rightProgress : Progress rightCount),
      PairInv leftPackets rightPackets leftProgress rightProgress
        state := by
  induction reaches with
  | refl =>
      refine ⟨Progress.start _, Progress.start _, ?_, ?_⟩
      · simpa [Pair.leftToRight, leftSide, rightBuffer] using
          TransferInv.start leftSendable leftWindow rightMemory
      · simpa [Pair.leftToRight, Pair.swap, rightSide, leftBuffer] using
          TransferInv.start rightSendable rightWindow leftMemory
  | tail _ move induction =>
      rcases induction with ⟨leftProgress, rightProgress, inv⟩
      rcases move with ⟨action, _, step⟩
      rcases inv.step leftSendable rightSendable step with
        ⟨leftLater, rightLater, _, _, laterInv⟩
      exact ⟨leftLater, rightLater, laterInv⟩

/-! ## Executable schedules -/

/-- Perform a list of actions. -/
def Pair.run (junk : Payload) (state : Pair) :
    List Action → Option Pair
  | [] => some state
  | action :: rest =>
      match state.perform junk action with
      | none => none
      | some next => next.run junk rest

theorem Pair.run_reaches
    {allowed : Action → Prop} {junk : Payload}
    {schedule : List Action} {before after : Pair}
    (permitted : ∀ action ∈ schedule, allowed action)
    (computed : before.run junk schedule = some after) :
    Relation.ReflTransGen (PairMove allowed) before after := by
  induction schedule generalizing before with
  | nil =>
      cases computed
      exact .refl
  | cons action rest induction =>
      rw [Pair.run] at computed
      split at computed
      · cases computed
      · next middle performed =>
          have move : PairMove allowed before middle :=
            ⟨action, permitted action (by simp),
              Pair.perform_sound performed⟩
          have later := induction
            (fun other member => permitted other (by simp [member]))
            computed
          exact .head move later

/-- Two started peers and the state a schedule leads them to. -/
structure Outcome where
  left : Peer
  right : Peer
  state : Pair

/-- Start two peers on zeroed blocks, with one window, and run a schedule. -/
def scheduled (window : Int)
    (leftFile rightFile : List Foundation.CString.Byte)
    (schedule : List Action) : Option Outcome :=
  match Peer.start window zeroed zeroed leftFile,
      Peer.start window zeroed zeroed rightFile with
  | some left, some right =>
      (Pair.run zeroPayload ⟨left, right, [], []⟩ schedule).map
        fun state => ⟨left, right, state⟩
  | _, _ => none

theorem scheduled_sound
    {window : Int} {leftFile rightFile : List Foundation.CString.Byte}
    {schedule : List Action} {outcome : Outcome}
    (computed : scheduled window leftFile rightFile schedule =
      some outcome) :
    Peer.start window zeroed zeroed leftFile = some outcome.left ∧
      Peer.start window zeroed zeroed rightFile = some outcome.right ∧
      Pair.run zeroPayload ⟨outcome.left, outcome.right, [], []⟩
        schedule = some outcome.state := by
  unfold scheduled at computed
  split at computed
  · next left right leftStarted rightStarted =>
      simp only [Option.map_eq_some_iff] at computed
      rcases computed with ⟨state, ran, rfl⟩
      exact ⟨leftStarted, rightStarted, ran⟩
  · cases computed

end NetworkingLab.SelectiveRepeat
