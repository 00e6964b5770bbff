import NetworkingLab.Foundation.Runs
import NetworkingLab.SelectiveRepeat.Peer

/-!
# Packs from anywhere

A peer that may receive any pack at all.  The two tests of `main` look at one
field each, the handlers take the other field for an index without looking at
it, and `dataprocess` copies the payload with `strcpy`.

`handled_once_iff` says, for every state that such a peer can reach, which packs
are handled inside the two blocks by exactly one of the handlers.  Of the
state only two things matter: whether the base is still -1, and whether the
slot of a data pack is filled already.
-/

namespace NetworkingLab.SelectiveRepeat

open NetworkingLab.Foundation.CString
open NetworkingLab.Foundation.Runs

/-- A call of `sendpacket`, or a pack from the network. -/
inductive PeerEvent where
  | send
  | receive (incomming : Pack)

/-- The steps of a peer whose environment sends it what it likes. -/
inductive PeerStep : Peer → PeerEvent → Peer → Prop where
  | send {peer next : Peer} {sent : List Pack}
      (running : peer.running = true)
      (defined : peer.send = some (next, sent)) :
      PeerStep peer .send next
  | receive {peer next : Peer} {incomming : Pack} {replies : List Pack}
      (junk : Payload)
      (running : peer.running = true)
      (defined : dispatch junk incomming peer = some (next, replies)) :
      PeerStep peer (.receive incomming) next

/--
The pack is handled inside the blocks and its payload, and exactly one of the
two tests of `main` succeeds.
-/
structure HandledOnce (junk : Payload) (incomming : Pack) (peer : Peer) :
    Prop where
  inside : (dispatch junk incomming peer).isSome
  one : incomming.sno = -1 ↔ incomming.ackno ≠ -1

/-- An acknowledgement of a slot, to a peer that has sent something. -/
def AckInside (incomming : Pack) (peer : Peer) : Prop :=
  (∃ j : Fin 100, incomming.ackno = (j : Nat)) ∧
    peer.counters.base ≠ -1

/-- Data for a slot, which is filled already or gets a terminated payload. -/
def DataInside (incomming : Pack) (peer : Peer) : Prop :=
  ∃ j : Fin 100, incomming.sno = (j : Nat) ∧
    ((peer.datafrom j).ackno = 1 ∨ incomming.payload.Terminated)

/-- An acknowledgement or data, with its index in the block. -/
def Acceptable (incomming : Pack) (peer : Peer) : Prop :=
  incomming.sno = -1 ∧ AckInside incomming peer ∨
    incomming.ackno = -1 ∧ DataInside incomming peer

/-! ## The base -/

/-- The base is the initial one or the number of a slot. -/
def BaseLaw (base : Int) : Prop :=
  base = -1 ∨ 0 ≤ base

theorem retransmit_base
    {buffer : Buffer} {next i bas : Int} {passes : Nat}
    {counters final : Counters} {sent : List Transmission}
    (same : counters.base = bas) (law : BaseLaw bas)
    (call : retransmit buffer next passes i bas counters =
      some (final, sent)) :
    BaseLaw final.base := by
  induction passes generalizing i bas counters sent with
  | zero =>
      cases call
      rw [same]
      exact law
  | succ passes induction =>
      simp only [retransmit] at call
      split at call
      · next first =>
          split at call
          · cases call
          · simp only [Option.map_eq_some_iff, Prod.mk.injEq] at call
            rcases call with ⟨⟨_, _⟩, rest, rfl, _⟩
            have opened : BaseLaw (bas + 1) := Or.inr (by omega)
            have stored : (⟨bas + 1, 1⟩ : Counters).base = bas + 1 := rfl
            exact induction stored opened rest
      · split at call
        · cases call
        · split at call
          · split at call
            · cases call
            · simp only [Option.map_eq_some_iff, Prod.mk.injEq] at call
              rcases call with ⟨⟨_, _⟩, rest, rfl, _⟩
              exact induction same law rest
          · exact induction same law call

theorem Sender.send_base
    {sender next : Sender} {sent : List Transmission}
    (law : BaseLaw sender.counters.base)
    (call : sender.send = some (next, sent)) :
    BaseLaw next.counters.base := by
  rcases Sender.send_cases call with ⟨result, defined, rfl, _⟩
  rcases sendpacket_cases defined with ⟨started, first, same, _⟩
  simp only [same]
  exact retransmit_base rfl law first

theorem Sender.receiveAck_base
    {sender next : Sender} {incomming : Pack}
    (law : BaseLaw sender.counters.base)
    (call : sender.receiveAck incomming = some next) :
    BaseLaw next.counters.base := by
  rcases Sender.receiveAck_cases call with ⟨datato, base, acked, rfl⟩
  have moved := ackprocess_le acked
  simp only [BaseLaw] at law ⊢
  omega

/-- The branch for data leaves the sending side alone. -/
theorem dispatchData_sender
    {junk : Payload} {incomming : Pack} {peer next : Peer}
    {replies : List Pack}
    (call : dispatchData junk incomming peer = some (next, replies)) :
    next.toSender = peer.toSender := by
  simp only [dispatchData] at call
  split at call
  · simp only [Option.map_eq_some_iff, Prod.mk.injEq] at call
    rcases call with ⟨datafrom, _, rfl, _⟩
    rfl
  · cases call
    rfl

/-- A pack reaches the sending side through `ackprocess` only. -/
theorem dispatch_sender
    {junk : Payload} {incomming : Pack} {peer next : Peer}
    {replies : List Pack}
    (call : dispatch junk incomming peer = some (next, replies)) :
    next.toSender = peer.toSender ∨
      peer.toSender.receiveAck incomming = some next.toSender := by
  simp only [dispatch, dispatchAck] at call
  split at call
  · cases call
  · next acked =>
      rw [dispatchData_sender call]
      split at acked
      · simp only [Option.map_eq_some_iff] at acked
        rcases acked with ⟨sender, acked, rfl⟩
        exact Or.inr acked
      · cases acked
        exact Or.inl rfl

theorem dispatch_base
    {junk : Payload} {incomming : Pack} {peer next : Peer}
    {replies : List Pack}
    (law : BaseLaw peer.counters.base)
    (call : dispatch junk incomming peer = some (next, replies)) :
    BaseLaw next.counters.base := by
  rcases dispatch_sender call with same | acked
  · rw [same]
    exact law
  · exact Sender.receiveAck_base law acked

/-- No step breaks the law. -/
theorem PeerStep.base
    {peer next : Peer} {event : PeerEvent}
    (law : BaseLaw peer.counters.base)
    (move : PeerStep peer event next) :
    BaseLaw next.counters.base := by
  cases move with
  | send _ defined =>
      rcases Peer.send_cases defined with ⟨sender, sent, call, rfl, _⟩
      exact Sender.send_base law call
  | receive junk _ defined => exact dispatch_base law defined

/-! ## The handlers -/

/-- The loop of `ackprocess` reads slots only, unless the base is -1. -/
theorem advanceBase_isSome_iff
    (buffer : Buffer) {base : Int} (law : BaseLaw base) :
    (advanceBase buffer (100 - base).toNat base base).isSome ↔
      base ≠ -1 := by
  rcases law with rfl | started
  · have outside : slotIndex (-1) = none :=
      (slotIndex_eq_none_iff _).mpr (Or.inl (by decide))
    simp [advanceBase, readSlot, outside]
  · obtain ⟨first, rfl⟩ := Int.eq_ofNat_of_zero_le started
    have other : (first : Int) ≠ -1 := by omega
    rcases Nat.lt_or_ge 100 first with behind | inside
    · have none_left : (100 - (first : Int)).toNat = 0 := by omega
      simp [none_left, advanceBase, other]
    · rcases advanceBase_spec buffer (100 - first) first (by omega) with
        ⟨stop, run, _⟩
      have slots : (100 - (first : Int)).toNat = 100 - first := by omega
      simp [slots, run, other]

theorem ackprocess_isSome_iff
    (incomming : Pack) (buffer : Buffer) {base : Int}
    (law : BaseLaw base) :
    (ackprocess incomming buffer base).isSome ↔
      (∃ j : Fin 100, incomming.ackno = (j : Nat)) ∧ base ≠ -1 := by
  cases index : slotIndex incomming.ackno with
  | none =>
      have absent : ¬ ∃ j : Fin 100, incomming.ackno = (j : Nat) := by
        rintro ⟨j, number⟩
        rw [(slotIndex_eq_some_iff _ _).mpr number] at index
        cases index
      simp [ackprocess, index, absent]
  | some j =>
      have number := (slotIndex_eq_some_iff _ _).mp index
      have run := advanceBase_isSome_iff (acknowledge buffer j) law
      simp only [ackprocess, index, Option.isSome_map, run]
      constructor
      · intro started
        exact ⟨⟨j, number⟩, started⟩
      · exact And.right

/-- A payload is copied exactly if its string ends inside the field. -/
theorem Payload.copyFrom_isSome_iff (target source : Payload) :
    (target.copyFrom source.bytes).isSome ↔ source.Terminated := by
  constructor
  · intro copied
    rcases Option.isSome_iff_exists.mp copied with ⟨payload, copy⟩
    unfold Payload.copyFrom at copy
    split at copy
    · cases copy
    · next stored =>
        exact ((strcpy_eq_some_iff _ _ _).mp stored).1.1
  · intro terminated
    have short := cString_length_lt terminated
    rw [source.size] at short
    rcases target.copyFrom_isSome terminated short with ⟨payload, copy⟩
    rw [copy]
    rfl

theorem dataprocess_isSome_iff (incomming : Pack) (buffer : Buffer) :
    (dataprocess incomming buffer).isSome ↔
      ∃ j : Fin 100, incomming.sno = (j : Nat) ∧
        ((buffer j).ackno = 1 ∨ incomming.payload.Terminated) := by
  cases index : slotIndex incomming.sno with
  | none =>
      have absent : ∀ j : Fin 100, incomming.sno ≠ (j : Nat) := by
        intro j number
        rw [(slotIndex_eq_some_iff _ _).mpr number] at index
        cases index
      simp [dataprocess, index, absent]
  | some j =>
      have number := (slotIndex_eq_some_iff _ _).mp index
      have only : (∃ k : Fin 100, incomming.sno = (k : Nat) ∧
            ((buffer k).ackno = 1 ∨ incomming.payload.Terminated)) ↔
          ((buffer j).ackno = 1 ∨ incomming.payload.Terminated) := by
        constructor
        · rintro ⟨k, other, inside⟩
          rw [(slotIndex_eq_some_iff _ _).mpr other] at index
          cases index
          exact inside
        · intro inside
          exact ⟨j, number, inside⟩
      rw [only, ← (buffer j).payload.copyFrom_isSome_iff]
      by_cases filled : (buffer j).ackno = 1
      · simp [dataprocess, index, filled]
      · cases copy : (buffer j).payload.copyFrom incomming.payload.bytes
        <;> simp [dataprocess, index, filled, copy]

/-! ## One pack -/

/-- A pack that only the first test accepts is handled by `ackprocess`. -/
theorem dispatch_isSome_of_ack
    (junk : Payload) {incomming : Pack} {peer : Peer}
    (law : BaseLaw peer.counters.base)
    (tag : incomming.sno = -1) (number : incomming.ackno ≠ -1) :
    (dispatch junk incomming peer).isSome ↔
      AckInside incomming peer := by
  rw [AckInside, ← ackprocess_isSome_iff incomming peer.datato law]
  cases call : ackprocess incomming peer.datato peer.counters.base <;>
    simp [dispatch, dispatchAck, tag, Sender.receiveAck, call,
      dispatchData, number]

/-- A pack that only the second test accepts is handled by `dataprocess`. -/
theorem dispatch_isSome_of_data
    (junk : Payload) {incomming : Pack} {peer : Peer}
    (tag : incomming.sno ≠ -1) (unmarked : incomming.ackno = -1) :
    (dispatch junk incomming peer).isSome ↔
      DataInside incomming peer := by
  rw [DataInside, ← dataprocess_isSome_iff]
  simp [dispatch, dispatchAck, tag, dispatchData, unmarked]

/-- What decides, at a state of the law, whether a pack is handled. -/
theorem handled_once_iff_of_law
    (junk : Payload) (incomming : Pack) {peer : Peer}
    (law : BaseLaw peer.counters.base) :
    HandledOnce junk incomming peer ↔ Acceptable incomming peer := by
  constructor
  · rintro ⟨inside, one⟩
    by_cases tag : incomming.sno = -1
    · have number := one.mp tag
      rw [dispatch_isSome_of_ack junk law tag number] at inside
      exact Or.inl ⟨tag, inside⟩
    · have unmarked : incomming.ackno = -1 := by
        by_contra number
        exact tag (one.mpr number)
      rw [dispatch_isSome_of_data junk tag unmarked] at inside
      exact Or.inr ⟨unmarked, inside⟩
  · rintro (⟨tag, inside⟩ | ⟨unmarked, inside⟩)
    · have number : incomming.ackno ≠ -1 := by
        rcases inside with ⟨⟨j, slot⟩, _⟩
        omega
      exact ⟨(dispatch_isSome_of_ack junk law tag number).mpr inside,
        iff_of_true tag number⟩
    · have tag : incomming.sno ≠ -1 := by
        rcases inside with ⟨j, slot, _⟩
        omega
      exact ⟨(dispatch_isSome_of_data junk tag unmarked).mpr inside,
        iff_of_false tag (not_not.mpr unmarked)⟩

/--
In every state that a peer can reach, whatever it has received, a pack is
handled inside the blocks by exactly one handler if and only if its other
field is the number of a slot and either it is an acknowledgement and the
base is not -1 any more, or it is data whose slot is filled or whose payload
is terminated.
-/
theorem handled_once_iff
    (window : Int) (datato datafrom : Buffer) (file : List Byte)
    (start final : Peer)
    (records : List (Record Peer PeerEvent))
    (started : Peer.start window datato datafrom file = some start)
    (run : Run PeerStep start records final)
    (junk : Payload) (incomming : Pack) :
    HandledOnce junk incomming final ↔ Acceptable incomming final := by
  rcases Peer.start_cases started with ⟨packets, _, side, _⟩
  have initial : BaseLaw start.counters.base := by
    rw [side]
    exact Or.inl rfl
  have law : BaseLaw final.counters.base :=
    run.invariant (fun peer => BaseLaw peer.counters.base) initial
      fun _ _ _ law move => move.base law
  exact handled_once_iff_of_law junk incomming law

/-- Before its first call a peer handles the data for slot 0. -/
theorem handled_once_first_data :
    ∃ start, Peer.start 1 zeroed zeroed [104, 105] = some start ∧
      (HandledOnce zeroPayload ⟨0, -1, zeroPayload⟩ start ↔
        Acceptable ⟨0, -1, zeroPayload⟩ start) := by
  rcases Option.isSome_iff_exists.mp
      (show (Peer.start 1 zeroed zeroed [104, 105]).isSome = true by
        decide) with
    ⟨start, started⟩
  exact ⟨start, started,
    handled_once_iff 1 zeroed zeroed [104, 105] start start [] started .nil
      zeroPayload ⟨0, -1, zeroPayload⟩⟩

/-- Data for slot 100 is written behind the block. -/
theorem data_behind_block :
    ¬ ∀ (window : Int) (datato datafrom : Buffer) (file : List Byte)
        (start final : Peer)
        (records : List (Record Peer PeerEvent)),
        Peer.start window datato datafrom file = some start →
        Run PeerStep start records final →
          ∀ (junk : Payload) (incomming : Pack),
            HandledOnce junk incomming final := by
  intro claim
  rcases Option.isSome_iff_exists.mp
      (show (Peer.start 1 zeroed zeroed [104, 105]).isSome = true by
        decide) with
    ⟨start, started⟩
  have handled := claim 1 zeroed zeroed [104, 105] start start [] started
    .nil zeroPayload ⟨100, -1, zeroPayload⟩
  have inside := handled.inside
  rw [dispatch_isSome_of_data _ (by decide) rfl] at inside
  rcases inside with ⟨j, slot, _⟩
  have bound := j.isLt
  simp only at slot
  omega

end NetworkingLab.SelectiveRepeat
