import NetworkingLab.Foundation.LittleEndian
import NetworkingLab.SelectiveRepeat.EndToEnd
import Mathlib.Tactic.IntervalCases

/-!
# Packs on a byte stream

A pack is 28 bytes in memory, and TCP carries the bytes, not the packs.  The
receiver calls `recv` for 28 bytes into `incomming` and treats whatever it
holds afterwards as one pack, also when fewer bytes came, or none because the
connection was closed.

`Framed` asks that the receiver has done, after every `recv`, exactly what
handling the completed packs one by one does.  `framing_iff` shows which
divisions of the stream guarantee this: those in which every `recv` returns
28 bytes, so that the end of the stream is never read.
-/

namespace NetworkingLab.SelectiveRepeat

open NetworkingLab.Foundation.CString
open NetworkingLab.Foundation.Delivery
open NetworkingLab.Foundation.LittleEndian

/-! ## Packs as bytes -/

/-- The 28 bytes of a `struct pack`. -/
structure PackBytes where
  bytes : List Byte
  size : bytes.length = 28

@[ext]
theorem PackBytes.ext
    {first second : PackBytes} (same : first.bytes = second.bytes) :
    first = second := by
  cases first
  cases second
  cases same
  rfl

/-- The bytes of a pack. -/
def Pack.encode (packet : Pack) : PackBytes where
  bytes :=
    intBytes 4 packet.sno ++ (intBytes 4 packet.ackno ++
      packet.payload.bytes)
  size := by simp [packet.payload.size]

/-- The pack in 28 bytes. -/
def PackBytes.decode (memory : PackBytes) : Pack where
  sno := bytesInt (memory.bytes.take 4)
  ackno := bytesInt ((memory.bytes.drop 4).take 4)
  payload := ⟨memory.bytes.drop 8, by simp [memory.size]⟩

/-- `recv` into 28 bytes: the first ones are overwritten. -/
def PackBytes.recv (memory : PackBytes) (chunk : List Byte) :
    PackBytes where
  bytes := overwrite (chunk.take 28) memory.bytes
  size := by
    rw [length_overwrite]
    · exact memory.size
    · rw [memory.size]
      exact List.length_take_le 28 chunk

/-- Both counters fit an `int`. -/
def Pack.Fits (packet : Pack) : Prop :=
  (-2 ^ 31 ≤ packet.sno ∧ packet.sno < 2 ^ 31) ∧
    -2 ^ 31 ≤ packet.ackno ∧ packet.ackno < 2 ^ 31

theorem decode_encode {packet : Pack} (fits : packet.Fits) :
    packet.encode.decode = packet := by
  rcases packet with ⟨sno, ackno, payload⟩
  rcases fits with ⟨⟨snoLower, snoUpper⟩, acknoLower, acknoUpper⟩
  simp only at snoLower snoUpper acknoLower acknoUpper
  have first : bytesInt (intBytes 4 sno) = sno :=
    bytesInt_intBytes (by norm_num; omega) (by norm_num; omega)
  have second : bytesInt (intBytes 4 ackno) = ackno :=
    bytesInt_intBytes (by norm_num; omega) (by norm_num; omega)
  have firstLength := length_intBytes 4 sno
  have secondLength := length_intBytes 4 ackno
  simp only [PackBytes.decode, Pack.encode, Pack.mk.injEq]
  refine ⟨?_, ?_, ?_⟩
  · rw [List.take_left' firstLength, first]
  · rw [List.drop_left' firstLength, List.take_left' secondLength,
      second]
  · rfl

theorem encode_decode (memory : PackBytes) :
    memory.decode.encode = memory := by
  have head : (memory.bytes.take 4).length = 4 := by
    simp [memory.size]
  have middle : ((memory.bytes.drop 4).take 4).length = 4 := by
    simp [memory.size]
  have first := intBytes_bytesInt (memory.bytes.take 4)
  have second := intBytes_bytesInt ((memory.bytes.drop 4).take 4)
  rw [head] at first
  rw [middle] at second
  apply PackBytes.ext
  simp only [Pack.encode, PackBytes.decode, first, second]
  have rest : memory.bytes.drop 8 = (memory.bytes.drop 4).drop 4 := by
    rw [List.drop_drop]
  rw [rest, List.take_append_drop, List.take_append_drop]

theorem recv_encode (memory : PackBytes) (packet : Pack) :
    memory.recv packet.encode.bytes = packet.encode := by
  apply PackBytes.ext
  have whole : packet.encode.bytes.take 28 = packet.encode.bytes := by
    apply List.take_of_length_le
    rw [packet.encode.size]
  simp only [PackBytes.recv, overwrite, whole]
  rw [List.drop_of_length_le]
  · exact List.append_nil _
  · rw [packet.encode.size, memory.size]

/-- A pack that a peer sends: an acknowledgement or a packet of its file. -/
inductive WirePack (packet : Pack) : Prop where
  | ack (tag : packet.sno = -1) (j : Fin 100)
      (number : packet.ackno = (j : Nat))
  | data (j : Fin 100) (number : packet.sno = (j : Nat))
      (mark : packet.ackno = 1 ∨ packet.ackno = -1)
      (terminated : packet.payload.Terminated)

theorem WirePack.fits {packet : Pack} (wire : WirePack packet) :
    packet.Fits := by
  cases wire with
  | ack tag j number =>
      have := j.isLt
      simp only [Pack.Fits, tag, number]
      omega
  | data j number mark _ =>
      have := j.isLt
      simp only [Pack.Fits, number]
      rcases mark with marked | unmarked <;> omega

/-- Every pack between two started peers is of this kind. -/
theorem PairInv.wirePack
    {leftPackets rightPackets : Buffer} {leftCount rightCount : Nat}
    {leftProgress : Progress leftCount}
    {rightProgress : Progress rightCount} {state : Pair}
    (inv : PairInv leftPackets rightPackets leftProgress rightProgress
      state)
    (sendable : Sendable leftCount leftPackets)
    {packet : Pack} (member : packet ∈ state.toRight) :
    WirePack packet := by
  by_cases tag : packet.sno = -1
  · have acked : AckBelow rightProgress.delivered packet := by
      apply inv.rightToLeft.acks
      simp [Pair.leftToRight, Pair.swap, Pack.isAck, member, tag]
    rcases acked with ⟨_, j, number, _⟩
    exact .ack tag j number
  · have queued : packet ∈ state.leftToRight.wire := by
      simp [Pair.leftToRight, Pack.isAck, member, tag]
    rcases inv.leftToRight.wire_copy queued with ⟨number, inside, copy⟩
    have bounded := sendable.bounded
    have bound : number < 100 := by omega
    refine .data ⟨number, bound⟩ copy.sno copy.mark ?_
    rw [copy.payload, slotAt_of_lt leftPackets bound]
    exact sendable.terminated _ inside

/-! ## The receiver -/

/-- What a receiver has done: the packs it handed on, and the effect. -/
structure Handling where
  handed : List Pack
  peer : Peer
  sent : List Pack

/-- A receiver with the variable `incomming`. -/
structure Receiver extends Handling where
  incomming : PackBytes

/-- The calls of `ackprocess` and `dataprocess` that a pack leads to. -/
def handedBy (packet : Pack) : List Pack :=
  (if packet.sno = -1 then [packet] else []) ++
    if packet.ackno = -1 then [packet] else []

/-- One round of the receive branch: `recv`, then the dispatch. -/
def Receiver.recv (junk : Payload) (chunk : List Byte)
    (receiver : Receiver) : Option Receiver :=
  let memory := receiver.incomming.recv chunk
  (dispatch junk memory.decode receiver.peer).map
    fun result =>
      { handed := receiver.handed ++ handedBy memory.decode
        peer := result.1
        sent := receiver.sent ++ result.2
        incomming := memory }

/-- Rounds with the byte counts that `recv` returns. -/
def Receiver.run (junk : Payload) :
    List Nat → List Byte → Receiver → Option Receiver
  | [], _, receiver => some receiver
  | count :: counts, stream, receiver =>
      match receiver.recv junk (stream.take count) with
      | none => none
      | some next => Receiver.run junk counts (stream.drop count) next

/-- Whole packs, handed on and handled in order. -/
def Handling.after (junk : Payload) :
    List Pack → Handling → Option Handling
  | [], handling => some handling
  | packet :: packets, handling =>
      match dispatch junk packet handling.peer with
      | none => none
      | some (peer, acks) =>
          Handling.after junk packets
            ⟨handling.handed ++ [packet], peer, handling.sent ++ acks⟩

/-- The byte stream of a sequence of packs. -/
def byteStream (packets : List Pack) : List Byte :=
  packets.flatMap fun packet => packet.encode.bytes

/--
The byte counts of a connection that carried `total` bytes.  A count of 0
reports the end of the stream and is the last one.
-/
structure Division (total : Nat) (counts : List Nat) : Prop where
  complete : counts.sum = total
  bounded : ∀ count ∈ counts, count ≤ 28
  ending : ∀ count ∈ counts.dropLast, 0 < count

/--
After every `recv` the receiver has handled exactly the packs that are
complete by then.
-/
def Framed (junk : Payload) (incomming : PackBytes) (peer : Peer)
    (packets : List Pack) (counts : List Nat) : Prop :=
  ∀ k ≤ counts.length,
    (Receiver.run junk (counts.take k) (byteStream packets)
        ⟨⟨[], peer, []⟩, incomming⟩).map Receiver.toHandling =
      Handling.after junk (packets.take ((counts.take k).sum / 28))
        ⟨[], peer, []⟩

/-- The pack is an acknowledgement or data that is not marked. -/
def Handled (packet : Pack) : Prop :=
  packet.sno = -1 ∨ packet.ackno = -1

theorem handedBy_of_handled
    {packet : Pack} (wire : WirePack packet) (handled : Handled packet) :
    handedBy packet = [packet] := by
  cases wire with
  | ack tag j number =>
      have other : packet.ackno ≠ -1 := by omega
      simp [handedBy, tag, other]
  | data j number _ _ =>
      have other : packet.sno ≠ -1 := by omega
      rcases handled with tag | data
      · exact absurd tag other
      · simp [handedBy, other, data]

theorem handled_of_mem_handedBy
    {packet other : Pack} (member : other ∈ handedBy packet) :
    other = packet ∧ Handled packet := by
  rcases List.mem_append.mp member with first | second
  · split at first
    · next tag =>
        exact ⟨List.mem_singleton.mp first, Or.inl tag⟩
    · cases first
  · split at second
    · next data =>
        exact ⟨List.mem_singleton.mp second, Or.inr data⟩
    · cases second

theorem handedBy_ne_nil
    {packet : Pack} (handled : Handled packet) :
    handedBy packet ≠ [] := by
  rcases handled with tag | data
  · simp [handedBy, tag]
  · simp [handedBy, data]

/-! ## Rounds that read whole packs -/

theorem byteStream_cons (packet : Pack) (packets : List Pack) :
    byteStream (packet :: packets) =
      packet.encode.bytes ++ byteStream packets :=
  List.flatMap_cons

theorem byteStream_drop (packets : List Pack) (count : Nat) :
    (byteStream packets).drop (28 * count) =
      byteStream (packets.drop count) := by
  induction count generalizing packets with
  | zero => simp
  | succ count induction =>
      cases packets with
      | nil => simp [byteStream]
      | cons packet packets =>
          have shift : 28 * (count + 1) =
              packet.encode.bytes.length + 28 * count := by
            rw [packet.encode.size]
            omega
          rw [byteStream_cons, shift, List.drop_length_add_append,
            induction]
          rfl

theorem byteStream_take
    (packet : Pack) (packets : List Pack) :
    (byteStream (packet :: packets)).take 28 = packet.encode.bytes := by
  rw [byteStream_cons]
  exact List.take_left' packet.encode.size

/-- Two parts of a division run one behind the other. -/
theorem Receiver.run_append
    (junk : Payload) (first second : List Nat) (stream : List Byte)
    (receiver : Receiver) :
    Receiver.run junk (first ++ second) stream receiver =
      (Receiver.run junk first stream receiver).bind
        (Receiver.run junk second (stream.drop first.sum)) := by
  induction first generalizing stream receiver with
  | nil => simp [Receiver.run]
  | cons count counts induction =>
      simp only [List.cons_append, Receiver.run, List.sum_cons]
      cases receiver.recv junk (stream.take count) with
      | none => rfl
      | some next =>
          simp only [induction]
          rw [List.drop_drop]

/--
Reading whole packs is handling whole packs, and leaves a pack in `incomming`
that is handled again if the next `recv` does not fill it.
-/
theorem Receiver.run_whole
    (junk : Payload) (count : Nat) (packets : List Pack)
    (wire : ∀ packet ∈ packets, WirePack packet)
    (handled : ∀ packet ∈ packets, Handled packet)
    (present : count ≤ packets.length) (receiver : Receiver) :
    (Receiver.run junk (List.replicate count 28) (byteStream packets)
        receiver).map Receiver.toHandling =
      Handling.after junk (packets.take count) receiver.toHandling ∧
    ∀ next, Receiver.run junk (List.replicate count 28)
        (byteStream packets) receiver = some next →
      Handled receiver.incomming.decode →
        Handled next.incomming.decode := by
  induction count generalizing packets receiver with
  | zero =>
      refine ⟨rfl, ?_⟩
      rintro next ⟨⟩ ready
      exact ready
  | succ count induction =>
      cases packets with
      | nil => simp at present
      | cons packet packets =>
          have fits := (wire packet (by simp)).fits
          have head := handled packet (by simp)
          have rest : (byteStream (packet :: packets)).drop 28 =
              byteStream packets := by
            simpa using byteStream_drop (packet :: packets) 1
          have read : (receiver.incomming.recv
              packet.encode.bytes).decode = packet := by
            rw [recv_encode, decode_encode fits]
          simp only [List.replicate_succ, Receiver.run,
            byteStream_take, rest, List.take_succ_cons, Handling.after,
            Receiver.recv, read]
          cases dispatch junk packet receiver.peer with
          | none => simp
          | some result =>
              simp only [Option.map_some, handedBy_of_handled
                (wire packet (by simp)) head]
              have later := induction packets
                (fun other member => wire other (by simp [member]))
                (fun other member => handled other (by simp [member]))
                (by simpa using present)
                ⟨⟨receiver.handed ++ [packet], result.1,
                    receiver.sent ++ result.2⟩,
                  receiver.incomming.recv packet.encode.bytes⟩
              refine ⟨later.1, ?_⟩
              intro next ran _
              apply later.2 next ran
              simp only [read]
              exact head

/-! ## Rounds that do not -/

/-- A peer whose base is in the buffer; every pack can be dispatched. -/
def Peer.Ready (peer : Peer) : Prop :=
  ∃ base : Nat, base ≤ 100 ∧ peer.counters.base = base

theorem dispatch_ready
    (junk : Payload) {packet : Pack} (wire : WirePack packet)
    {peer : Peer} (ready : peer.Ready) :
    ∃ next acks, dispatch junk packet peer = some (next, acks) ∧
      Peer.Ready next := by
  rcases ready with ⟨base, bounded, counter⟩
  cases wire with
  | ack tag j number =>
      rcases ackprocess_spec peer.datato j number bounded with
        ⟨stop, call, _, inside, _⟩
      have other : packet.ackno ≠ -1 := by omega
      have acked : ∃ sender,
          peer.toSender.receiveAck packet = some sender ∧
            sender.counters.base = stop := by
        simp [Sender.receiveAck, counter, call]
      rcases acked with ⟨sender, acked, later⟩
      refine
        ⟨{ peer with toSender := sender }, [], ?_, stop, inside, later⟩
      simp [dispatch, dispatchAck, tag, acked, dispatchData, other]
  | data j number mark terminated =>
      have other : packet.sno ≠ -1 := by omega
      rcases mark with marked | data
      · rw [dispatch_ignored other (by omega)]
        exact ⟨peer, [], rfl, base, bounded, counter⟩
      · have stores : ∃ datafrom,
            dataprocess packet peer.datafrom = some datafrom := by
          by_cases filled : (peer.datafrom j).ackno = 1
          · exact ⟨_, dataprocess_duplicate number filled⟩
          · rcases dataprocess_store number filled terminated with
              ⟨_, _, stored⟩
            exact ⟨_, stored⟩
        rcases stores with ⟨datafrom, stored⟩
        refine ⟨{ peer with datafrom := datafrom },
          [ackpacket junk packet], ?_, base, bounded, counter⟩
        simp [dispatch, dispatchAck, other, dispatchData, data, stored]

/-- Handling whole packs is defined and hands all of them on. -/
theorem Handling.after_ready
    (junk : Payload) (packets : List Pack)
    (wire : ∀ packet ∈ packets, WirePack packet)
    (handling : Handling) (ready : handling.peer.Ready) :
    ∃ final, Handling.after junk packets handling = some final ∧
      final.handed = handling.handed ++ packets := by
  induction packets generalizing handling with
  | nil => exact ⟨handling, rfl, by simp⟩
  | cons packet packets induction =>
      rcases dispatch_ready junk (wire packet (by simp)) ready with
        ⟨peer, acks, call, later⟩
      rcases induction
          (fun other member => wire other (by simp [member]))
          ⟨handling.handed ++ [packet], peer, handling.sent ++ acks⟩
          later with
        ⟨final, rest, handed⟩
      refine ⟨final, ?_, ?_⟩
      · rw [Handling.after, call]
        exact rest
      · rw [handed, List.append_assoc, List.singleton_append]

/-- Only acknowledgements and unmarked data are handed on. -/
theorem Receiver.run_handed
    {junk : Payload} {counts : List Nat} {stream : List Byte}
    {receiver next : Receiver}
    (ran : Receiver.run junk counts stream receiver = some next)
    (before : ∀ packet ∈ receiver.handed, Handled packet) :
    ∀ packet ∈ next.handed, Handled packet := by
  induction counts generalizing stream receiver with
  | nil =>
      cases ran
      exact before
  | cons count counts induction =>
      rw [Receiver.run] at ran
      split at ran
      · cases ran
      · next middle read =>
          apply induction ran
          simp only [Receiver.recv, Option.map_eq_some_iff] at read
          rcases read with ⟨result, _, rfl⟩
          intro packet member
          rcases List.mem_append.mp member with old | new
          · exact before packet old
          · rcases handled_of_mem_handedBy new with ⟨rfl, handled⟩
            exact handled

/-- The rounds before the first one that does not read 28 bytes. -/
theorem exists_first_short
    {counts : List Nat} (short : ¬ ∀ count ∈ counts, count = 28) :
    ∃ full count rest,
      counts = List.replicate full 28 ++ count :: rest ∧
        count ≠ 28 := by
  induction counts with
  | nil => simp at short
  | cons head tail induction =>
      by_cases whole : head = 28
      · have later : ¬ ∀ count ∈ tail, count = 28 := by
          intro all
          apply short
          simpa [whole] using all
        rcases induction later with
          ⟨full, count, rest, split, different⟩
        exact
          ⟨full + 1, count, rest, by simp [whole, split, List.replicate_succ],
            different⟩
      · exact ⟨0, head, tail, rfl, whole⟩

/-- The round in which a sum of byte counts reaches a bound. -/
theorem exists_crossing
    {counts : List Nat} {bound : Nat}
    (positive : 0 < bound) (reached : bound ≤ counts.sum) :
    ∃ before count after, counts = before ++ count :: after ∧
      before.sum < bound ∧ bound ≤ before.sum + count := by
  induction counts generalizing bound with
  | nil =>
      simp only [List.sum_nil] at reached
      omega
  | cons head tail induction =>
      by_cases enough : bound ≤ head
      · exact ⟨[], head, tail, rfl, positive, by simpa using enough⟩
      · have rest : bound - head ≤ tail.sum := by
          simp only [List.sum_cons] at reached
          omega
        rcases induction (by omega) rest with
          ⟨before, count, after, split, below, above⟩
        refine ⟨head :: before, count, after, by simp [split], ?_, ?_⟩
        · simp only [List.sum_cons]
          omega
        · simp only [List.sum_cons]
          omega

/-- An empty string in front of bytes that no header contains. -/
def blankPayload : Payload where
  bytes := 0 :: List.replicate 19 254
  size := rfl

/-- The same header over the blank payload. -/
def Pack.blank (packet : Pack) : Pack :=
  { packet with payload := blankPayload }

theorem WirePack.blank {packet : Pack} (wire : WirePack packet) :
    WirePack packet.blank := by
  cases wire with
  | ack tag j number => exact .ack tag j number
  | data j number mark _ =>
      exact .data j number mark (List.mem_cons_self)

theorem intBytes_slot (j : Fin 100) :
    intBytes 4 ((j : Nat) : Int) = [UInt8.ofNat j, 0, 0, 0] := by
  revert j
  decide

theorem slot_ne_blank (j : Fin 100) : UInt8.ofNat j ≠ 254 := by
  revert j
  decide

/-- A blank data pack is not a repetition of its own first bytes. -/
theorem data_no_overlap
    {first : Byte} (other : first ≠ 254)
    {offset : Nat} (positive : 0 < offset) (inside : offset < 28) :
    (first :: 0 :: 0 :: 0 :: 255 :: 255 :: 255 :: 255 ::
        0 :: List.replicate 19 254).drop offset ≠
      (first :: 0 :: 0 :: 0 :: 255 :: 255 :: 255 :: 255 ::
        0 :: List.replicate 19 254).take (28 - offset) := by
  interval_cases offset <;> simp [List.replicate, other.symm]

/-- Neither is an acknowledgement with a blank payload. -/
theorem ack_no_overlap
    (slot : Byte)
    {offset : Nat} (positive : 0 < offset) (inside : offset < 28) :
    (255 :: 255 :: 255 :: 255 :: slot :: 0 :: 0 :: 0 ::
        0 :: List.replicate 19 254).drop offset ≠
      (255 :: 255 :: 255 :: 255 :: slot :: 0 :: 0 :: 0 ::
        0 :: List.replicate 19 254).take (28 - offset) := by
  interval_cases offset <;> simp [List.replicate]

theorem blank_no_overlap
    {packet : Pack} (wire : WirePack packet) (handled : Handled packet)
    {offset : Nat} (positive : 0 < offset) (inside : offset < 28) :
    packet.blank.encode.bytes.drop offset ≠
      packet.blank.encode.bytes.take (28 - offset) := by
  have minus : intBytes 4 (-1) = [255, 255, 255, 255] := by decide
  cases wire with
  | ack tag j number =>
      simp only [Pack.encode, Pack.blank, tag, number, minus,
        intBytes_slot, blankPayload]
      exact ack_no_overlap _ positive inside
  | data j number _ _ =>
      have data : packet.ackno = -1 := by
        rcases handled with tag | data
        · omega
        · exact data
      simp only [Pack.encode, Pack.blank, data, number, minus,
        intBytes_slot, blankPayload]
      exact data_no_overlap (slot_ne_blank j) positive inside

/-! ## Necessity -/

/-- The bytes of a chunk come first, whatever `incomming` held. -/
theorem recv_head
    (memory : PackBytes) {head : List Byte} (tail : List Byte)
    {count : Nat}
    (covered : head.length ≤ count) (fits : head.length ≤ 28) :
    (memory.recv ((head ++ tail).take count)).bytes.take head.length =
      head := by
  have long : head.length ≤
      (((head ++ tail).take count).take 28).length := by
    simp only [List.length_take, List.length_append]
    omega
  simp only [PackBytes.recv, overwrite]
  rw [List.take_append_of_le_length long, List.take_take,
    List.take_take]
  have same : min (min head.length 28) count = head.length := by
    omega
  rw [same, List.take_left]

/-- One more round adds what the pack it decodes leads to. -/
theorem Receiver.run_snoc_handed
    {junk : Payload} {counts : List Nat} {count : Nat}
    {stream : List Byte} {receiver middle final : Receiver}
    (first : Receiver.run junk counts stream receiver = some middle)
    (both : Receiver.run junk (counts ++ [count]) stream receiver =
      some final) :
    final.handed = middle.handed ++ handedBy
      (middle.incomming.recv
        ((stream.drop counts.sum).take count)).decode := by
  rw [Receiver.run_append, first, Option.bind_some] at both
  simp only [Receiver.run] at both
  split at both
  · cases both
  · next last read =>
      cases both
      simp only [Receiver.recv, Option.map_eq_some_iff] at read
      rcases read with ⟨result, _, rfl⟩
      rfl

section Necessity

variable
    {junk : Payload} {incomming : PackBytes} {peer : Peer}
    {packets : List Pack} {counts : List Nat}
    (wire : ∀ packet ∈ packets, WirePack packet) (ready : peer.Ready)
    (framed : Framed junk incomming peer packets counts)

include wire ready framed

/-- What has been handed on after a part of a framed division. -/
theorem Framed.handed_at
    {first rest : List Nat} (split : counts = first ++ rest) :
    ∃ receiver,
      Receiver.run junk first (byteStream packets)
          ⟨⟨[], peer, []⟩, incomming⟩ = some receiver ∧
        receiver.handed = packets.take (first.sum / 28) := by
  have now := framed first.length (by simp [split])
  rw [split, List.take_left] at now
  rcases Handling.after_ready junk (packets.take (first.sum / 28))
      (fun packet member => wire packet (List.mem_of_mem_take member))
      ⟨[], peer, []⟩ ready with
    ⟨final, defined, handed⟩
  rw [defined, Option.map_eq_some_iff] at now
  rcases now with ⟨receiver, ran, same⟩
  refine ⟨receiver, ran, ?_⟩
  rw [same, handed, List.nil_append]

/-- A pack that is neither kind is never handed on. -/
theorem Framed.handled
    (division : Division (28 * packets.length) counts) :
    ∀ packet ∈ packets, Handled packet := by
  rcases framed.handed_at wire ready
      (show counts = counts ++ [] by simp) with
    ⟨receiver, ran, handed⟩
  have all : counts.sum / 28 = packets.length := by
    rw [division.complete]
    omega
  rw [all, List.take_length] at handed
  rw [← handed]
  exact Receiver.run_handed ran (by simp)

/-- The end of the stream is handled once more. -/
theorem Framed.no_end
    (handled : ∀ packet ∈ packets, Handled packet)
    (held : Handled incomming.decode)
    {full : Nat} (present : full ≤ packets.length)
    (split : counts = List.replicate full 28 ++ [0]) :
    False := by
  rcases framed.handed_at wire ready split with
    ⟨before, ran, handed⟩
  rcases framed.handed_at wire ready
      (show counts = (List.replicate full 28 ++ [0]) ++ [] by
        simp [split]) with
    ⟨after, ranOn, handedOn⟩
  have more := Receiver.run_snoc_handed ran ranOn
  have same : (List.replicate full 28 ++ [0]).sum =
      (List.replicate full 28).sum := by
    simp
  rw [handedOn, handed, same] at more
  have nothing := List.append_right_eq_self.mp more.symm
  have kept : ∀ chunk : List Byte,
      before.incomming.recv (chunk.take 0) = before.incomming := by
    intro chunk
    apply PackBytes.ext
    simp [PackBytes.recv, overwrite]
  rw [kept] at nothing
  have again := (Receiver.run_whole junk full packets wire handled
    present ⟨⟨[], peer, []⟩, incomming⟩).2 before ran held
  exact handedBy_ne_nil again nothing

/-- A pack that arrives in parts is not read back as itself. -/
theorem Framed.no_parts
    (division : Division (28 * packets.length) counts)
    (separate : ∀ packet ∈ packets, ∀ offset : Nat,
      0 < offset → offset < 28 →
        packet.encode.bytes.drop offset ≠
          packet.encode.bytes.take (28 - offset))
    {full : Nat} {before : List Nat} {count : Nat} {after : List Nat}
    (split : counts =
      (List.replicate full 28 ++ before) ++ count :: after)
    (started : 0 < before.sum) (unfinished : before.sum < 28)
    (completed : 28 ≤ before.sum + count) :
    False := by
  have fullSum : (List.replicate full 28 ++ before).sum =
      28 * full + before.sum := by
    simp [List.sum_replicate, Nat.mul_comm]
  have small : count ≤ 28 := division.bounded count (by simp [split])
  have total := division.complete
  rw [split, List.sum_append, fullSum, List.sum_cons] at total
  have present : full < packets.length := by omega
  rcases framed.handed_at wire ready split with ⟨middle, ran, handed⟩
  rcases framed.handed_at wire ready
      (show counts =
        ((List.replicate full 28 ++ before) ++ [count]) ++ after by
          simp [split]) with
    ⟨final, ranOn, handedOn⟩
  have more := Receiver.run_snoc_handed ran ranOn
  rw [List.sum_append, fullSum, List.sum_singleton] at handedOn
  rw [fullSum] at handed more
  have here : (28 * full + before.sum) / 28 = full := by omega
  have next : (28 * full + before.sum + count) / 28 = full + 1 := by
    omega
  rw [here] at handed
  rw [next] at handedOn
  have parts := List.take_append_getElem present
  rw [handed, handedOn, ← parts] at more
  have alone := List.append_cancel_left more
  have member : packets[full] ∈ packets := List.getElem_mem present
  have decoded := (handled_of_mem_handedBy
    (show packets[full] ∈ handedBy _ by
      rw [← alone]
      exact List.mem_singleton_self _)).1
  have bytes := congrArg Pack.encode decoded
  rw [encode_decode] at bytes
  have size : (packets[full].encode.bytes.drop before.sum).length =
      28 - before.sum := by
    simp [packets[full].encode.size]
  have stream : (byteStream packets).drop (28 * full + before.sum) =
      packets[full].encode.bytes.drop before.sum ++
        byteStream (packets.drop (full + 1)) := by
    rw [← List.drop_drop, byteStream_drop,
      List.drop_eq_getElem_cons present, byteStream_cons,
      List.drop_append_of_le_length]
    rw [packets[full].encode.size]
    omega
  rw [stream] at bytes
  have head := recv_head middle.incomming
    (byteStream (packets.drop (full + 1)))
    (show (packets[full].encode.bytes.drop before.sum).length ≤ count by
      rw [size]
      omega)
    (by
      rw [size]
      omega)
  rw [← bytes, size] at head
  exact separate packets[full] member before.sum started unfinished
    head.symm

/-- So a division that keeps separate packs together has only whole packs. -/
theorem Framed.whole
    (division : Division (28 * packets.length) counts)
    (held : Handled incomming.decode)
    (separate : ∀ packet ∈ packets, ∀ offset : Nat,
      0 < offset → offset < 28 →
        packet.encode.bytes.drop offset ≠
          packet.encode.bytes.take (28 - offset)) :
    ∀ count ∈ counts, count = 28 := by
  by_contra short
  rcases exists_first_short short with
    ⟨full, count, rest, split, different⟩
  have bounded := division.bounded count (by simp [split])
  have total := division.complete
  rw [split, List.sum_append, List.sum_replicate_nat] at total
  rcases Nat.eq_zero_or_pos count with zero | positive
  · subst zero
    have last : rest = [] := by
      by_contra more
      have inner := division.ending 0 (by
        rw [split, List.dropLast_append_cons,
          List.dropLast_cons_of_ne_nil more]
        simp)
      omega
    subst last
    apply framed.no_end wire ready
      (framed.handled wire ready division) held ?_ split
    simp only [List.sum_cons, List.sum_nil] at total
    omega
  · have reached : 28 ≤ (count :: rest).sum := by
      simp only [List.sum_cons] at total ⊢
      omega
    rcases exists_crossing (by omega) reached with
      ⟨before, last, after, parts, below, above⟩
    cases before with
    | nil =>
        simp only [List.nil_append, List.cons.injEq] at parts
        simp only [List.sum_nil, ← parts.1] at above
        omega
    | cons head before =>
        simp only [List.cons_append, List.cons.injEq] at parts
        rcases parts with ⟨rfl, rfl⟩
        apply framed.no_parts wire ready division separate
          (show counts = (List.replicate full 28 ++
              (count :: before)) ++ last :: after by
            simpa using split)
          ?_ below above
        simp only [List.sum_cons]
        omega

end Necessity

/-- Reading nothing but whole packs keeps them together. -/
theorem framed_of_whole
    (junk : Payload) (incomming : PackBytes) (peer : Peer)
    {packets : List Pack} (wire : ∀ packet ∈ packets, WirePack packet)
    (handled : ∀ packet ∈ packets, Handled packet)
    {counts : List Nat}
    (division : Division (28 * packets.length) counts)
    (whole : ∀ count ∈ counts, count = 28) :
    Framed junk incomming peer packets counts := by
  have shape := List.eq_replicate_of_mem whole
  have total := division.complete
  rw [shape, List.sum_replicate_nat] at total
  intro k bounded
  have part : counts.take k = List.replicate k 28 := by
    rw [shape, List.take_replicate, Nat.min_eq_left bounded]
  have full : (List.replicate k 28).sum / 28 = k := by
    simp
  rw [part, full]
  exact (Receiver.run_whole junk k packets wire handled (by omega)
    ⟨⟨[], peer, []⟩, incomming⟩).1

/-- Two sequences of packs with the same numbers. -/
def SameHeaders (first second : List Pack) : Prop :=
  first.map (fun packet => (packet.sno, packet.ackno)) =
    second.map fun packet => (packet.sno, packet.ackno)

theorem SameHeaders.length_eq
    {first second : List Pack} (same : SameHeaders first second) :
    first.length = second.length := by
  simpa using congrArg List.length same

theorem SameHeaders.handled
    {first second : List Pack} (same : SameHeaders first second)
    (handled : ∀ packet ∈ second, Handled packet) :
    ∀ packet ∈ first, Handled packet := by
  intro packet member
  have header : (packet.sno, packet.ackno) ∈
      second.map fun packet => (packet.sno, packet.ackno) := by
    rw [← same]
    exact List.mem_map_of_mem member
  rcases List.mem_map.mp header with ⟨other, known, equal⟩
  rcases Prod.mk.inj equal with ⟨sno, ackno⟩
  rcases handled other known with tag | data
  · exact Or.inl (sno ▸ tag)
  · exact Or.inr (ackno ▸ data)

theorem sameHeaders_blank (packets : List Pack) :
    SameHeaders (packets.map Pack.blank) packets := by
  simp [SameHeaders, Function.comp_def, Pack.blank]

/-- A variable `incomming` whose bytes are all 255. -/
def filledBytes : PackBytes where
  bytes := List.replicate 28 255
  size := rfl

/-- A peer that has moved its base to 0. -/
def readyPeer : Peer where
  window := 1
  datato := zeroed
  counters := ⟨0, 0⟩
  running := true
  datafrom := makeinvalid zeroed

/--
A division of the stream keeps the packs together, whatever their payloads and
whatever memory held, exactly if every `recv` returns a whole pack.  Packs
that are marked data are never handed on.
-/
theorem framing_iff
    (sent : List Pack) (wire : ∀ packet ∈ sent, WirePack packet)
    (counts : List Nat)
    (division : Division (28 * sent.length) counts) :
    (∀ (junk : Payload) (incomming : PackBytes) (peer : Peer)
        (packets : List Pack), SameHeaders packets sent →
        (∀ packet ∈ packets, WirePack packet) →
          Framed junk incomming peer packets counts) ↔
      (∀ count ∈ counts, count = 28) ∧
        ∀ packet ∈ sent, Handled packet := by
  constructor
  · intro framed
    have blankWire : ∀ packet ∈ sent.map Pack.blank,
        WirePack packet := by
      intro packet member
      rcases List.mem_map.mp member with ⟨original, known, rfl⟩
      exact (wire original known).blank
    have ready : readyPeer.Ready := ⟨0, by omega, rfl⟩
    have held : Handled filledBytes.decode := by
      left
      decide
    have blankFramed := framed zeroPayload filledBytes readyPeer
      (sent.map Pack.blank) (sameHeaders_blank sent) blankWire
    have blankDivision :
        Division (28 * (sent.map Pack.blank).length) counts := by
      simpa using division
    have handled : ∀ packet ∈ sent, Handled packet := by
      intro packet member
      exact blankFramed.handled blankWire ready blankDivision packet.blank
        (List.mem_map_of_mem member)
    refine ⟨?_, handled⟩
    apply blankFramed.whole blankWire ready blankDivision held
    intro packet member offset positive inside
    rcases List.mem_map.mp member with ⟨original, known, rfl⟩
    exact blank_no_overlap (wire original known)
      (handled original known) positive inside
  · rintro ⟨whole, handled⟩ junk incomming peer packets same packetWire
    apply framed_of_whole junk incomming peer packetWire
      (same.handled handled) ?_ whole
    rw [same.length_eq]
    exact division

/-- Packet 0 of the file "hi". -/
def hiPack : Pack where
  sno := 0
  ackno := -1
  payload := ⟨104 :: 105 :: List.replicate 18 0, rfl⟩

theorem hiPack_wire : ∀ packet ∈ [hiPack], WirePack packet := by
  intro packet member
  rw [List.mem_singleton.mp member]
  exact .data 0 rfl (Or.inr rfl) (show 0 ∈ hiPack.payload.bytes by decide)

/-- A data packet, an acknowledgement and the last packet of the file "hi". -/
def hiPacks : List Pack :=
  [hiPack, ⟨-1, 0, filledBytes.decode.payload⟩, ⟨1, -1, zeroPayload⟩]

theorem hiPacks_wire : ∀ packet ∈ hiPacks, WirePack packet := by
  simp only [hiPacks, List.forall_mem_cons]
  exact ⟨hiPack_wire _ List.mem_cons_self, .ack rfl 0 rfl,
    .data 1 rfl (Or.inr rfl) (show 0 ∈ zeroPayload.bytes by decide),
    nofun⟩

/-- One `recv` for each of three packs. -/
theorem framing_hi :
    Framed zeroPayload filledBytes readyPeer hiPacks [28, 28, 28] := by
  have whole : ∀ count ∈ [28, 28, 28], count = 28 := by decide
  have handled : ∀ packet ∈ hiPacks, Handled packet := by
    simp [hiPacks, hiPack, Handled]
  exact
    (framing_iff hiPacks hiPacks_wire [28, 28, 28]
      ⟨rfl, by decide, by decide⟩).mpr ⟨whole, handled⟩
      zeroPayload filledBytes readyPeer hiPacks rfl hiPacks_wire

/-- After 8 of its 28 bytes a pack is handed on without its payload. -/
theorem header_handled_alone :
    ¬ ∀ (junk : Payload) (incomming : PackBytes) (peer : Peer)
        (packets : List Pack) (counts : List Nat),
        (∀ packet ∈ packets, WirePack packet) →
        Division (28 * packets.length) counts →
          Framed junk incomming peer packets counts := by
  intro claim
  have framed := claim zeroPayload ⟨List.replicate 28 0, rfl⟩ readyPeer
    [hiPack] [8, 20] hiPack_wire ⟨rfl, by decide, by decide⟩ 1 (by decide)
  have handed := congrArg
    (Option.map fun handling => handling.handed.length) framed
  exact absurd handed (by decide)

end NetworkingLab.SelectiveRepeat
