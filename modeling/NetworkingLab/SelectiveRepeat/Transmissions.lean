import NetworkingLab.SelectiveRepeat.Robustness

/-!
# What a call transmits

The two loops of `sendpacket` one by one, on a block with any pattern of
acknowledgements.

The second loop is right: `sendpacket_frontier` says where it moves the
counters, which packets it sends and when the process exits.  The first loop
tests slot `i` and sends slot `next`, so it never sends an outstanding packet
again; `selective_iff` shows that it does what it is for exactly when there is
nothing for it to do.
-/

namespace NetworkingLab.SelectiveRepeat

open NetworkingLab.Foundation.CString
open NetworkingLab.Foundation.Runs

/-- A block with the acknowledgements of a pattern. -/
def withAcks (buffer : Buffer) (acks : Fin 100 → Int) : Buffer :=
  fun j => { buffer j with ackno := acks j }

theorem Numbered.withAcks
    {count : Nat} {buffer : Buffer} (numbered : Numbered count buffer)
    (acks : Fin 100 → Int) :
    Numbered count (withAcks buffer acks) where
  valid j inside := numbered.valid j inside
  invalid j outside := numbered.invalid j outside

/-! ## New packets -/

/-- The packs in the slots `first .. last - 1`, in order. -/
def packsBetween (buffer : Buffer) (first last : Nat) : List Pack :=
  (List.range' first (last - first)).map (slotAt buffer)

theorem map_packet_newTransmissions
    (buffer : Buffer) (base : Int) (first last : Nat) :
    (newTransmissions buffer base first (last - first)).map
        Transmission.packet =
      packsBetween buffer first last := by
  simp [newTransmissions, packsBetween]

/--
The counters of a call, with the base and the number of the first new packet
that the second loop finds.
-/
inductive CallCounters (count : Nat) : Counters → Nat → Nat → Prop where
  | first : CallCounters count ⟨-1, 0⟩ 0 1
  | later (base nextseq : Nat)
      (baseInside : base ≤ count) (nextInside : nextseq < count) :
      CallCounters count ⟨base, nextseq⟩ base nextseq

/-- What a call leaves behind when its second loop starts at `b` and `n`. -/
structure FrontierLaw (count b n : Nat) (sender next : Sender)
    (result : SendResult) : Prop where
  datato : next.datato = sender.datato
  counters : next.counters = result.counters
  base : result.counters.base = b
  nextseq : result.counters.nextseq =
    max (n : Int) (min (b + sender.window) count)
  fresh : result.fresh.map Transmission.packet =
    packsBetween sender.datato n result.counters.nextseq.toNat
  exits : next.running = false ↔ result.counters.nextseq = count

/-- Both kinds of calls, on a numbered block with an invalid slot. -/
theorem sendpacket_of_counters
    {count : Nat} {buffer : Buffer}
    (numbered : Numbered count buffer) (nonempty : 0 < count)
    (spare : count ≤ 99) (window : Int)
    {counters : Counters} {b n : Nat}
    (call : CallCounters count counters b n) :
    ∃ (stop : Nat) (resent : List Transmission),
      (stop : Int) = max (n : Int) (min (b + window) count) ∧
        sendpacket buffer window counters =
          some
            { counters := ⟨b, stop⟩
              resent := resent
              fresh := newTransmissions buffer b n (stop - n)
              exits := decide (stop = count) } := by
  have bounded : count ≤ 100 := by omega
  cases call with
  | first =>
      rcases sendpacket_first numbered bounded window nonempty with
        ⟨stop, reached, returns⟩
      exact ⟨stop, _, by simpa using reached, returns.eq_some spare⟩
  | later _ _ _ nextInside =>
      rcases sendpacket_later numbered bounded window b nextInside with
        ⟨stop, reached, returns⟩
      exact ⟨stop, _, reached, returns.eq_some spare⟩

/--
On a block that `makepackets` has prepared with at most 99 packets, with any
acknowledgements, a call moves `nextseq` to the end of the window or of the
packets, sends the packets it moves over, and exits at the end of the packets.
-/
theorem sendpacket_frontier
    (ptr packets : Buffer) (file : List Byte)
    (made : makepackets (makeinvalid ptr) file = some packets)
    (spare : packetCount file ≤ 99)
    (acks : Fin 100 → Int) (window : Int)
    (counters : Counters) (b n : Nat)
    (call : CallCounters (packetCount file) counters b n) :
    ∃ result next,
      sendpacket (withAcks packets acks) window counters =
          some result ∧
        Sender.send ⟨window, withAcks packets acks, counters, true⟩ =
          some (next, result.sent) ∧
        FrontierLaw (packetCount file) b n
          ⟨window, withAcks packets acks, counters, true⟩ next
          result := by
  have numbered : Numbered (packetCount file) packets := by
    rcases makepackets_prepared ptr file (by omega) with
      ⟨other, run, prepared⟩
    rw [made] at run
    cases run
    exact prepared.numbered
  rcases sendpacket_of_counters (numbered.withAcks acks)
      (packetCount_pos file) spare window call with
    ⟨stop, resent, reached, defined⟩
  refine ⟨_,
    ⟨window, withAcks packets acks, ⟨b, stop⟩,
      !decide (stop = packetCount file)⟩,
    defined, ?_, ?_⟩
  · rw [Sender.send, defined]
    rfl
  · constructor
    · rfl
    · rfl
    · rfl
    · exact reached
    · exact map_packet_newTransmissions _ b n stop
    · simp only [Bool.not_eq_false', decide_eq_true_eq]
      exact Int.ofNat_inj.symm

/-- The first call for a file of two bytes. -/
theorem sendpacket_frontier_two :
    ∃ packets,
      makepackets (makeinvalid zeroed) [104, 105] = some packets ∧
        ∃ result next,
          sendpacket (withAcks packets fun _ => -1) 1 ⟨-1, 0⟩ =
              some result ∧
            Sender.send
                ⟨1, withAcks packets fun _ => -1, ⟨-1, 0⟩, true⟩ =
              some (next, result.sent) ∧
            FrontierLaw (packetCount [104, 105]) 0 1
              ⟨1, withAcks packets fun _ => -1, ⟨-1, 0⟩, true⟩ next
              result := by
  rcases makepackets_prepared zeroed [104, 105] (by decide) with
    ⟨packets, made, _⟩
  exact ⟨packets, made,
    sendpacket_frontier zeroed packets [104, 105] made (by decide) _ 1 _
      0 1 .first⟩

/-! ## Outstanding packets -/

/-- The first loop of a call, as `sendpacket` enters it. -/
def firstLoop (buffer : Buffer) (counters : Counters) :
    Option (Counters × List Transmission) :=
  retransmit buffer counters.nextseq
    (counters.nextseq - counters.base).toNat counters.base counters.base
    counters

/-- What the first loop sends is what a call sends first. -/
theorem firstLoop_of_sendpacket
    {buffer : Buffer} {window : Int} {counters : Counters}
    {result : SendResult}
    (call : sendpacket buffer window counters = some result) :
    ∃ started,
      firstLoop buffer counters = some (started, result.resent) := by
  rcases sendpacket_cases call with ⟨started, first, _⟩
  exact ⟨started, first⟩

/-- The packets between the counters that are not acknowledged. -/
def outstanding (buffer : Buffer) (counters : Counters) : List Pack :=
  (packsBetween buffer counters.base.toNat
    counters.nextseq.toNat).filter fun packet => packet.ackno = -1

/-- The first loop sends the outstanding packets, in order, and no other. -/
def Selective (buffer : Buffer) (counters : Counters) : Prop :=
  ∃ started sent,
    firstLoop buffer counters = some (started, sent) ∧
      sent.map Transmission.packet = outstanding buffer counters

/-- Every slot between the counters is acknowledged. -/
def NoneOutstanding (counters : Counters) (acks : Fin 100 → Int) :
    Prop :=
  ∀ j : Fin 100, counters.base ≤ (j : Nat) →
    ((j : Nat) : Int) < counters.nextseq → acks j ≠ -1

/-- The counters of a peer, whatever it has received. -/
inductive CounterPlace (count : Nat) (sender : Sender) : Prop where
  | initial
      (counters : sender.counters = ⟨-1, 0⟩)
  | started
      (base nextseq : Nat)
      (counters : sender.counters = ⟨base, nextseq⟩)
      (counted : nextseq ≤ count)
      (inside : nextseq < 100)
      (unfinished : sender.running = true → nextseq < count)

/-- A numbered block and counters that stay in it. -/
structure SendingLaw (count : Nat) (sender : Sender) : Prop where
  numbered : Numbered count sender.datato
  place : CounterPlace count sender

namespace SendingLaw

variable {count : Nat} {sender next : Sender}

/-- A call moves `nextseq` to a slot of the block. -/
theorem send
    (law : SendingLaw count sender)
    (nonempty : 0 < count) (bounded : count ≤ 100)
    (running : sender.running = true) {sent : List Transmission}
    (call : sender.send = some (next, sent)) :
    SendingLaw count next := by
  rcases Sender.send_cases call with ⟨result, defined, rfl, _⟩
  rcases sendpacket_cases defined with ⟨_, _, _, inside⟩
  refine ⟨law.numbered, ?_⟩
  cases law.place with
  | initial counters =>
      rw [counters] at defined
      rcases sendpacket_first law.numbered bounded sender.window nonempty
        with ⟨stop, reached, returns⟩
      cases returns.eq_of_some defined
      apply CounterPlace.started 0 stop rfl
      · omega
      · simp only at inside
        omega
      · simp only [Bool.not_eq_true', decide_eq_false_iff_not]
        omega
  | started base nextseq counters counted _ unfinished =>
      rw [counters] at defined
      rcases sendpacket_later law.numbered bounded sender.window base
        (unfinished running) with ⟨stop, reached, returns⟩
      cases returns.eq_of_some defined
      apply CounterPlace.started base stop rfl
      · omega
      · simp only at inside
        omega
      · simp only [Bool.not_eq_true', decide_eq_false_iff_not]
        omega

/-- An acknowledgement moves the base only. -/
theorem receiveAck
    (law : SendingLaw count sender) {incomming : Pack}
    (call : sender.receiveAck incomming = some next) :
    SendingLaw count next := by
  rcases Sender.receiveAck_cases call with ⟨datato, base, acked, rfl⟩
  have moved := ackprocess_le acked
  constructor
  · rcases ackprocess_cases acked with ⟨j, _, rfl, _⟩
    constructor
    · intro k inside
      rw [← law.numbered.valid k inside]
      by_cases same : k = j <;> simp [acknowledge, same]
    · intro k outside
      rw [← law.numbered.invalid k outside]
      by_cases same : k = j <;> simp [acknowledge, same]
  · cases law.place with
    | initial counters =>
        -- slot -1 is read before the base has left -1
        have defined := Option.isSome_of_eq_some acked
        rw [ackprocess_isSome_iff incomming _ (by simp [counters, BaseLaw])]
          at defined
        exact absurd (by rw [counters]) defined.2
    | started first nextseq counters counted inside unfinished =>
        rw [counters] at moved
        obtain ⟨stop, rfl⟩ := Int.eq_ofNat_of_zero_le
          (show 0 ≤ base from Int.le_trans (Int.natCast_nonneg _) moved)
        exact .started stop nextseq (by rw [counters]) counted inside
          unfinished

/-- No step of a peer breaks the law of its sending side. -/
theorem step
    {peer later : Peer} {event : PeerEvent}
    (law : SendingLaw count peer.toSender)
    (nonempty : 0 < count) (bounded : count ≤ 100)
    (move : PeerStep peer event later) :
    SendingLaw count later.toSender := by
  cases move with
  | send running defined =>
      rcases Peer.send_cases defined with ⟨_, _, call, rfl, _⟩
      exact law.send nonempty bounded running call
  | receive _ _ defined =>
      rcases dispatch_sender defined with same | acked
      · rw [same]
        exact law
      · exact law.receiveAck acked

end SendingLaw

/-- Slots on different sides of `nextseq` hold different packs. -/
theorem Numbered.slotAt_ne
    {count : Nat} {buffer : Buffer} (numbered : Numbered count buffer)
    {i k : Nat} (before : i < k) (counted : k ≤ count)
    (inside : k < 100) :
    slotAt buffer i ≠ slotAt buffer k := by
  intro same
  have number := congrArg Pack.sno same
  rw [numbered.sno_of_lt (by omega) (by omega)] at number
  rcases Nat.lt_or_eq_of_le counted with more | rfl
  · rw [numbered.sno_of_lt more inside] at number
    omega
  · rw [numbered.sno_count inside] at number
    omega

/-- The first loop is right exactly when nothing is outstanding. -/
theorem SendingLaw.loop_selective_iff
    {count : Nat} {sender : Sender} (law : SendingLaw count sender)
    (started : 0 ≤ sender.counters.base) (acks : Fin 100 → Int) :
    Selective (withAcks sender.datato acks) sender.counters ↔
      NoneOutstanding sender.counters acks := by
  cases law.place with
  | initial counters =>
      rw [counters] at started
      exact absurd started (by decide)
  | started base nextseq counters counted inside _ =>
      rw [counters]
      have numbered := law.numbered.withAcks acks
      have run := retransmit_started (withAcks sender.datato acks) base
        inside
      constructor
      · rintro ⟨_, sent, loop, same⟩ j behind before unmarked
        rw [firstLoop, run] at loop
        cases loop
        simp only [Int.ofNat_le, Int.ofNat_lt] at behind before
        have waiting : slotAt (withAcks sender.datato acks) j ∈
            outstanding (withAcks sender.datato acks)
              ⟨base, nextseq⟩ := by
          simp only [outstanding, packsBetween, List.mem_filter,
            List.mem_map, List.mem_range'_1, Int.toNat_natCast]
          refine ⟨⟨j, by omega, rfl⟩, ?_⟩
          simpa [withAcks] using unmarked
        rw [← same, List.map_replicate] at waiting
        exact numbered.slotAt_ne before counted inside
          (List.eq_of_mem_replicate waiting)
      · intro none
        have silent : ∀ k ∈ List.range' base (nextseq - base),
            (slotAt (withAcks sender.datato acks) k).ackno ≠ -1 := by
          intro k member
          rw [List.mem_range'_1] at member
          rw [slotAt_of_lt _ (by omega)]
          apply none ⟨k, by omega⟩
          · simp only [Int.ofNat_le]
            omega
          · simp only [Int.ofNat_lt]
            omega
        have none_sent : unacknowledged (withAcks sender.datato acks)
            base (nextseq - base) = 0 := by
          simpa [unacknowledged] using silent
        have none_waiting : outstanding (withAcks sender.datato acks)
            ⟨base, nextseq⟩ = [] := by
          rw [outstanding, List.filter_eq_nil_iff]
          intro packet member
          rcases List.mem_map.mp member with ⟨k, inRange, rfl⟩
          simpa using silent k inRange
        refine ⟨_, _, run, ?_⟩
        rw [none_sent, none_waiting]
        rfl

/--
In every state that a peer can reach, with any acknowledgements, the first
loop sends exactly the outstanding packets if and only if there are none.
-/
theorem selective_iff
    (window : Int) (datato datafrom : Buffer) (file : List Byte)
    (start final : Peer)
    (records : List (Record Peer PeerEvent))
    (started : Peer.start window datato datafrom file = some start)
    (run : Run PeerStep start records final)
    (opened : 0 ≤ final.counters.base) (acks : Fin 100 → Int) :
    Selective (withAcks final.datato acks) final.counters ↔
      NoneOutstanding final.counters acks := by
  rcases Peer.start_cases started with ⟨packets, prepared, side, _⟩
  have bounded := Peer.start_fits started
  have initial : SendingLaw (packetCount file) start.toSender := by
    rw [side]
    exact ⟨prepared.numbered, .initial rfl⟩
  have law : SendingLaw (packetCount file) final.toSender :=
    run.invariant
      (fun peer => SendingLaw (packetCount file) peer.toSender) initial
      fun _ _ _ law move =>
        law.step (packetCount_pos file) bounded move
  exact law.loop_selective_iff opened acks

/-- A peer with a file of two bytes and window 1 makes its first call. -/
theorem exists_first_call :
    ∃ start next,
      Peer.start 1 zeroed zeroed [104, 105] = some start ∧
        PeerStep start .send next ∧ next.counters = ⟨0, 1⟩ := by
  have counted :
      ((Peer.start 1 zeroed zeroed [104, 105]).bind fun peer =>
        peer.send.map fun result => result.1.counters) =
          some ⟨0, 1⟩ := by
    decide
  simp only [Option.bind_eq_some_iff, Option.map_eq_some_iff] at counted
  rcases counted with ⟨start, started, ⟨next, _⟩, call, counters⟩
  have running : start.running = true := by
    rcases Peer.start_cases started with ⟨_, _, side, _⟩
    rw [side]
  exact ⟨start, next, started, .send running call, counters⟩

/-- Packet 0 has been sent and is acknowledged. -/
theorem selective_iff_acknowledged :
    ∃ start next : Peer,
      Peer.start 1 zeroed zeroed [104, 105] = some start ∧
        (Selective (withAcks next.datato fun _ => 1) next.counters ↔
          NoneOutstanding next.counters fun _ => 1) := by
  rcases exists_first_call with ⟨start, next, started, move, counters⟩
  exact ⟨start, next, started,
    selective_iff 1 zeroed zeroed [104, 105] start next _ started
      (.snoc .nil move) (by rw [counters]) fun _ => 1⟩

/-- Packet 0 is outstanding, and packet 1 is sent in its place. -/
theorem other_packet_resent :
    ¬ ∀ (window : Int) (datato datafrom : Buffer) (file : List Byte)
        (start final : Peer)
        (records : List (Record Peer PeerEvent)),
        Peer.start window datato datafrom file = some start →
        Run PeerStep start records final →
        0 ≤ final.counters.base →
          ∀ acks : Fin 100 → Int,
            Selective (withAcks final.datato acks) final.counters := by
  intro claim
  rcases exists_first_call with ⟨start, next, started, move, counters⟩
  have opened : 0 ≤ next.counters.base := by
    rw [counters]
  have selective := claim 1 zeroed zeroed [104, 105] start next _ started
    (.snoc .nil move) opened fun _ => -1
  have law : SendingLaw 2 next.toSender := by
    rcases Peer.start_cases started with ⟨_, prepared, side, _⟩
    have initial : SendingLaw 2 start.toSender := by
      rw [side]
      exact ⟨prepared.numbered, .initial rfl⟩
    exact initial.step (by decide) (by decide) move
  rw [law.loop_selective_iff opened, counters] at selective
  exact selective 0 (by decide) (by decide) rfl

end NetworkingLab.SelectiveRepeat
