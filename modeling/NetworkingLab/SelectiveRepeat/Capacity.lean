import NetworkingLab.SelectiveRepeat.WindowSafety

/-!
# The last slot of the block

`makepackets` may fill all 100 slots of `datato`.  The loops of `sendpacket`
stop at a slot that is invalid, and the exit test looks for one, so with 100
packets the walk over the block is stopped by nothing.

`capacity_iff` shows that one packet less is enough: with at most 99 packets
no run of a sender whose environment is honest leaves the block, and with 100
packets some run does.  The honest environment acknowledges the packet at the
base until the window reaches the end of the block.
-/

namespace NetworkingLab.SelectiveRepeat

open NetworkingLab.Foundation.CString
open NetworkingLab.Foundation.InOrder
open NetworkingLab.Foundation.Runs

/-- A pack that acknowledges a transmitted packet. -/
def Genuine (state : LoggedSender) (packet : Pack) : Prop :=
  ∃ transmission ∈ state.transmitted,
    packet.ackno = transmission.packet.sno

/-- Whatever is called next stays inside the block. -/
structure Inside (state : LoggedSender) : Prop where
  call : state.sender.running = true → state.sender.send.isSome
  ack : ∀ packet, state.sender.running = true →
    Genuine state packet → (state.sender.receiveAck packet).isSome

/-! ## The log of a run -/

/-- The invariant of a sender whose log has exactly the announced numbers. -/
structure LogInv (packets : Buffer) (count announced : Nat)
    (state : LoggedSender) : Prop where
  inv : SenderInv packets count announced state.sender
  sound : ∀ transmission ∈ state.transmitted,
    ∃ number < announced, transmission.packet.sno = (number : Nat)
  complete : ∀ number < announced,
    ∃ transmission ∈ state.transmitted,
      transmission.packet.sno = (number : Nat)

namespace LogInv

variable
    {packets : Buffer} {count announced : Nat}
    {state next : LoggedSender} {label : SenderEvent}

theorem start
    (sendable : Sendable count packets) (window : Int) :
    LogInv packets count 0 ⟨⟨window, packets, ⟨-1, 0⟩, true⟩, []⟩ where
  inv := SenderInv.start sendable window
  sound _ member := by cases member
  complete _ absent := by cases absent

/-- A call logs what it announces. -/
theorem call
    (log : LogInv packets count announced state)
    {later : Nat} {sender : Sender} {sent : List Transmission}
    (inv : SenderInv packets count later sender)
    (announces : Announces (CopyOf packets) Fresh announced
      (sent.map Transmission.packet) later) :
    LogInv packets count later ⟨sender, state.transmitted ++ sent⟩ where
  inv := inv
  sound transmission member := by
    rcases List.mem_append.mp member with old | new
    · rcases log.sound transmission old with ⟨number, known, sno⟩
      exact ⟨number, Nat.lt_of_lt_of_le known announces.le, sno⟩
    · rcases announces.copy_of_mem
          (List.mem_map_of_mem (f := Transmission.packet) new) with
        ⟨number, known, copy⟩
      exact ⟨number, known, copy.sno⟩
  complete number known := by
    rcases Nat.lt_or_ge number announced with old | new
    · rcases log.complete number old with ⟨transmission, member, sno⟩
      exact ⟨transmission, List.mem_append_left _ member, sno⟩
    · rcases announces.exists_fresh new known with
        ⟨packet, member, copy, _⟩
      rcases List.mem_map.mp member with ⟨transmission, sentIt, rfl⟩
      exact ⟨transmission, List.mem_append_right _ sentIt, copy.sno⟩

/-- A genuine acknowledgement is one of an announced packet. -/
theorem acknowledged
    (log : LogInv packets count announced state)
    (sendable : Sendable count packets)
    {packet : Pack} (genuine : Genuine state packet) :
    ∃ j : Fin 100, packet.ackno = (j : Nat) ∧ (j : Nat) < announced := by
  rcases genuine with ⟨transmission, member, acked⟩
  rcases log.sound transmission member with ⟨number, known, sno⟩
  have bounded := sendable.bounded
  have total := log.inv.announced_le
  exact ⟨⟨number, by omega⟩, acked.trans sno, known⟩

/-- No step loses the log. -/
theorem step
    (log : LogInv packets count announced state)
    (sendable : Sendable count packets)
    (move : SenderStep state label next) :
    ∃ later, LogInv packets count later next := by
  cases move with
  | call running defined =>
      rcases log.inv.send sendable running with
        ⟨_, _, later, returns, inv, announces⟩
      cases returns.eq_of_some defined
      exact ⟨later, log.call inv announces⟩
  | ack running genuine defined =>
      rcases log.acknowledged sendable genuine with ⟨j, number, known⟩
      rcases log.inv.receiveAck sendable number known with
        ⟨_, call, inv, _⟩
      rw [defined] at call
      cases call
      exact ⟨announced, inv, log.sound, log.complete⟩

/-- With an invalid slot in the block every call stays inside it. -/
theorem inside
    (log : LogInv packets count announced state)
    (sendable : Sendable count packets) (spare : count ≤ 99) :
    Inside state where
  call running := by
    rcases log.inv.send sendable running with ⟨_, _, _, returns, _⟩
    rw [returns.eq_some spare]
    rfl
  ack packet _ genuine := by
    rcases log.acknowledged sendable genuine with ⟨j, number, known⟩
    rcases log.inv.receiveAck sendable number known with ⟨_, call, _⟩
    rw [call]
    rfl

end LogInv

/-! ## The way to the end of a full block -/

/-- A call that stays inside a full block does not end the sender. -/
theorem Sender.send_runs
    {packets : Buffer} {announced : Nat} {sender next : Sender}
    {sent : List Transmission}
    (inv : SenderInv packets 100 announced next)
    (call : sender.send = some (next, sent)) :
    next.running = true := by
  rcases Sender.send_cases call with ⟨result, defined, rfl, _⟩
  rcases sendpacket_cases defined with ⟨_, _, _, reached⟩
  cases inv.law with
  | initial _ _ running => exact running
  | started base nextseq law =>
      rw [law.runs]
      have stored := congrArg Counters.nextseq law.counters
      simp only at stored
      omega

/-- How far the counters are from standing behind the block. -/
def remaining (counters : Counters) : Nat :=
  (200 - (counters.base + counters.nextseq)).toNat

theorem remaining_lt
    {counters later : Counters}
    (inside : counters.base + counters.nextseq < 200)
    (grown : counters.base + counters.nextseq <
      later.base + later.nextseq) :
    remaining later < remaining counters := by
  simp only [remaining]
  omega

/-- A step after which the sender runs on, closer to the end of the block. -/
def Advances (state : LoggedSender) : Prop :=
  ∃ label next, SenderStep state label next ∧
    next.sender.running = true ∧
    remaining next.sender.counters < remaining state.sender.counters

section Full

variable
    {packets : Buffer} {announced : Nat} {state : LoggedSender}
    (log : LogInv packets 100 announced state)
    (sendable : Sendable 100 packets)
    (running : state.sender.running = true)

include log sendable running

/-- The call that stays inside the block advances with its counters. -/
theorem advances_of_call
    {sender : Sender} {sent : List Transmission}
    (call : state.sender.send = some (sender, sent))
    (closer :
      remaining sender.counters < remaining state.sender.counters) :
    Advances state := by
  have move : SenderStep state (.call sent)
      ⟨sender, state.transmitted ++ sent⟩ :=
    .call running call
  rcases log.step sendable move with ⟨later, kept⟩
  exact ⟨_, _, move, Sender.send_runs kept.inv call, closer⟩

/-- The first call opens the window. -/
theorem first_call_advances
    (inside : Inside state)
    (counters : state.sender.counters = ⟨-1, 0⟩) :
    Advances state := by
  rcases Option.isSome_iff_exists.mp (inside.call running) with
    ⟨⟨sender, sent⟩, call⟩
  rcases sendpacket_first (log.inv.numbered sendable) (Nat.le_refl 100)
      state.sender.window (by decide) with ⟨stop, reached, effect⟩
  apply advances_of_call log sendable running call
  cases (Sender.send_returns counters effect).eq_of_some call
  rw [counters]
  apply remaining_lt
  · decide
  · simp only
    omega

/-- A call with room in the window sends new packets. -/
theorem open_call_advances
    (inside : Inside state)
    {base nextseq : Nat}
    (law : StartedLaw 100 announced base nextseq state.sender)
    (room : (nextseq : Int) < base + state.sender.window) :
    Advances state := by
  rcases Option.isSome_iff_exists.mp (inside.call running) with
    ⟨⟨sender, sent⟩, call⟩
  have unfinished := law.runs.mp running
  have total := law.total
  have baseBound := law.baseBound
  rcases sendpacket_later (log.inv.numbered sendable) (Nat.le_refl 100)
      state.sender.window base unfinished with
    ⟨stop, reached, effect⟩
  apply advances_of_call log sendable running call
  cases (Sender.send_returns law.counters effect).eq_of_some call
  rw [law.counters]
  apply remaining_lt <;> simp only <;> omega

/-- With a full window the packet at the base can be acknowledged. -/
theorem full_window_advances
    (positive : 0 < state.sender.window)
    {base nextseq : Nat}
    (law : StartedLaw 100 announced base nextseq state.sender)
    (full : (base : Int) + state.sender.window ≤ nextseq) :
    Advances state := by
  have unfinished := law.runs.mp running
  have counted := law.counted
  have outstanding : base < nextseq := by omega
  rcases log.complete base (by omega) with ⟨transmission, member, sno⟩
  have slot : base < 100 := by omega
  have number : (⟨-1, base, zeroPayload⟩ : Pack).ackno =
      ((⟨base, slot⟩ : Fin 100) : Nat) :=
    rfl
  have genuine : Genuine state ⟨-1, base, zeroPayload⟩ :=
    ⟨transmission, member, sno.symm⟩
  rcases log.inv.receiveAck sendable number
      (show base < announced by omega) with
    ⟨next, call, later, marked, grown, kept⟩
  have runs : next.running = true := by
    rcases Sender.receiveAck_cases call with ⟨_, _, _, rfl⟩
    exact running
  refine ⟨_, ⟨next, state.transmitted⟩, .ack running genuine call, runs,
    ?_⟩
  rw [law.counters] at grown kept ⊢
  cases later.law with
  | initial counters _ _ =>
      rw [counters] at grown
      simp only at grown
      omega
  | started base' nextseq' laterLaw =>
      -- slot `base` is marked now, so the base cannot have stayed there
      have moved : base' ≠ base := by
        rintro rfl
        apply laterLaw.atBase ⟨base', slot⟩ rfl
        rw [marked, acknowledge_ackno, if_pos rfl]
      rw [laterLaw.counters] at grown kept ⊢
      simp only at grown kept
      apply remaining_lt <;> simp only <;> omega

/-- Where the next calls stay inside the block there is a step closer. -/
theorem advances_of_inside
    (positive : 0 < state.sender.window) (inside : Inside state) :
    Advances state := by
  cases log.inv.law with
  | initial counters _ _ =>
      exact first_call_advances log sendable running inside counters
  | started base nextseq law =>
      by_cases room : (nextseq : Int) < base + state.sender.window
      · exact open_call_advances log sendable running inside law room
      · exact full_window_advances log sendable running positive law
          (Int.not_lt.mp room)

end Full

/-! ## Runs -/

/-- A sender with a full block that has not left it yet. -/
structure FullRun (packets : Buffer) (state : LoggedSender) : Prop where
  positive : 0 < state.sender.window
  running : state.sender.running = true
  logged : ∃ announced, LogInv packets 100 announced state

/-- With 100 packets some run leaves the block. -/
theorem exists_outside
    {packets : Buffer} (sendable : Sendable 100 packets)
    {window : Int} (positive : 0 < window) :
    ∃ records final,
      Run SenderStep ⟨⟨window, packets, ⟨-1, 0⟩, true⟩, []⟩ records
        final ∧ ¬ Inside final := by
  have initial : FullRun packets
      ⟨⟨window, packets, ⟨-1, 0⟩, true⟩, []⟩ :=
    ⟨positive, rfl, 0, LogInv.start sendable window⟩
  apply Run.exists_not_good
    (fun state => remaining state.sender.counters) _ initial
  rintro current ⟨positive, running, announced, log⟩ inside
  rcases advances_of_inside log sendable running positive inside with
    ⟨label, next, move, runs, closer⟩
  have kept : 0 < next.sender.window := by
    rw [move.window_kept]
    exact positive
  exact ⟨label, next, move, ⟨kept, runs, log.step sendable move⟩, closer⟩

/-- With at most 99 packets every run stays inside the block. -/
theorem inside_of_run
    {packets : Buffer} {count : Nat} (sendable : Sendable count packets)
    (spare : count ≤ 99) {window : Int}
    {records : List (Record LoggedSender SenderEvent)}
    {final : LoggedSender}
    (run : Run SenderStep ⟨⟨window, packets, ⟨-1, 0⟩, true⟩, []⟩ records
      final) :
    Inside final := by
  have logged : ∃ announced, LogInv packets count announced final := by
    apply run.invariant
      (fun state => ∃ announced, LogInv packets count announced state)
      ⟨0, LogInv.start sendable window⟩
    rintro current label next ⟨announced, log⟩ move
    exact log.step sendable move
  rcases logged with ⟨announced, log⟩
  exact log.inside sendable spare

/--
Every run of a sender whose environment is honest stays inside the block if
and only if the file has at most 99 packets.
-/
theorem capacity_iff
    (window : Int) (positive : 0 < window)
    (datato datafrom : Buffer) (file : List Byte)
    (peer : Peer)
    (started : Peer.start window datato datafrom file = some peer) :
    (∀ records final,
        Run SenderStep ⟨peer.toSender, []⟩ records final →
          Inside final) ↔
      packetCount file ≤ 99 := by
  rcases Peer.start_cases started with ⟨packets, prepared, side, _⟩
  have fits := Peer.start_fits started
  have sendable := prepared.sendable fits
  rw [side]
  constructor
  · intro inside
    by_contra full
    have count : packetCount file = 100 := by omega
    rw [count] at sendable
    rcases exists_outside sendable positive with
      ⟨records, final, run, outside⟩
    exact outside (inside records final run)
  · intro spare records final run
    exact inside_of_run sendable spare run

/-- A file of two bytes has two packets: every run stays inside. -/
theorem capacity_two :
    ∃ peer, Peer.start 1 zeroed zeroed [104, 105] = some peer ∧
      ∀ records final,
        Run SenderStep ⟨peer.toSender, []⟩ records final →
          Inside final := by
  rcases Option.isSome_iff_exists.mp
      (show (Peer.start 1 zeroed zeroed [104, 105]).isSome = true by
        decide) with
    ⟨peer, started⟩
  exact ⟨peer, started,
    (capacity_iff 1 (by decide) zeroed zeroed [104, 105] peer
      started).mpr (by decide)⟩

/-- A file of 1863 letters has 100 packets. -/
def fullFile : List Byte :=
  List.replicate 1863 97

theorem packetCount_fullFile : packetCount fullFile = 100 := by
  rw [packetCount, fullFile, List.length_replicate]

/-- Some run of a sender with 100 packets reads slot 100. -/
theorem full_block_left :
    ¬ ∀ (window : Int) (datato datafrom : Buffer) (file : List Byte)
        (peer : Peer),
        0 < window → packetCount file ≤ 100 →
        Peer.start window datato datafrom file = some peer →
          ∀ records final,
            Run SenderStep ⟨peer.toSender, []⟩ records final →
              Inside final := by
  intro claim
  have fits : packetCount fullFile ≤ 100 :=
    Nat.le_of_eq packetCount_fullFile
  rcases makepackets_prepared zeroed fullFile fits with
    ⟨packets, made, prepared⟩
  have sendable := prepared.sendable fits
  rw [packetCount_fullFile] at sendable
  have positive : (0 : Int) < 1 := by decide
  rcases exists_outside sendable positive with
    ⟨records, final, run, outside⟩
  have started : Peer.start 1 zeroed zeroed fullFile =
      some ⟨⟨1, packets, ⟨-1, 0⟩, true⟩, makeinvalid zeroed⟩ := by
    rw [Peer.start, made]
    rfl
  exact outside
    (claim 1 zeroed zeroed fullFile _ (by decide) fits started records
      final run)

end NetworkingLab.SelectiveRepeat
