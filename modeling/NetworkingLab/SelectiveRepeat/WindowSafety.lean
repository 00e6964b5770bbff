import NetworkingLab.Foundation.Runs
import NetworkingLab.SelectiveRepeat.SenderInvariant

/-!
# The window of a sender

A sender alone, with an environment that acknowledges packets it has really
transmitted, in any order and any number of times.  Window safety asks that
the counters stay within one window of each other and that every packet is
inside the window when it is sent.

The retransmission loop tests slot `i` but sends slot `next`.  When the window
is full that slot is the first one behind the window, so a call that finds the
window full and a packet unacknowledged breaks the law; no other call does
(`window_safe_iff`).
-/

namespace NetworkingLab.SelectiveRepeat

open NetworkingLab.Foundation.CString
open NetworkingLab.Foundation.InOrder
open NetworkingLab.Foundation.Runs

/-- A sender together with everything it has transmitted. -/
structure LoggedSender where
  sender : Sender
  transmitted : List Transmission

/-- A call with its transmissions, or an acknowledgement. -/
inductive SenderEvent where
  | call (sent : List Transmission)
  | ack (packet : Pack)

/-- The steps of a sender whose environment is honest. -/
inductive SenderStep :
    LoggedSender → SenderEvent → LoggedSender → Prop where
  | call {state : LoggedSender} {sender : Sender}
      {sent : List Transmission}
      (running : state.sender.running = true)
      (defined : state.sender.send = some (sender, sent)) :
      SenderStep state (.call sent)
        ⟨sender, state.transmitted ++ sent⟩
  | ack {state : LoggedSender} {sender : Sender} {packet : Pack}
      (running : state.sender.running = true)
      (genuine : ∃ transmission ∈ state.transmitted,
        packet.ackno = transmission.packet.sno)
      (defined : state.sender.receiveAck packet = some sender) :
      SenderStep state (.ack packet) ⟨sender, state.transmitted⟩

/-! ## The law and its guard -/

/-- The counters are in order and within one window of each other. -/
def WindowLaw (window : Int) (counters : Counters) : Prop :=
  0 ≤ counters.base ∧ counters.base ≤ counters.nextseq ∧
    counters.nextseq ≤ counters.base + window

/--
A transmission inside the window.  The very first `send` runs before its
branch replaces the initial base -1 by 0 and is measured against that 0.
-/
def InWindow (window : Int) (transmission : Transmission) : Prop :=
  (transmission.counters = ⟨-1, 0⟩ ∨
      WindowLaw window transmission.counters) ∧
    max transmission.counters.base 0 ≤ transmission.packet.sno ∧
    transmission.packet.sno < max transmission.counters.base 0 + window

theorem windowLaw_mk
    {window base nextseq : Int}
    (started : 0 ≤ base) (ordered : base ≤ nextseq)
    (within : nextseq ≤ base + window) :
    WindowLaw window ⟨base, nextseq⟩ :=
  ⟨started, ordered, within⟩

theorem inWindow_of_law
    {window base nextseq : Int} {transmission : Transmission}
    (counters : transmission.counters = ⟨base, nextseq⟩)
    (law : WindowLaw window ⟨base, nextseq⟩)
    (lower : base ≤ transmission.packet.sno)
    (upper : transmission.packet.sno < base + window) :
    InWindow window transmission := by
  have started : max base 0 = base := max_eq_left law.1
  rw [← counters] at law
  refine ⟨Or.inr law, ?_, ?_⟩ <;> rw [counters] <;> simp only [started]
  · exact lower
  · exact upper

theorem inWindow_of_first
    {window : Int} {transmission : Transmission}
    (positive : 0 < window)
    (counters : transmission.counters = ⟨-1, 0⟩)
    (first : transmission.packet.sno = 0) :
    InWindow window transmission := by
  refine ⟨Or.inl counters, ?_, ?_⟩ <;> rw [counters, first]
  · exact Int.le_refl 0
  · simpa using positive

/-- The transmissions of an event. -/
def SenderEvent.sent : SenderEvent → List Transmission
  | .call sent => sent
  | .ack _ => []

/-- Window safety of one step: its transmissions and the state it leaves. -/
def WindowSafe (window : Int)
    (record : Record LoggedSender SenderEvent) : Prop :=
  (∀ transmission ∈ record.label.sent, InWindow window transmission) ∧
    (record.after.transmitted ≠ [] →
      WindowLaw window record.after.sender.counters)

/-- A call finds the initial counters or a window with room left. -/
def WindowOpen (window : Int)
    (record : Record LoggedSender SenderEvent) : Prop :=
  match record.label with
  | .call _ =>
      record.before.sender.counters.base = -1 ∨
        record.before.sender.counters.nextseq <
          record.before.sender.counters.base + window
  | .ack _ => True

/-! ## The invariant of guarded runs -/

/--
While every call is guarded, the announced packets are exactly the counted
ones, so the base cannot pass `nextseq`.
-/
inductive WindowInv (packets : Buffer) (count : Nat) (window : Int)
    (state : LoggedSender) : Prop where
  | initial
      (inv : SenderInv packets count 0 state.sender)
      (counters : state.sender.counters = ⟨-1, 0⟩)
      (silent : state.transmitted = [])
  | started
      (base nextseq : Nat)
      (inv : SenderInv packets count nextseq state.sender)
      (law : StartedLaw count nextseq base nextseq state.sender)
      (logged : ∀ transmission ∈ state.transmitted,
        ∃ number < nextseq, transmission.packet.sno = (number : Nat))
      (spoken : state.transmitted ≠ [])
      (within : (nextseq : Int) ≤ base + window)

/-- A started sender is described by the started law. -/
theorem SenderInv.started_of_base
    {packets : Buffer} {count announced : Nat} {sender : Sender}
    (inv : SenderInv packets count announced sender)
    {base nextseq : Nat}
    (counters : sender.counters = ⟨base, nextseq⟩) :
    StartedLaw count announced base nextseq sender := by
  cases inv.law with
  | initial initialCounters _ _ =>
      rw [initialCounters] at counters
      injection counters with base' _
      omega
  | started base' nextseq' law =>
      have same := law.counters
      rw [counters] at same
      injection same with baseEq nextEq
      have baseEq : base = base' := by exact_mod_cast baseEq
      have nextEq : nextseq = nextseq' := by exact_mod_cast nextEq
      subst baseEq
      subst nextEq
      exact law

theorem newTransmissions_sno
    {count : Nat} {buffer : Buffer}
    (numbered : Numbered count buffer) (bounded : count ≤ 100)
    {base : Int} {start length : Nat} (inside : start + length ≤ count)
    {transmission : Transmission}
    (member : transmission ∈
      newTransmissions buffer base start length) :
    ∃ k : Nat, start ≤ k ∧ k < start + length ∧
      transmission.counters = ⟨base, k⟩ ∧
      transmission.packet.sno = (k : Nat) := by
  simp only [newTransmissions, List.mem_map, List.mem_range'_1]
    at member
  rcases member with ⟨k, ⟨lower, upper⟩, rfl⟩
  exact
    ⟨k, lower, upper, rfl,
      numbered.sno_of_lt (by omega) (by omega)⟩

theorem unacknowledged_pos
    {buffer : Buffer} {base nextseq : Nat}
    (behind : base < nextseq) (unmarked : (slotAt buffer base).ackno = -1) :
    unacknowledged buffer base (nextseq - base) ≠ 0 := by
  intro none
  rw [unacknowledged, List.countP_eq_zero] at none
  have absent := none base (by
    rw [List.mem_range'_1]
    omega)
  simp [unmarked] at absent

section Steps

variable
    {packets : Buffer} {count : Nat} (sendable : Sendable count packets)
    {state : LoggedSender}

include sendable

/--
When all packets sent by a call are below the new `nextseq`, the announced
packets are exactly the counted ones again.
-/
theorem announced_eq_nextseq
    {announced nextseq : Nat} {sender next : Sender}
    {sent : List Transmission} {base : Nat}
    (inv : SenderInv packets count announced sender)
    (running : sender.running = true)
    (defined : sender.send = some (next, sent))
    (known : announced ≤ nextseq)
    (counters : next.counters = ⟨base, nextseq⟩)
    (below : ∀ transmission ∈ sent,
      ∃ number < nextseq, transmission.packet.sno = (number : Nat)) :
    SenderInv packets count nextseq next := by
  rcases inv.send sendable running with
    ⟨_, _, later, returns, laterInv, announces⟩
  cases returns.eq_of_some defined
  have law := laterInv.started_of_base counters
  have counted := law.counted
  have same : later = nextseq := by
    by_contra different
    rcases announces.exists_fresh known
        (show nextseq < later by omega) with
      ⟨packet, member, copy, _⟩
    rcases List.mem_map.mp member with ⟨transmission, sentIt, rfl⟩
    rcases below transmission sentIt with ⟨number, small, sno⟩
    have := copy.sno
    omega
  rw [← same]
  exact laterInv

/-- The first call opens the window at 0. -/
theorem first_call_safe
    {sender : Sender} {sent : List Transmission}
    (inv : SenderInv packets count 0 state.sender)
    (counters : state.sender.counters = ⟨-1, 0⟩)
    (silent : state.transmitted = [])
    (positive : 0 < state.sender.window)
    (running : state.sender.running = true)
    (defined : state.sender.send = some (sender, sent)) :
    WindowSafe state.sender.window
        ⟨state, .call sent, ⟨sender, state.transmitted ++ sent⟩⟩ ∧
      WindowInv packets count state.sender.window
        ⟨sender, state.transmitted ++ sent⟩ := by
  have bounded := sendable.bounded
  have nonempty := sendable.nonempty
  have numbered := inv.numbered sendable
  rcases sendpacket_first numbered bounded state.sender.window nonempty
    with ⟨stop, reached, call⟩
  have first := numbered.sno_of_lt nonempty (show 0 < 100 by omega)
  cases (Sender.send_returns counters call).eq_of_some defined
  have below : ∀ transmission ∈
      SendResult.sent
        ⟨⟨0, stop⟩, [⟨⟨-1, 0⟩, slotAt state.sender.datato 0⟩],
          newTransmissions state.sender.datato 0 1 (stop - 1),
          decide (stop = count)⟩,
      InWindow state.sender.window transmission ∧
        ∃ number < stop, transmission.packet.sno = (number : Nat) := by
    intro transmission member
    rcases List.mem_append.mp member with old | new
    · rw [List.mem_singleton] at old
      subst old
      exact ⟨inWindow_of_first positive rfl first, 0, by omega, first⟩
    · rcases newTransmissions_sno numbered bounded (by omega) new with
        ⟨k, _, upper, stored, sno⟩
      have law : WindowLaw state.sender.window ⟨0, k⟩ :=
        windowLaw_mk (Int.le_refl 0) (by omega) (by omega)
      exact
        ⟨inWindow_of_law stored law (by omega) (by omega), k,
          by omega, sno⟩
  have later :=
    announced_eq_nextseq sendable inv running defined (Nat.zero_le stop)
      rfl (fun transmission member => (below transmission member).2)
  constructor
  · constructor
    · exact fun transmission member => (below transmission member).1
    · intro _
      exact windowLaw_mk (Int.le_refl 0) (by omega) (by omega)
  · refine .started 0 stop later (later.started_of_base rfl) ?_ ?_ ?_
    · rw [silent]
      exact fun transmission member => (below transmission member).2
    · simp [SendResult.sent]
    · omega

/-- A later call with room in the window stays inside it. -/
theorem open_call_safe
    {sender : Sender} {sent : List Transmission} {base nextseq : Nat}
    (inv : SenderInv packets count nextseq state.sender)
    (law : StartedLaw count nextseq base nextseq state.sender)
    (logged : ∀ transmission ∈ state.transmitted,
      ∃ number < nextseq, transmission.packet.sno = (number : Nat))
    (spoken : state.transmitted ≠ [])
    (room : (nextseq : Int) < base + state.sender.window)
    (running : state.sender.running = true)
    (defined : state.sender.send = some (sender, sent)) :
    WindowSafe state.sender.window
        ⟨state, .call sent, ⟨sender, state.transmitted ++ sent⟩⟩ ∧
      WindowInv packets count state.sender.window
        ⟨sender, state.transmitted ++ sent⟩ := by
  have bounded := sendable.bounded
  have numbered := inv.numbered sendable
  have unfinished := law.runs.mp running
  have baseBound := law.baseBound
  rcases sendpacket_later numbered bounded state.sender.window
      base unfinished with
    ⟨stop, reached, call⟩
  have next :=
    numbered.sno_of_lt unfinished (show nextseq < 100 by omega)
  cases (Sender.send_returns law.counters call).eq_of_some defined
  have below : ∀ transmission ∈
      SendResult.sent
        ⟨⟨base, stop⟩,
          List.replicate
            (unacknowledged state.sender.datato base (nextseq - base))
            ⟨⟨base, nextseq⟩, slotAt state.sender.datato nextseq⟩,
          newTransmissions state.sender.datato base nextseq
            (stop - nextseq),
          decide (stop = count)⟩,
      InWindow state.sender.window transmission ∧
        ∃ number < stop, transmission.packet.sno = (number : Nat) := by
    intro transmission member
    have located : ∃ number : Nat, nextseq ≤ number ∧ number < stop ∧
        transmission.counters = ⟨base, number⟩ ∧
        transmission.packet.sno = (number : Nat) := by
      rcases List.mem_append.mp member with old | new
      · have same := List.eq_of_mem_replicate old
        subst same
        exact ⟨nextseq, Nat.le_refl _, by omega, rfl, next⟩
      · rcases newTransmissions_sno numbered bounded (by omega) new with
          ⟨k, lower, upper, stored, sno⟩
        exact ⟨k, lower, by omega, stored, sno⟩
    rcases located with ⟨k, lower, upper, stored, sno⟩
    have law : WindowLaw state.sender.window ⟨base, k⟩ :=
      windowLaw_mk (by omega) (by omega) (by omega)
    exact
      ⟨inWindow_of_law stored law (by omega) (by omega), k, upper, sno⟩
  have later :=
    announced_eq_nextseq sendable inv running defined
      (show nextseq ≤ stop by omega) rfl
      (fun transmission member => (below transmission member).2)
  constructor
  · constructor
    · exact fun transmission member => (below transmission member).1
    · intro _
      exact windowLaw_mk (by omega) (by omega) (by omega)
  · refine .started base stop later (later.started_of_base rfl) ?_ ?_ ?_
    · intro transmission member
      rcases List.mem_append.mp member with old | new
      · rcases logged transmission old with ⟨number, small, sno⟩
        exact ⟨number, by omega, sno⟩
      · exact (below transmission new).2
    · simp [spoken]
    · omega

/-- A call that finds the window full sends a packet behind the window. -/
theorem full_call_unsafe
    {sender : Sender} {sent : List Transmission} {base nextseq : Nat}
    (inv : SenderInv packets count nextseq state.sender)
    (law : StartedLaw count nextseq base nextseq state.sender)
    (positive : 0 < state.sender.window)
    (full : (base : Int) + state.sender.window ≤ nextseq)
    (running : state.sender.running = true)
    (defined : state.sender.send = some (sender, sent)) :
    ¬ WindowSafe state.sender.window
      ⟨state, .call sent, ⟨sender, state.transmitted ++ sent⟩⟩ := by
  have bounded := sendable.bounded
  have numbered := inv.numbered sendable
  have unfinished := law.runs.mp running
  have baseBound := law.baseBound
  rcases sendpacket_later numbered bounded state.sender.window
      base unfinished with
    ⟨stop, _, call⟩
  have next :=
    numbered.sno_of_lt unfinished (show nextseq < 100 by omega)
  have unmarked : (slotAt state.sender.datato base).ackno = -1 := by
    have inside : base < 100 := by omega
    rw [slotAt_of_lt _ inside]
    rcases inv.marks ⟨base, inside⟩ with marked | unmarked
    · exact (law.atBase ⟨base, inside⟩ rfl marked).elim
    · exact unmarked
  have resent := unacknowledged_pos
    (show base < nextseq by omega) unmarked
  cases (Sender.send_returns law.counters call).eq_of_some defined
  rintro ⟨inside, _⟩
  have outside := inside
    ⟨⟨base, nextseq⟩, slotAt state.sender.datato nextseq⟩
    (List.mem_append_left _ (List.mem_replicate.mpr ⟨resent, rfl⟩))
  have upper := outside.2.2
  simp only [next] at upper
  omega

/-- An honest acknowledgement keeps the law. -/
theorem ack_safe
    {sender : Sender} {packet : Pack} {base nextseq : Nat}
    (inv : SenderInv packets count nextseq state.sender)
    (law : StartedLaw count nextseq base nextseq state.sender)
    (logged : ∀ transmission ∈ state.transmitted,
      ∃ number < nextseq, transmission.packet.sno = (number : Nat))
    (within : (nextseq : Int) ≤ base + state.sender.window)
    (genuine : ∃ transmission ∈ state.transmitted,
      packet.ackno = transmission.packet.sno)
    (defined : state.sender.receiveAck packet = some sender) :
    WindowSafe state.sender.window
        ⟨state, .ack packet, ⟨sender, state.transmitted⟩⟩ ∧
      WindowInv packets count state.sender.window
        ⟨sender, state.transmitted⟩ := by
  have bounded := sendable.bounded
  rcases genuine with ⟨transmission, member, acked⟩
  rcases logged transmission member with ⟨number, sent, sno⟩
  have total := law.total
  rcases inv.receiveAck sendable
      (show packet.ackno = ((⟨number, by omega⟩ : Fin 100) : Nat) by
        rw [acked, sno]) sent with
    ⟨next, call, later, _, grown, kept⟩
  rw [defined] at call
  cases call
  rw [law.counters] at grown kept
  have spoken := List.ne_nil_of_mem member
  cases later.law with
  | initial counters _ _ =>
      rw [counters] at grown
      simp only at grown
      omega
  | started base' nextseq' laterLaw =>
      have same := laterLaw.counters
      rw [same] at grown kept
      simp only at grown kept
      have nextEq : nextseq' = nextseq := by exact_mod_cast kept
      subst nextEq
      have baseLe : base ≤ base' := by exact_mod_cast grown
      have laterBound := laterLaw.baseBound
      constructor
      · constructor
        · intro _ absent
          cases absent
        · intro _
          rw [same]
          exact windowLaw_mk (by omega) (by omega) (by omega)
      · exact .started base' nextseq' later laterLaw logged spoken
          (by omega)

end Steps

/-! ## Runs -/

/-- The guard is decided by the counters a call finds. -/
instance (window : Int) (record : Record LoggedSender SenderEvent) :
    Decidable (WindowOpen window record) :=
  match record with
  | ⟨_, .call _, _⟩ => inferInstanceAs (Decidable (_ ∨ _))
  | ⟨_, .ack _, _⟩ => inferInstanceAs (Decidable True)

/-- `WindowInv` at the window the sender was started with. -/
structure GuardedInv (packets : Buffer) (count : Nat) (window : Int)
    (state : LoggedSender) : Prop where
  kept : state.sender.window = window
  inv : WindowInv packets count window state

section Invariant

variable
    {packets : Buffer} {count : Nat} (sendable : Sendable count packets)
    {window : Int} {current next : LoggedSender} {label : SenderEvent}

/-- No step changes the window of the sender. -/
theorem SenderStep.window_kept
    (move : SenderStep current label next) :
    next.sender.window = current.sender.window := by
  cases move with
  | call _ defined => exact Sender.send_window defined
  | ack _ _ defined => exact Sender.receiveAck_window defined

include sendable

/-- At a state of the invariant the guard decides window safety. -/
theorem GuardedInv.decides
    (positive : 0 < window)
    (guarded : GuardedInv packets count window current)
    (move : SenderStep current label next) :
    WindowSafe window ⟨current, label, next⟩ ↔
      WindowOpen window ⟨current, label, next⟩ := by
  rcases guarded with ⟨same, inv⟩
  subst same
  cases move with
  | @call sender sent running defined =>
      cases inv with
      | initial inv counters silent =>
          have safe := first_call_safe sendable inv counters silent
            positive running defined
          constructor
          · intro _
            left
            simp [counters]
          · intro _
            exact safe.1
      | started base nextseq inv law logged spoken within =>
          constructor
          · intro safe
            right
            by_contra full
            simp only [law.counters, not_lt] at full
            exact full_call_unsafe sendable inv law positive full
              running defined safe
          · intro room
            rcases room with first | room
            · simp only [law.counters] at first
              omega
            · simp only [law.counters] at room
              exact (open_call_safe sendable inv law logged spoken room
                running defined).1
  | @ack sender packet running genuine defined =>
      cases inv with
      | initial inv counters silent =>
          rcases genuine with ⟨transmission, member, _⟩
          rw [silent] at member
          cases member
      | started base nextseq inv law logged spoken within =>
          have safe := ack_safe sendable inv law logged within genuine
            defined
          constructor
          · intro _
            exact trivial
          · intro _
            exact safe.1

/-- A step with room in the window keeps the invariant. -/
theorem GuardedInv.step
    (positive : 0 < window)
    (guarded : GuardedInv packets count window current)
    (move : SenderStep current label next)
    (room : WindowOpen window ⟨current, label, next⟩) :
    GuardedInv packets count window next := by
  refine ⟨move.window_kept.trans guarded.kept, ?_⟩
  rcases guarded with ⟨same, inv⟩
  subst same
  cases move with
  | @call sender sent running defined =>
      cases inv with
      | initial inv counters silent =>
          exact (first_call_safe sendable inv counters silent positive
            running defined).2
      | started base nextseq inv law logged spoken within =>
          rcases room with first | room
          · simp only [law.counters] at first
            omega
          · simp only [law.counters] at room
            exact (open_call_safe sendable inv law logged spoken room
              running defined).2
  | @ack sender packet running genuine defined =>
      cases inv with
      | initial inv counters silent =>
          rcases genuine with ⟨transmission, member, _⟩
          rw [silent] at member
          cases member
      | started base nextseq inv law logged spoken within =>
          exact (ack_safe sendable inv law logged within genuine
            defined).2

end Invariant

/--
A run keeps every packet and both counters inside the window exactly if every
call finds the initial counters or a window with room left.
-/
theorem window_safe_iff
    (window : Int) (positive : 0 < window)
    (datato datafrom : Buffer) (file : List Byte)
    (peer : Peer)
    (started : Peer.start window datato datafrom file = some peer)
    (records : List (Record LoggedSender SenderEvent))
    (final : LoggedSender)
    (run : Run SenderStep ⟨peer.toSender, []⟩ records final) :
    (∀ record ∈ records, WindowSafe window record) ↔
      ∀ record ∈ records, WindowOpen window record := by
  rcases Peer.start_cases started with ⟨packets, prepared, side, _⟩
  have sendable := prepared.sendable (Peer.start_fits started)
  rw [side] at run
  have initial : GuardedInv packets (packetCount file) window
      ⟨⟨window, packets, ⟨-1, 0⟩, true⟩, []⟩ :=
    ⟨rfl, .initial (SenderInv.start sendable window) rfl rfl⟩
  exact
    (Run.forall_good_iff initial
      (fun _ _ _ inv move => inv.decides sendable positive move)
      (fun _ _ _ inv move room => inv.step sendable positive move room)
      run).1

/-! ## Computed runs -/

/-- A call, or the acknowledgement of a packet. -/
inductive SenderInput where
  | call
  | ack (packet : Pack)

/-- Perform one step, if it is possible. -/
def LoggedSender.perform (state : LoggedSender) :
    SenderInput → Option (SenderEvent × LoggedSender)
  | .call =>
      if state.sender.running then
        state.sender.send.map
          fun result =>
            (.call result.2,
              ⟨result.1, state.transmitted ++ result.2⟩)
      else
        none
  | .ack packet =>
      if state.sender.running ∧
          ∃ transmission ∈ state.transmitted,
            packet.ackno = transmission.packet.sno then
        (state.sender.receiveAck packet).map
          fun sender => (.ack packet, ⟨sender, state.transmitted⟩)
      else
        none

theorem LoggedSender.perform_sound
    (state : LoggedSender) (input : SenderInput) (event : SenderEvent)
    (next : LoggedSender)
    (performed : state.perform input = some (event, next)) :
    SenderStep state event next := by
  cases input with
  | call =>
      simp only [LoggedSender.perform] at performed
      split at performed
      · next running =>
          simp only [Option.map_eq_some_iff, Prod.mk.injEq] at performed
          rcases performed with ⟨⟨sender, sent⟩, defined, rfl, rfl⟩
          exact .call running defined
      · cases performed
  | ack packet =>
      simp only [LoggedSender.perform] at performed
      split at performed
      · next honest =>
          simp only [Option.map_eq_some_iff, Prod.mk.injEq] at performed
          rcases performed with ⟨sender, defined, rfl, rfl⟩
          exact .ack honest.1 honest.2 defined
      · cases performed

/-- A sender started on zeroed blocks, with the run of some inputs. -/
def performed (window : Int) (file : List Byte)
    (inputs : List SenderInput) :
    Option (Peer × List (Record LoggedSender SenderEvent) ×
      LoggedSender) :=
  match Peer.start window zeroed zeroed file with
  | none => none
  | some peer =>
      (execute LoggedSender.perform ⟨peer.toSender, []⟩ inputs).map
        fun result => (peer, result)

theorem performed_sound
    {window : Int} {file : List Byte} {inputs : List SenderInput}
    {peer : Peer} {records : List (Record LoggedSender SenderEvent)}
    {final : LoggedSender}
    (computed : performed window file inputs =
      some (peer, records, final)) :
    Peer.start window zeroed zeroed file = some peer ∧
      Run SenderStep ⟨peer.toSender, []⟩ records final := by
  unfold performed at computed
  split at computed
  · cases computed
  · next peer started =>
      simp only [Option.map_eq_some_iff, Prod.mk.injEq] at computed
      rcases computed with ⟨result, ran, rfl, rfl⟩
      exact ⟨started, execute_run LoggedSender.perform_sound ran⟩

/-- Two calls with the acknowledgement of packet 0 between them. -/
def acknowledgedCalls : List SenderInput :=
  [.call, .ack ⟨-1, 0, zeroPayload⟩, .call]

/-- With that acknowledgement both calls stay inside window 1. -/
theorem window_safe_acked_calls :
    ∃ peer records final,
      performed 1 [104, 105] acknowledgedCalls = some (peer, records, final) ∧
        ∀ record ∈ records, WindowSafe 1 record := by
  rcases Option.isSome_iff_exists.mp
      (show (performed 1 [104, 105] acknowledgedCalls).isSome = true by decide) with
    ⟨⟨peer, records, final⟩, computed⟩
  have guarded :
      (performed 1 [104, 105] acknowledgedCalls).map
        (fun result =>
          result.2.1.all fun record => decide (WindowOpen 1 record)) =
        some true := by
    decide
  simp only [computed, Option.map_some, Option.some.injEq,
    List.all_eq_true, decide_eq_true_eq] at guarded
  rcases performed_sound computed with ⟨started, run⟩
  exact
    ⟨peer, records, final, computed,
      (window_safe_iff 1 (by decide) zeroed zeroed [104, 105] peer
        started records final run).mpr guarded⟩

/--
With window 1 the second call finds packet 0 outstanding and sends packet 1
while the base is still 0.
-/
theorem second_call_leaves_window :
    ¬ ∀ (window : Int) (datato datafrom : Buffer) (file : List Byte)
        (peer : Peer)
        (records : List (Record LoggedSender SenderEvent))
        (final : LoggedSender),
        0 < window → packetCount file ≤ 99 →
        Peer.start window datato datafrom file = some peer →
        Run SenderStep ⟨peer.toSender, []⟩ records final →
          ∀ record ∈ records, WindowSafe window record := by
  intro claim
  rcases Option.isSome_iff_exists.mp
      (show (performed 1 [104, 105] [.call, .call]).isSome = true by decide) with
    ⟨⟨peer, records, final⟩, computed⟩
  have outside :
      (performed 1 [104, 105] [.call, .call]).map
        (fun result =>
          result.2.1.any fun record =>
            record.label.sent.any fun transmission =>
              decide (max transmission.counters.base 0 + 1 ≤
                transmission.packet.sno)) =
        some true := by
    decide
  simp only [computed, Option.map_some, Option.some.injEq,
    List.any_eq_true, decide_eq_true_eq] at outside
  rcases outside with ⟨record, recorded, transmission, sent, beyond⟩
  rcases performed_sound computed with ⟨started, run⟩
  have safe := claim 1 zeroed zeroed [104, 105] peer records final
    (by decide) (by decide) started run record recorded
  have upper := (safe.1 transmission sent).2.2
  omega

end NetworkingLab.SelectiveRepeat
