import Mathlib.Algebra.Order.Group.Multiset
import Mathlib.Tactic.Abel
import NetworkingLab.Simulator.EventOrder

/-!
# What a simulation dispatches

Two properties of whole simulations with a list scheduler, for every list of
calls in every order.

`dispatch_in_order`: when no delay is negative, the clock never has to go back
and events are dispatched in strictly increasing order of time and number.
Events of one time are dispatched in the order in which they were scheduled,
also those that a handler schedules for the present moment.

`every_event_accounted`: no event is lost, and none is dispatched twice or
after it was cancelled.  The events scheduled are those dispatched, those
cancelled and those still queued, with the time and the handler they were
scheduled for.
-/

namespace NetworkingLab.Simulator

open NetworkingLab.Foundation.Machines

variable {Address Time Handler Queue : Type*} [LinearOrder Time]

/-! ## The log of a simulation -/

/-- The answers of one scheduler, up to the first abort. -/
abbrev Log (Address Time Handler : Type*) :=
  List (Except Abort (Reply Address Time Handler))

/-- The events scheduled by an answer. -/
def Reply.scheduledEvents :
    Reply Address Time Handler → List (Booking Address Time Handler)
  | .scheduled event => [event]
  | _ => []

/-- The events taken out by an answer. -/
def Reply.cancelledEvents :
    Reply Address Time Handler → List (Booking Address Time Handler)
  | .cancelled (some event) => [event]
  | _ => []

/-- The events dispatched by an answer. -/
def Reply.dispatchedEvents :
    Reply Address Time Handler → List (Booking Address Time Handler)
  | .dispatched event => [event]
  | _ => []

/-- Collect events from the answers of a log. -/
def Log.collect
    (select : Reply Address Time Handler →
      List (Booking Address Time Handler))
    (log : Log Address Time Handler) :
    List (Booking Address Time Handler) :=
  log.flatMap fun answer =>
    match answer with
    | .ok reply => select reply
    | .error _ => []

def Log.scheduled (log : Log Address Time Handler) :
    List (Booking Address Time Handler) :=
  Log.collect Reply.scheduledEvents log

def Log.cancelled (log : Log Address Time Handler) :
    List (Booking Address Time Handler) :=
  Log.collect Reply.cancelledEvents log

def Log.dispatched (log : Log Address Time Handler) :
    List (Booking Address Time Handler) :=
  Log.collect Reply.dispatchedEvents log

/-- A whole simulation with one discipline. -/
def simulate [DecidableEq Address] [Zero Time] [Add Time]
    (discipline : Discipline Address Time Handler Queue)
    (calls : List (Call Address Time Handler)) :
    Log Address Time Handler :=
  answers (Scheduler.perform discipline) (Scheduler.start discipline) calls

/-- The scheduler behind the last call, if nothing aborted. -/
def simulated [DecidableEq Address] [Zero Time] [Add Time]
    (discipline : Discipline Address Time Handler Queue)
    (calls : List (Call Address Time Handler)) :
    Option (Scheduler Address Time Handler Queue) :=
  after (Scheduler.perform discipline) (Scheduler.start discipline) calls

/-- The queue with what each event is booked for. -/
def Scheduler.bookings (scheduler : ListState Address Time Handler) :
    List (Booking Address Time Handler) :=
  scheduler.queue.map (booking scheduler.events)

/-- A booking is ordered as its event. -/
def Booking.stamp (booked : Booking Address Time Handler) : Time ×ₗ Int :=
  toLex (booked.time, booked.uid)

theorem Event.time_le_of_stamp_lt
    {first second : Event Time Handler}
    (before : first.stamp < second.stamp) : first.time ≤ second.time := by
  rcases Prod.Lex.toLex_lt_toLex.mp before with earlier | ⟨same, _⟩
  · exact earlier.le
  · exact same.le

/-! ## Order -/

/-- A call that schedules nothing for the past. -/
def Call.Forward [Zero Time] : Call Address Time Handler → Prop
  | .schedule _ _ delay => 0 ≤ delay
  | _ => True

/-- No queued event lies behind the clock. -/
def Due (scheduler : ListState Address Time Handler) : Prop :=
  ∀ e ∈ scheduler.queue, scheduler.clock ≤ (scheduler.events e).time

/-- Everything that can still be dispatched comes behind `mark`. -/
structure Behind (mark : Event Time Handler)
    (scheduler : ListState Address Time Handler) : Prop where
  queued : ∀ e ∈ scheduler.queue,
    mark.stamp < (scheduler.events e).stamp
  past : mark.time ≤ scheduler.clock
  numbered : 0 < scheduler.uid → mark.uid < scheduler.uid

section Order

variable
    [DecidableEq Address] [Zero Time] [Add Time]
    {scheduler next : ListState Address Time Handler}
    {call : Call Address Time Handler}
    {reply : Reply Address Time Handler}

/-- Step lemma: with delays that are not negative nothing falls behind. -/
theorem Due.step
    (forward : ∀ time delay : Time, 0 ≤ delay → time ≤ time + delay)
    (due : Due scheduler) (inv : QueueInv scheduler)
    (onward : call.Forward)
    (step : ListStep scheduler call reply next) : Due next := by
  cases step with
  | scheduled handler e delay free left events written =>
      subst written
      intro other member
      rcases ListScheduler.mem_insert.mp member with rfl | old
      · simp only [Function.update_self]
        exact forward _ _ onward
      · simp only [QueueInv.update_of_mem free old]
        exact due other old
  | cancelled e queued =>
      intro other member
      have kept := inv.ordered.nodup.mem_erase_iff.mp member
      simp only [Function.update_of_ne kept.1]
      exact due other kept.2
  | notQueued => exact due
  | looked => exact due
  | switched => exact due
  | constructed e free =>
      intro other member
      simp only [QueueInv.update_of_mem free member]
      exact due other member
  | dispatched p rest first reached =>
      have ordered := inv.ordered
      rw [first] at ordered
      have front := List.pairwise_cons.mp ordered
      intro other member
      have before := front.1 other member
      have different : other ≠ p := by
        rintro rfl
        exact lt_irrefl _ before
      simp only [Function.update_of_ne different]
      exact Event.time_le_of_stamp_lt before

/-- Step lemma: what was behind `mark` stays there. -/
theorem Behind.step
    (forward : ∀ time delay : Time, 0 ≤ delay → time ≤ time + delay)
    {mark : Event Time Handler}
    (behind : Behind mark scheduler) (inv : QueueInv scheduler)
    (onward : call.Forward)
    (step : ListStep scheduler call reply next) : Behind mark next := by
  cases step with
  | scheduled handler e delay free left events written =>
      subst written
      refine ⟨?_, behind.past, ?_⟩
      · intro other member
        rcases ListScheduler.mem_insert.mp member with rfl | old
        · simp only [Function.update_self]
          exact Event.stamp_lt_of_uid
            (behind.past.trans (forward _ _ onward))
            (behind.numbered left)
        · simp only [QueueInv.update_of_mem free old]
          exact behind.queued other old
      · intro more
        have below := behind.numbered left
        simp only at more ⊢
        rcases nextUid_cases scheduler.uid with next | none <;> omega
  | cancelled e queued =>
      refine ⟨?_, behind.past, behind.numbered⟩
      intro other member
      have kept := inv.ordered.nodup.mem_erase_iff.mp member
      simp only [Function.update_of_ne kept.1]
      exact behind.queued other kept.2
  | notQueued => exact behind
  | looked => exact behind
  | switched => exact ⟨behind.queued, behind.past, behind.numbered⟩
  | constructed e free =>
      refine ⟨?_, behind.past, behind.numbered⟩
      intro other member
      simp only [QueueInv.update_of_mem free member]
      exact behind.queued other member
  | dispatched p rest first reached =>
      have front := behind.queued p (by simp [first])
      have nodup := inv.ordered.nodup
      rw [first] at nodup
      refine ⟨?_, Event.time_le_of_stamp_lt front, behind.numbered⟩
      intro other member
      have different : other ≠ p := by
        rintro rfl
        exact (List.nodup_cons.mp nodup).1 member
      simp only [Function.update_of_ne different]
      exact behind.queued other (by simp [first, member])

/-- What is dispatched comes first: everything else lies behind it. -/
theorem Behind.of_dispatched
    (inv : QueueInv scheduler)
    {booked : Booking Address Time Handler}
    (step : ListStep scheduler call (.dispatched booked) next) :
    ∃ mark : Event Time Handler,
      mark.stamp = booked.stamp ∧ Behind mark next ∧
        ∃ p ∈ scheduler.queue, mark = scheduler.events p := by
  cases step with
  | dispatched p rest first reached =>
      have ordered := inv.ordered
      rw [first] at ordered
      have front := List.pairwise_cons.mp ordered
      refine ⟨scheduler.events p, rfl, ⟨?_, le_refl _, ?_⟩,
        p, by simp [first], rfl⟩
      · intro other member
        have before := front.1 other member
        have different : other ≠ p := by
          rintro rfl
          exact lt_irrefl _ before
        simp only [Function.update_of_ne different]
        exact before
      · intro left
        exact inv.fresh left p

/-- Two events, the first of which is dispatched first. -/
def Sooner (first second : Booking Address Time Handler) : Prop :=
  first.stamp < second.stamp

omit [LinearOrder Time] [DecidableEq Address] [Zero Time] [Add Time] in
theorem Log.collect_refused
    (select : Reply Address Time Handler →
      List (Booking Address Time Handler)) (abort : Abort) :
    Log.collect select [.error abort] = [] :=
  rfl

omit [LinearOrder Time] [DecidableEq Address] [Zero Time] [Add Time] in
theorem Log.collect_answered
    (select : Reply Address Time Handler →
      List (Booking Address Time Handler))
    (reply : Reply Address Time Handler) (log : Log Address Time Handler) :
    Log.collect select (.ok reply :: log) =
      select reply ++ Log.collect select log :=
  List.flatMap_cons

/-- An abort that only a wrong call can cause. -/
def Abort.Misuse (abort : Abort) : Prop :=
  abort = .nullHandler ∨ abort = .invalidUid ∨ abort = .uidsExhausted

/--
From every state of the invariants: only misuse aborts, the dispatched events
come in order, and they all lie behind what was behind them before.
-/
theorem QueueInv.answers_in_order
    (forward : ∀ time delay : Time, 0 ≤ delay → time ≤ time + delay)
    (inv : QueueInv scheduler) (due : Due scheduler)
    (calls : List (Call Address Time Handler))
    (delays : ∀ call ∈ calls, call.Forward) :
    (∀ abort, .error abort ∈ answers listPerform scheduler calls →
        abort.Misuse) ∧
      (Log.dispatched (answers listPerform scheduler calls)).Pairwise
        Sooner ∧
      ∀ mark : Event Time Handler, Behind mark scheduler →
        ∀ booked ∈ Log.dispatched (answers listPerform scheduler calls),
          mark.stamp < booked.stamp := by
  induction calls generalizing scheduler with
  | nil => simp [answers, Log.dispatched, Log.collect]
  | cons call calls induction =>
      have outcome := inv.perform_cases call
      generalize taken : listPerform scheduler call = result at outcome
      cases outcome with
      | misused which =>
          rw [answers_refused taken, Log.dispatched, Log.collect_refused]
          simpa [Abort.Misuse] using which
      | backwards p queued past =>
          exact absurd past (not_lt.mpr (due p queued))
      | @answered reply next step =>
          have onward := delays call List.mem_cons_self
          rcases induction (inv.step step) (due.step forward inv onward step)
              (fun later member =>
                delays later (List.mem_cons_of_mem _ member)) with
            ⟨misuse, ordered, beyond⟩
          rw [answers_answered taken, Log.dispatched,
            Log.collect_answered]
          refine ⟨?_, ?_, ?_⟩
          · intro abort member
            rcases List.mem_cons.mp member with same | later
            · cases same
            · exact misuse abort later
          · cases reply with
            | dispatched booked =>
                rcases Behind.of_dispatched inv step with
                  ⟨mark, same, behind, _⟩
                apply List.pairwise_cons.mpr ⟨?_, ordered⟩
                intro later member
                have := beyond mark behind later member
                rwa [same] at this
            | scheduled => exact ordered
            | cancelled => exact ordered
            | found => exact ordered
            | done => exact ordered
          · intro mark behind
            have kept := behind.step forward inv onward step
            intro booked member
            rcases List.mem_append.mp member with here | later
            · cases reply with
              | dispatched event =>
                  rw [Reply.dispatchedEvents, List.mem_singleton] at here
                  subst here
                  rcases Behind.of_dispatched inv step with
                    ⟨_, same, _, p, queued, rfl⟩
                  rw [← same]
                  exact behind.queued p queued
              | scheduled => cases here
              | cancelled => cases here
              | found => cases here
              | done => cases here
            · exact beyond mark kept booked later

/--
When no delay is negative, a simulation never goes back in time and never
looks for an event that is not queued, and it dispatches its events in
strictly increasing order of time and number.
-/
theorem dispatch_in_order
    (forward : ∀ time delay : Time, 0 ≤ delay → time ≤ time + delay)
    (calls : List (Call Address Time Handler))
    (delays : ∀ call ∈ calls, call.Forward) :
    (∀ abort, .error abort ∈ simulate listScheduler calls →
        abort ≠ .backwards ∧ abort ≠ .notInQueue) ∧
      (Log.dispatched (simulate listScheduler calls)).Pairwise
        Sooner := by
  have due : Due (Scheduler.start (listScheduler :
      Discipline Address Time Handler (List Address))) := by
    simp [Due, Scheduler.start, listScheduler]
  rcases QueueInv.start.answers_in_order forward due calls delays with
    ⟨misuse, ordered, _⟩
  refine ⟨?_, ordered⟩
  intro abort member
  rcases misuse abort member with rfl | rfl | rfl <;> decide

/-- Three events, two of them for one moment; one of these is cancelled. -/
def threeEvents : List (Call Nat Int Unit) :=
  [.schedule (some ()) 0 5, .schedule (some ()) 1 5,
    .schedule (some ()) 2 3, .turn, .cancel 0, .schedule (some ()) 0 2,
    .turn, .turn, .turn]

theorem dispatch_in_order_threeEvents :
    (Log.dispatched (simulate listScheduler threeEvents)).map
        Booking.event = [2, 1, 0] ∧
      (Log.dispatched (simulate listScheduler threeEvents)).Pairwise
        Sooner :=
  ⟨by decide,
    (dispatch_in_order (fun time delay _ => by omega) threeEvents
      (by simp [threeEvents, Call.Forward])).2⟩

end Order

/-! ## Conservation -/

section Conservation

variable
    [DecidableEq Address] [Zero Time] [Add Time]
    {scheduler next : ListState Address Time Handler}
    {call : Call Address Time Handler}
    {reply : Reply Address Time Handler}

/-- What is booked before a call and by it, is taken out by it or stays. -/
theorem ListStep.accounted
    (inv : QueueInv scheduler)
    (step : ListStep scheduler call reply next) :
    (scheduler.bookings ++ reply.scheduledEvents).Perm
      (reply.dispatchedEvents ++ reply.cancelledEvents ++
        next.bookings) := by
  have unchanged : ∀ {e : Address} {event : Event Time Handler}
      {queue : List Address}, e ∉ queue →
        queue.map (booking (Function.update scheduler.events e event)) =
          queue.map (booking scheduler.events) := by
    intro e event queue free
    apply List.map_congr_left
    intro other queued
    simp only [booking, QueueInv.update_of_mem free queued]
  cases step with
  | scheduled handler e delay free left events written =>
      subst written
      have inserted := (ListScheduler.insert_perm
        (Function.update scheduler.events e
          ⟨some handler, scheduler.clock + delay, scheduler.uid⟩) e
        scheduler.queue).map
          (booking (Function.update scheduler.events e
            ⟨some handler, scheduler.clock + delay, scheduler.uid⟩))
      rw [List.map_cons, unchanged free] at inserted
      exact (List.perm_append_singleton _ _).trans inserted.symm
  | cancelled e queued =>
      have gone : e ∉ scheduler.queue.erase e :=
        inv.ordered.nodup.not_mem_erase
      have split := (List.perm_cons_erase queued).map
        (booking scheduler.events)
      simp only [Scheduler.bookings, Reply.scheduledEvents,
        Reply.dispatchedEvents, Reply.cancelledEvents, List.append_nil,
        List.nil_append, List.singleton_append, unchanged gone]
      exact split
  | notQueued => simp [Reply.scheduledEvents, Reply.dispatchedEvents,
      Reply.cancelledEvents]
  | looked => simp [Reply.scheduledEvents, Reply.dispatchedEvents,
      Reply.cancelledEvents]
  | switched => simp [Reply.scheduledEvents, Reply.dispatchedEvents,
      Reply.cancelledEvents, Scheduler.bookings]
  | constructed e free => simp [Reply.scheduledEvents,
      Reply.dispatchedEvents, Reply.cancelledEvents,
      Scheduler.bookings, unchanged free]
  | dispatched p rest first reached =>
      have nodup := inv.ordered.nodup
      rw [first] at nodup
      have gone := (List.nodup_cons.mp nodup).1
      simp [Reply.scheduledEvents, Reply.dispatchedEvents,
        Reply.cancelledEvents, Scheduler.bookings, first,
        unchanged gone]

theorem QueueInv.accounted
    (inv : QueueInv scheduler) (calls : List (Call Address Time Handler))
    {final : ListState Address Time Handler}
    (ran : after listPerform scheduler calls = some final) :
    (scheduler.bookings ++
        Log.scheduled (answers listPerform scheduler calls)).Perm
      (Log.dispatched (answers listPerform scheduler calls) ++
        Log.cancelled (answers listPerform scheduler calls) ++
        final.bookings) := by
  induction calls generalizing scheduler with
  | nil =>
      cases ran
      simp [answers, Log.scheduled, Log.dispatched, Log.cancelled,
        Log.collect]
  | cons call calls induction =>
      have outcome := inv.perform_cases call
      generalize taken : listPerform scheduler call = result at outcome
      cases outcome with
      | misused =>
          rw [after_refused taken] at ran
          cases ran
      | backwards =>
          rw [after_refused taken] at ran
          cases ran
      | @answered reply next step =>
          rw [after_answered taken] at ran
          have first := Multiset.coe_eq_coe.mpr (step.accounted inv)
          have rest := Multiset.coe_eq_coe.mpr
            (induction (inv.step step) ran)
          simp only [answers_answered taken, Log.scheduled,
            Log.dispatched, Log.cancelled, Log.collect_answered]
            at rest ⊢
          apply Multiset.coe_eq_coe.mp
          simp only [← Multiset.coe_add] at first rest ⊢
          rw [← add_assoc, first, add_assoc, rest]
          abel

/-- The numbers handed out grow, from the next number on. -/
theorem QueueInv.numbers_grow
    (inv : QueueInv scheduler) (calls : List (Call Address Time Handler)) :
    (Log.scheduled (answers listPerform scheduler calls)).Pairwise
        (fun first second => first.uid < second.uid) ∧
      ∀ booked ∈ Log.scheduled (answers listPerform scheduler calls),
        0 < scheduler.uid ∧ scheduler.uid ≤ booked.uid := by
  induction calls generalizing scheduler with
  | nil => simp [answers, Log.scheduled, Log.collect]
  | cons call calls induction =>
      have outcome := inv.perform_cases call
      generalize taken : listPerform scheduler call = result at outcome
      cases outcome with
      | misused =>
          rw [answers_refused taken, Log.scheduled, Log.collect_refused]
          simp
      | backwards =>
          rw [answers_refused taken, Log.scheduled, Log.collect_refused]
          simp
      | @answered reply next step =>
          have later := induction (inv.step step)
          rw [answers_answered taken, Log.scheduled, Log.collect_answered]
          cases step with
          | scheduled handler e delay free left events written =>
              subst written
              have number : (booking (Function.update scheduler.events e
                  ⟨some handler, scheduler.clock + delay, scheduler.uid⟩)
                    e).uid = scheduler.uid := by
                simp [booking]
              have above : ∀ number : Int,
                  0 < nextUid scheduler.uid ∧
                    nextUid scheduler.uid ≤ number →
                  scheduler.uid < number := by
                intro number bound
                rcases nextUid_cases scheduler.uid with next | none <;>
                  omega
              refine ⟨List.pairwise_cons.mpr ⟨?_, later.1⟩, ?_⟩
              · intro booked member
                rw [number]
                exact above booked.uid (later.2 booked member)
              · intro booked member
                rcases List.mem_cons.mp member with rfl | old
                · exact ⟨left, number.ge⟩
                · exact ⟨left, (above booked.uid (later.2 booked old)).le⟩
          | cancelled => exact later
          | notQueued => exact later
          | looked => exact later
          | switched => exact later
          | constructed => exact later
          | dispatched => exact later

/--
No event is lost, and none is dispatched twice or after it was cancelled: in
every simulation that does not abort, the events scheduled are those
dispatched, those cancelled and those still queued, with their numbers, times
and handlers, and no number is given twice.
-/
theorem every_event_accounted
    (calls : List (Call Address Time Handler))
    (final : ListState Address Time Handler)
    (ran : simulated listScheduler calls = some final) :
    (Log.scheduled (simulate listScheduler calls)).Perm
        (Log.dispatched (simulate listScheduler calls) ++
          Log.cancelled (simulate listScheduler calls) ++
          final.bookings) ∧
      (Log.scheduled (simulate listScheduler calls)).Pairwise
        fun first second => first.uid < second.uid := by
  have accounted := QueueInv.start.accounted calls ran
  have empty : (Scheduler.start (listScheduler :
      Discipline Address Time Handler (List Address))).bookings = [] :=
    rfl
  rw [empty, List.nil_append] at accounted
  exact ⟨accounted, (QueueInv.start.numbers_grow calls).1⟩

theorem every_event_accounted_threeEvents :
    ∃ final, simulated listScheduler threeEvents = some final ∧
      (Log.scheduled (simulate listScheduler threeEvents)).Perm
        (Log.dispatched (simulate listScheduler threeEvents) ++
          Log.cancelled (simulate listScheduler threeEvents) ++
          final.bookings) := by
  rcases Option.isSome_iff_exists.mp
      (show (simulated listScheduler threeEvents).isSome = true by decide)
    with ⟨final, ran⟩
  exact ⟨final, ran, (every_event_accounted threeEvents final ran).1⟩

end Conservation

end NetworkingLab.Simulator
