import Mathlib.Data.List.Sort
import Mathlib.Logic.Function.Basic
import NetworkingLab.Foundation.Machines

/-!
# The event scheduler of the simulator

`Scheduler` keeps the virtual clock and hands out the numbers of the events;
the queue itself is left to its subclasses, which override `insert`, `cancel`,
`lookup`, `deque` and `head`.  A `Discipline` is such a set of overrides, and
everything here is written once for all of them, as the virtual calls are.

Handlers are arbitrary code.  What they can do with the scheduler is a `Call`,
and so is one round of the loop in `run`; a simulation is a list of calls in
any order.  `listScheduler` is the plainest discipline, a linked list in the
order of dispatch.

Times are taken from any linear order with an addition; a NaN, which is not
ordered, is left out.
-/

namespace NetworkingLab.Simulator

open NetworkingLab.Foundation.Machines

/-- `class Event`, without the links that belong to a queue. -/
structure Event (Time Handler : Type*) where
  handler : Option Handler
  time : Time
  uid : Int

/-- The events, at their addresses. -/
abbrev Memory (Address Time Handler : Type*) :=
  Address → Event Time Handler

/-- The ways a scheduler calls `abort`. -/
inductive Abort where
  | nullHandler
  | invalidUid
  | uidsExhausted
  | backwards
  | notInQueue
  deriving DecidableEq

/-- What a subclass of `Scheduler` overrides. -/
structure Discipline (Address Time Handler Queue : Type*) where
  empty : Queue
  insert : Memory Address Time Handler → Address → Queue → Queue
  cancel : Memory Address Time Handler → Address → Queue →
    Except Abort (Memory Address Time Handler × Queue)
  lookup : Memory Address Time Handler → Int → Queue →
    Option Address × Queue
  deque : Queue → Option Address × Queue
  head : Queue → Option Address

/-- `class Scheduler` with the queue of a discipline. -/
structure Scheduler (Address Time Handler Queue : Type*) where
  clock : Time
  halted : Bool
  uid : Int
  events : Memory Address Time Handler
  queue : Queue

/-- The largest `scheduler_uid_t`. -/
def uidMax : Int := 9223372036854775807

/--
`uid_++`.  Behind the largest number comes the least one, which the test
`uid_ < 0` of the next call is there to find.
-/
def nextUid (uid : Int) : Int :=
  if uid = uidMax then -uidMax - 1 else uid + 1

/-- The next number is one more, or there are none left. -/
theorem nextUid_cases (uid : Int) :
    nextUid uid = uid + 1 ∨ nextUid uid < 0 := by
  by_cases last : uid = uidMax
  · right
    rw [nextUid, if_pos last]
    decide
  · left
    rw [nextUid, if_neg last]

/-- `e->uid_ = -e->uid_`: the event is no longer in the queue. -/
def Event.retire {Time Handler : Type*}
    (event : Event Time Handler) : Event Time Handler :=
  { event with uid := -event.uid }

variable
    {Address Time Handler Queue : Type*} [DecidableEq Address]

/-- An event with what it was scheduled for. -/
structure Booking (Address Time Handler : Type*) where
  event : Address
  handler : Option Handler
  time : Time
  uid : Int

/-- The event at an address, as it is booked. -/
def booking (events : Memory Address Time Handler) (e : Address) :
    Booking Address Time Handler :=
  ⟨e, (events e).handler, (events e).time, (events e).uid⟩

/-- What can be seen of a call from outside. -/
inductive Reply (Address Time Handler : Type*) where
  | scheduled (event : Booking Address Time Handler)
  | cancelled (event : Option (Booking Address Time Handler))
  | found (event : Option Address)
  | dispatched (event : Booking Address Time Handler)
  | done

/-- What the code around a scheduler does with it. -/
inductive Call (Address Time Handler : Type*) where
  | schedule (handler : Option Handler) (event : Address) (delay : Time)
  | cancel (event : Address)
  | lookup (uid : Int)
  | head
  | halt
  | resume
  | construct (event : Address)
  | turn

namespace Scheduler

section Base

variable
    [LinearOrder Time] [Zero Time] [Add Time]
    (discipline : Discipline Address Time Handler Queue)

/-- `Event()` leaves no time and no number. -/
def constructed : Event Time Handler :=
  ⟨none, 0, 0⟩

/-- A scheduler before its first call; `SCHED_START` is 0. -/
def start : Scheduler Address Time Handler Queue :=
  ⟨0, false, 1, fun _ => constructed, discipline.empty⟩

/-- `schedule`.  A negative delay only prints a warning. -/
def schedule
    (handler : Option Handler) (e : Address) (delay : Time)
    (scheduler : Scheduler Address Time Handler Queue) :
    Except Abort (Scheduler Address Time Handler Queue) :=
  match handler with
  | none => .error .nullHandler
  | some h =>
      if 0 < (scheduler.events e).uid then
        .error .invalidUid
      else if scheduler.uid < 0 then
        .error .uidsExhausted
      else
        let events := Function.update scheduler.events e
          ⟨some h, scheduler.clock + delay, scheduler.uid⟩
        .ok
          { scheduler with
            uid := nextUid scheduler.uid
            events := events
            queue := discipline.insert events e scheduler.queue }

/-- `dispatch(p, p->time_)`, up to the call of the handler. -/
def dispatch (p : Address)
    (scheduler : Scheduler Address Time Handler Queue) :
    Except Abort (Scheduler Address Time Handler Queue) :=
  if (scheduler.events p).time < scheduler.clock then
    .error .backwards
  else
    .ok
      { scheduler with
        clock := (scheduler.events p).time
        events := Function.update scheduler.events p
          (scheduler.events p).retire }

/-- One round of `while (!halted_ && (p = deque()))`. -/
def turn (scheduler : Scheduler Address Time Handler Queue) :
    Except Abort
      (Reply Address Time Handler ×
        Scheduler Address Time Handler Queue) :=
  if scheduler.halted then
    .ok (.done, scheduler)
  else
    match discipline.deque scheduler.queue with
    | (none, queue) => .ok (.done, { scheduler with queue := queue })
    | (some p, queue) =>
        (dispatch p { scheduler with queue := queue }).map fun next =>
          (.dispatched (booking scheduler.events p), next)

/--
One call.  The memory of an event that is in the queue is in use, so no other
event is constructed there.
-/
def perform : Machine (Scheduler Address Time Handler Queue)
    (Call Address Time Handler) (Reply Address Time Handler) Abort
  | scheduler, .schedule handler e delay =>
      (schedule discipline handler e delay scheduler).map fun next =>
        (.scheduled (booking next.events e), next)
  | scheduler, .cancel e =>
      (discipline.cancel scheduler.events e scheduler.queue).map
        fun result =>
          (.cancelled
              (if 0 < (scheduler.events e).uid then
                some (booking scheduler.events e)
              else
                none),
            { scheduler with events := result.1, queue := result.2 })
  | scheduler, .lookup uid =>
      let result := discipline.lookup scheduler.events uid scheduler.queue
      .ok (.found result.1, { scheduler with queue := result.2 })
  | scheduler, .head =>
      .ok (.found (discipline.head scheduler.queue), scheduler)
  | scheduler, .halt => .ok (.done, { scheduler with halted := true })
  | scheduler, .resume => .ok (.done, { scheduler with halted := false })
  | scheduler, .construct e =>
      if 0 < (scheduler.events e).uid then
        .ok (.done, scheduler)
      else
        .ok (.done,
          { scheduler with
            events := Function.update scheduler.events e constructed })
  | scheduler, .turn => turn discipline scheduler

end Base

end Scheduler

/-! ## `ListScheduler` -/

namespace ListScheduler

variable [LinearOrder Time]

/-- `insert`: in front of the first event with a later time. -/
def insert (events : Memory Address Time Handler) (e : Address) :
    List Address → List Address
  | [] => [e]
  | p :: rest =>
      if (events e).time < (events p).time then
        e :: p :: rest
      else
        p :: insert events e rest

/-- The loop of `cancel`; it aborts at the end of the list. -/
def remove (e : Address) : List Address → Option (List Address)
  | [] => none
  | p :: rest =>
      if p = e then
        some rest
      else
        (remove e rest).map fun others => p :: others

/-- `cancel`. -/
def cancel (events : Memory Address Time Handler) (e : Address)
    (queue : List Address) :
    Except Abort (Memory Address Time Handler × List Address) :=
  if (events e).uid ≤ 0 then
    .ok (events, queue)
  else
    match remove e queue with
    | none => .error .notInQueue
    | some rest => .ok (Function.update events e (events e).retire, rest)

/-- `lookup`. -/
def lookup (events : Memory Address Time Handler) (uid : Int)
    (queue : List Address) : Option Address × List Address :=
  (queue.find? fun e => (events e).uid = uid, queue)

/-- `deque`. -/
def deque : List Address → Option Address × List Address
  | [] => (none, [])
  | e :: rest => (some e, rest)

end ListScheduler

/-- `class ListScheduler`. -/
def listScheduler [LinearOrder Time] :
    Discipline Address Time Handler (List Address) where
  empty := []
  insert := ListScheduler.insert
  cancel := ListScheduler.cancel
  lookup := ListScheduler.lookup
  deque := ListScheduler.deque
  head := List.head?

end NetworkingLab.Simulator
