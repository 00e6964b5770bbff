import NetworkingLab.Simulator.Dispatch

/-!
# Timers on the scheduler

`TimerHandler` is the base of the simulator's timers.  It keeps a status beside
the event it schedules, and the status decides what it does: `sched` and
`cancel` abort in the wrong one, and `handle` checks it when the event is
dispatched.

Nothing but the status is checked, so it has to agree with the queue of the
scheduler.  It does (`TimerInv`): the timer is pending exactly while its event
is queued.  What other code does with the scheduler in between is arbitrary,
except that the event and the handler of the timer are its own (`Foreign`).
-/

namespace NetworkingLab.Simulator

open NetworkingLab.Foundation.Machines

/-- `TimerStatus`. -/
inductive TimerStatus where
  | idle
  | pending
  | handling
  deriving DecidableEq

/-- The ways a timer aborts. -/
inductive TimerAbort where
  | scheduler (abort : Abort)
  | notScheduled
  | alreadySet
  | notPending
  deriving DecidableEq

/-- A timer and the scheduler it works on. -/
structure TimerHandler (Address Time Handler : Type*) where
  status : TimerStatus
  scheduler : ListState Address Time Handler

namespace TimerHandler

variable
    {Address Time Handler Client : Type*} [DecidableEq Address]
    [LinearOrder Time] [Zero Time] [Add Time]

/-- `TimerHandler()`. -/
def start : TimerHandler Address Time Handler :=
  ⟨.idle, Scheduler.start listScheduler⟩

/-- One call of the scheduler, after which the timer has a status. -/
def perform (call : Call Address Time Handler) (status : TimerStatus)
    (timer : TimerHandler Address Time Handler) :
    Except TimerAbort (TimerHandler Address Time Handler) :=
  match listPerform timer.scheduler call with
  | .error abort => .error (.scheduler abort)
  | .ok (_, next) => .ok ⟨status, next⟩

variable (this : Handler) (event : Address)

/-- `cancel`. -/
def cancel (timer : TimerHandler Address Time Handler) :
    Except TimerAbort (TimerHandler Address Time Handler) :=
  if timer.status ≠ .pending then
    .error .notScheduled
  else
    timer.perform (.cancel event) .idle

/-- `sched`. -/
def sched (delay : Time) (timer : TimerHandler Address Time Handler) :
    Except TimerAbort (TimerHandler Address Time Handler) :=
  if timer.status ≠ .idle then
    .error .alreadySet
  else
    timer.perform (.schedule (some this) event delay) .pending

/-- `force_cancel`. -/
def forceCancel (timer : TimerHandler Address Time Handler) :
    Except TimerAbort (TimerHandler Address Time Handler) :=
  if timer.status = .pending then
    timer.perform (.cancel event) .idle
  else
    .ok timer

/-- `resched`. -/
def resched (delay : Time) (timer : TimerHandler Address Time Handler) :
    Except TimerAbort (TimerHandler Address Time Handler) :=
  if timer.status = .pending then
    match timer.perform (.cancel event) .pending with
    | .error abort => .error abort
    | .ok cancelled =>
        cancelled.perform (.schedule (some this) event delay) .pending
  else
    timer.perform (.schedule (some this) event delay) .pending

/-- `handle`; `expire` belongs to the client, and may use the timer. -/
def handle
    (expire :
      TimerHandler Address Time Handler → Client →
        Except TimerAbort
          (TimerHandler Address Time Handler × Client))
    (timer : TimerHandler Address Time Handler) (client : Client) :
    Except TimerAbort (TimerHandler Address Time Handler × Client) :=
  if timer.status ≠ .pending then
    .error .notPending
  else
    match expire { timer with status := .handling } client with
    | .error abort => .error abort
    | .ok (expired, client) =>
        if expired.status = .handling then
          .ok ({ expired with status := .idle }, client)
        else
          .ok (expired, client)

omit [DecidableEq Address] [LinearOrder Time] [Zero Time] [Add Time] in
/-- A handler that does not touch the timer leaves it idle. -/
theorem handle_eq
    {timer : TimerHandler Address Time Handler}
    (pending : timer.status = .pending)
    {expire : TimerHandler Address Time Handler → Client →
      Except TimerAbort (TimerHandler Address Time Handler × Client)}
    {client last : Client}
    (expired : expire { timer with status := .handling } client =
      .ok ({ timer with status := .handling }, last)) :
    timer.handle expire client =
      .ok ({ timer with status := .idle }, last) := by
  rw [handle, if_neg (not_not.mpr pending), expired]
  rfl

end TimerHandler

/-! ## The status and the queue -/

/-- A call that leaves the event and the handler of a timer alone. -/
def Call.Foreign {Address Time Handler : Type*} (this : Handler)
    (event : Address) : Call Address Time Handler → Prop
  | .schedule handler e _ => handler ≠ some this ∧ e ≠ event
  | .cancel e => e ≠ event
  | .construct e => e ≠ event
  | .turn => False
  | _ => True

section Invariant

variable
    {Address Time Handler : Type*} [DecidableEq Address]
    [LinearOrder Time] [Zero Time] [Add Time]
    {this : Handler} {event : Address}

/-- What holds of a timer and its scheduler at every moment. -/
structure TimerInv (this : Handler) (event : Address)
    (timer : TimerHandler Address Time Handler) : Prop where
  queue : QueueInv timer.scheduler
  due : Due timer.scheduler
  pending : timer.status = .pending ↔ event ∈ timer.scheduler.queue
  own : event ∈ timer.scheduler.queue →
    (timer.scheduler.events event).handler = some this
  only : ∀ e ∈ timer.scheduler.queue,
    (timer.scheduler.events e).handler = some this → e = event

namespace TimerInv

variable {timer : TimerHandler Address Time Handler}

omit [Add Time] in
theorem start :
    TimerInv this event
      (TimerHandler.start : TimerHandler Address Time Handler) where
  queue := QueueInv.start
  due := by simp [Due, TimerHandler.start, Scheduler.start, listScheduler]
  pending := by
    simp [TimerHandler.start, Scheduler.start, listScheduler]
  own := by simp [TimerHandler.start, Scheduler.start, listScheduler]
  only := by simp [TimerHandler.start, Scheduler.start, listScheduler]

omit [DecidableEq Address] [Zero Time] [Add Time] in
/-- A status changes that neither was `pending` nor becomes it. -/
theorem restatus
    (inv : TimerInv this event timer) {status : TimerStatus}
    (same : status = .pending ↔ timer.status = .pending) :
    TimerInv this event { timer with status := status } :=
  ⟨inv.queue, inv.due, same.trans inv.pending, inv.own, inv.only⟩

omit [DecidableEq Address] [Zero Time] [Add Time] in
/-- What happens to other events leaves the timer alone. -/
theorem frame
    (inv : TimerInv this event timer)
    {next : ListState Address Time Handler}
    (queue : QueueInv next) (due : Due next)
    (same : event ∈ next.queue ↔ event ∈ timer.scheduler.queue)
    (kept : next.events event = timer.scheduler.events event)
    (only : ∀ e ∈ next.queue, (next.events e).handler = some this →
      e ∈ timer.scheduler.queue ∧
        (timer.scheduler.events e).handler = some this) :
    TimerInv this event { timer with scheduler := next } where
  queue := queue
  due := due
  pending := inv.pending.trans same.symm
  own queued := by
    rw [kept]
    exact inv.own (same.mp queued)
  only e queued handled := by
    rcases only e queued handled with ⟨member, handler⟩
    exact inv.only e member handler

/-- Step lemma: a call of other code. -/
theorem foreign
    (forward : ∀ time delay : Time, 0 ≤ delay → time ≤ time + delay)
    (inv : TimerInv this event timer)
    {call : Call Address Time Handler}
    {reply : Reply Address Time Handler}
    {next : ListState Address Time Handler}
    (onward : call.Forward) (other : call.Foreign this event)
    (step : ListStep timer.scheduler call reply next) :
    TimerInv this event { timer with scheduler := next } ∧
      next.clock = timer.scheduler.clock ∧
      next.events event = timer.scheduler.events event := by
  have due := inv.due.step forward inv.queue onward step
  have queue := inv.queue.step step
  cases step with
  | scheduled handler e delay free left events written =>
      rcases other with ⟨notOurs, elsewhere⟩
      subst written
      have kept := Function.update_of_ne (Ne.symm elsewhere)
        (⟨some handler, timer.scheduler.clock + delay,
          timer.scheduler.uid⟩ : Event Time Handler)
        timer.scheduler.events
      refine ⟨inv.frame queue due ?_ kept ?_, rfl, kept⟩
      · simp [Ne.symm elsewhere]
      · intro p member handled
        rcases ListScheduler.mem_insert.mp member with rfl | old
        · simp only [Function.update_self] at handled
          exact absurd handled notOurs
        · simp only [QueueInv.update_of_mem free old] at handled
          exact ⟨old, handled⟩
  | cancelled e queued =>
      have elsewhere : e ≠ event := other
      have kept := Function.update_of_ne (Ne.symm elsewhere)
        (timer.scheduler.events e).retire timer.scheduler.events
      refine ⟨inv.frame queue due ?_ kept ?_, rfl, kept⟩
      · exact List.mem_erase_of_ne (Ne.symm elsewhere)
      · intro p member handled
        have still := inv.queue.ordered.nodup.mem_erase_iff.mp member
        simp only [Function.update_of_ne still.1] at handled
        exact ⟨still.2, handled⟩
  | notQueued => exact ⟨inv, rfl, rfl⟩
  | looked => exact ⟨inv, rfl, rfl⟩
  | switched =>
      exact ⟨⟨queue, due, inv.pending, inv.own, inv.only⟩, rfl, rfl⟩
  | constructed e free =>
      have elsewhere : e ≠ event := other
      have kept := Function.update_of_ne (Ne.symm elsewhere)
        (Scheduler.constructed : Event Time Handler)
        timer.scheduler.events
      refine ⟨inv.frame queue due Iff.rfl kept ?_, rfl, kept⟩
      intro p member handled
      simp only [QueueInv.update_of_mem free member] at handled
      exact ⟨member, handled⟩
  | dispatched p rest first reached => exact other.elim

end TimerInv

/-- A pending timer and the time it will expire. -/
structure Armed (this : Handler) (event : Address) (deadline : Time)
    (timer : TimerHandler Address Time Handler) : Prop where
  inv : TimerInv this event timer
  pending : timer.status = .pending
  time : (timer.scheduler.events event).time = deadline

omit [DecidableEq Address] [Zero Time] [Add Time] in
/-- The clock has not passed the deadline. -/
theorem Armed.clock_le
    {timer : TimerHandler Address Time Handler} {deadline : Time}
    (armed : Armed this event deadline timer) :
    timer.scheduler.clock ≤ deadline := by
  rw [← armed.time]
  exact armed.inv.due event (armed.inv.pending.mp armed.pending)

/-- An abort that the code around a timer has to answer for. -/
def TimerAbort.Misuse : TimerAbort → Prop
  | .scheduler abort => abort.Misuse
  | .notPending => False
  | _ => True

namespace TimerInv

variable {timer : TimerHandler Address Time Handler}

/-- `_sched` of a timer that is not pending. -/
theorem book
    (forward : ∀ time delay : Time, 0 ≤ delay → time ≤ time + delay)
    (inv : TimerInv this event timer) (free : timer.status ≠ .pending)
    {delay : Time} (positive : 0 ≤ delay) :
    Ends TimerAbort.Misuse
      (fun next => Armed this event (timer.scheduler.clock + delay) next ∧
        next.scheduler.clock = timer.scheduler.clock)
      (timer.perform (.schedule (some this) event delay) .pending) := by
  have absent : event ∉ timer.scheduler.queue := by
    rwa [← inv.pending]
  have unnumbered : ¬ 0 < (timer.scheduler.events event).uid := by
    rwa [← inv.queue.queued]
  simp only [TimerHandler.perform, listPerform, Scheduler.perform,
    Scheduler.schedule, if_neg unnumbered]
  by_cases exhausted : timer.scheduler.uid < 0
  · simp only [if_pos exhausted, Except.map]
    exact .refused (Or.inr (Or.inr rfl))
  · have left : 0 < timer.scheduler.uid := by
      have := inv.queue.numbered
      omega
    simp only [if_neg exhausted, Except.map]
    have onward : (Call.schedule (some this) event delay).Forward :=
      positive
    have step : ListStep timer.scheduler
        (.schedule (some this) event delay) _ _ :=
      .scheduled this event delay absent left _ rfl
    refine .answered ⟨⟨⟨inv.queue.step step,
      inv.due.step forward inv.queue onward step, ?_, ?_, ?_⟩,
      rfl, ?_⟩, rfl⟩
    · simp [listScheduler]
    · simp
    · intro e member handled
      rcases ListScheduler.mem_insert.mp member with rfl | old
      · rfl
      · simp only [QueueInv.update_of_mem absent old] at handled
        exact inv.only e old handled
    · simp

/-- `_cancel` of a pending timer, whatever status it gets. -/
theorem unbook
    (forward : ∀ time delay : Time, 0 ≤ delay → time ≤ time + delay)
    (inv : TimerInv this event timer)
    (pending : timer.status = .pending) :
    ∃ next, TimerInv this event ⟨.idle, next⟩ ∧
      next.clock = timer.scheduler.clock ∧
      ∀ status, timer.perform (.cancel event) status =
        .ok ⟨status, next⟩ := by
  have queued := inv.pending.mp pending
  have positive := (inv.queue.queued event).mp queued
  have step : ListStep timer.scheduler (.cancel event) _ _ :=
    .cancelled event queued
  have onward : (Call.cancel event : Call Address Time Handler).Forward :=
    True.intro
  refine ⟨_, ⟨inv.queue.step step,
    inv.due.step forward inv.queue onward step, ?_, ?_, ?_⟩,
    rfl, ?_⟩
  · simp [inv.queue.ordered.nodup.not_mem_erase]
  · intro still
    exact absurd still inv.queue.ordered.nodup.not_mem_erase
  · intro e member handled
    have still := inv.queue.ordered.nodup.mem_erase_iff.mp member
    simp only [Function.update_of_ne still.1] at handled
    exact inv.only e still.2 handled
  · intro status
    simp only [TimerHandler.perform, listPerform, Scheduler.perform,
      listScheduler, ListScheduler.cancel, if_neg (not_le.mpr positive),
      if_pos positive, ListScheduler.remove_eq_erase queued, Except.map]

/-- `resched` arms the timer, pending or not. -/
theorem resched
    (forward : ∀ time delay : Time, 0 ≤ delay → time ≤ time + delay)
    (inv : TimerInv this event timer) {delay : Time}
    (positive : 0 ≤ delay) :
    Ends TimerAbort.Misuse
      (fun next => Armed this event (timer.scheduler.clock + delay) next ∧
        next.scheduler.clock = timer.scheduler.clock)
      (timer.resched this event delay) := by
  rw [TimerHandler.resched]
  split
  · next pending =>
      rcases inv.unbook forward pending with ⟨next, idle, clock, cancelled⟩
      rw [cancelled, ← clock]
      exact idle.book forward (by simp) positive
  · next free => exact inv.book forward free positive

/-- `sched` arms an idle timer. -/
theorem sched
    (forward : ∀ time delay : Time, 0 ≤ delay → time ≤ time + delay)
    (inv : TimerInv this event timer) {delay : Time}
    (positive : 0 ≤ delay) :
    Ends TimerAbort.Misuse
      (fun next => Armed this event (timer.scheduler.clock + delay) next ∧
        next.scheduler.clock = timer.scheduler.clock)
      (timer.sched this event delay) := by
  rw [TimerHandler.sched]
  split
  · exact .refused True.intro
  · next idle =>
      have free : timer.status ≠ .pending := by
        rw [not_not.mp idle]
        decide
      exact inv.book forward free positive

/-- What an operation leaves: it begins no handling of its own. -/
structure Kept (this : Handler) (event : Address)
    (before after : TimerHandler Address Time Handler) : Prop where
  inv : TimerInv this event after
  clock : after.scheduler.clock = before.scheduler.clock
  handling : after.status = .handling → before.status = .handling

theorem cancel
    (forward : ∀ time delay : Time, 0 ≤ delay → time ≤ time + delay)
    (inv : TimerInv this event timer) :
    Ends TimerAbort.Misuse
      (fun next => Kept this event timer next ∧ next.status = .idle)
      (timer.cancel event) := by
  rw [TimerHandler.cancel]
  split
  · exact .refused True.intro
  · next pending =>
      rcases inv.unbook forward (not_not.mp pending) with
        ⟨next, idle, clock, cancelled⟩
      rw [cancelled]
      exact .answered ⟨⟨idle, clock, nofun⟩, rfl⟩

theorem forceCancel
    (forward : ∀ time delay : Time, 0 ≤ delay → time ≤ time + delay)
    (inv : TimerInv this event timer) :
    Ends TimerAbort.Misuse (Kept this event timer) (timer.forceCancel event) := by
  rw [TimerHandler.forceCancel]
  split
  · next pending =>
      rcases inv.unbook forward pending with ⟨next, idle, clock, cancelled⟩
      rw [cancelled]
      exact .answered ⟨idle, clock, nofun⟩
  · exact .answered ⟨inv, rfl, id⟩

end TimerInv

/-! ## Whole runs -/

/-- What the client of a timer does, and the code around it. -/
inductive TimerCall (Address Time Handler : Type*) where
  | sched (delay : Time)
  | resched (delay : Time)
  | cancel
  | forceCancel
  | foreign (call : Call Address Time Handler)

/-- A call, or one round of the scheduler with what `expire` does in it. -/
inductive TimerStep (Address Time Handler : Type*) where
  | call (call : TimerCall Address Time Handler)
  | turn (expire : List (TimerCall Address Time Handler))

namespace TimerHandler

variable (this event)

/-- One call. -/
def callOne (timer : TimerHandler Address Time Handler) :
    TimerCall Address Time Handler →
      Except TimerAbort (TimerHandler Address Time Handler)
  | .sched delay => timer.sched this event delay
  | .resched delay => timer.resched this event delay
  | .cancel => timer.cancel event
  | .forceCancel => timer.forceCancel event
  | .foreign call => timer.perform call timer.status

/-- Calls one after another. -/
def callAll (timer : TimerHandler Address Time Handler) :
    List (TimerCall Address Time Handler) →
      Except TimerAbort (TimerHandler Address Time Handler)
  | [] => .ok timer
  | first :: rest =>
      match timer.callOne this event first with
      | .error abort => .error abort
      | .ok next => next.callAll rest

/-- `handler_->handle` of a dispatched event, when it is that of the timer. -/
def dispatched [DecidableEq Handler]
    (expire : List (TimerCall Address Time Handler))
    (timer : TimerHandler Address Time Handler) :
    Reply Address Time Handler →
      Except TimerAbort
        (Option Time × TimerHandler Address Time Handler)
  | .dispatched booked =>
      if booked.handler = some this then
        (timer.handle
          (fun expiring (_ : Unit) =>
            (expiring.callAll this event expire).map fun expired =>
              (expired, ())) ()).map fun result =>
                (some timer.scheduler.clock, result.1)
      else
        .ok (none, timer)
  | _ => .ok (none, timer)

/-- A step, with the time when the timer expires in it. -/
def step [DecidableEq Handler] :
    Machine (TimerHandler Address Time Handler)
      (TimerStep Address Time Handler) (Option Time) TimerAbort
  | timer, .call made =>
      (timer.callOne this event made).map fun next => (none, next)
  | timer, .turn expire =>
      match listPerform timer.scheduler .turn with
      | .error abort => .error (.scheduler abort)
      | .ok (reply, next) =>
          dispatched this event expire
            { timer with scheduler := next } reply

end TimerHandler

/-- Delays are not negative, and other code keeps its hands off. -/
def TimerCall.Proper (this : Handler) (event : Address) :
    TimerCall Address Time Handler → Prop
  | .sched delay => 0 ≤ delay
  | .resched delay => 0 ≤ delay
  | .foreign call => call.Forward ∧ call.Foreign this event
  | _ => True

def TimerStep.Proper (this : Handler) (event : Address) :
    TimerStep Address Time Handler → Prop
  | .call made => made.Proper this event
  | .turn expire => ∀ made ∈ expire, made.Proper this event

namespace TimerInv

variable {timer : TimerHandler Address Time Handler}

theorem foreignCall
    (forward : ∀ time delay : Time, 0 ≤ delay → time ≤ time + delay)
    (inv : TimerInv this event timer)
    {call : Call Address Time Handler}
    (onward : call.Forward) (other : call.Foreign this event) :
    Ends TimerAbort.Misuse
      (fun next => TimerInv this event next ∧
        next.scheduler.clock = timer.scheduler.clock ∧
        next.status = timer.status ∧
        next.scheduler.events event = timer.scheduler.events event)
      (timer.perform call timer.status) := by
  have outcome := inv.queue.perform_cases call
  rw [TimerHandler.perform]
  generalize listPerform timer.scheduler call = result at outcome
  cases outcome with
  | answered step =>
      rcases inv.foreign forward onward other step with ⟨kept, clock, same⟩
      exact .answered ⟨kept, clock, rfl, same⟩
  | misused which => exact .refused which
  | backwards p queued past =>
      exact absurd past (not_lt.mpr (inv.due p queued))

omit [DecidableEq Address] [Zero Time] [Add Time] in
theorem Kept.of_armed
    {deadline : Time} {next : TimerHandler Address Time Handler}
    (armed : Armed this event deadline next ∧
      next.scheduler.clock = timer.scheduler.clock) :
    Kept this event timer next :=
  ⟨armed.1.inv, armed.2, fun handling => by
    rw [armed.1.pending] at handling
    cases handling⟩

/-- Step lemma: a call keeps the invariant and the clock. -/
theorem callOne
    (forward : ∀ time delay : Time, 0 ≤ delay → time ≤ time + delay)
    (inv : TimerInv this event timer)
    (first : TimerCall Address Time Handler)
    (proper : first.Proper this event) :
    Ends TimerAbort.Misuse (Kept this event timer)
      (timer.callOne this event first) := by
  cases first with
  | sched delay =>
      exact (inv.sched forward proper).imp fun _ => Kept.of_armed
  | resched delay =>
      exact (inv.resched forward proper).imp fun _ => Kept.of_armed
  | cancel => exact (inv.cancel forward).imp fun _ => And.left
  | forceCancel => exact inv.forceCancel forward
  | foreign foreignCall =>
      exact (inv.foreignCall forward proper.1 proper.2).imp
        fun next kept =>
          ⟨kept.1, kept.2.1, fun handling => kept.2.2.1 ▸ handling⟩

theorem callAll
    (forward : ∀ time delay : Time, 0 ≤ delay → time ≤ time + delay)
    (inv : TimerInv this event timer)
    (calls : List (TimerCall Address Time Handler))
    (proper : ∀ later ∈ calls, later.Proper this event) :
    Ends TimerAbort.Misuse
      (fun next => TimerInv this event next ∧
        next.scheduler.clock = timer.scheduler.clock)
      (timer.callAll this event calls) := by
  induction calls generalizing timer with
  | nil => exact .answered ⟨inv, rfl⟩
  | cons first rest induction =>
      have sound := inv.callOne forward first
        (proper first List.mem_cons_self)
      rw [TimerHandler.callAll]
      generalize timer.callOne this event first = result at sound
      cases sound with
      | refused misuse => exact .refused misuse
      | answered kept =>
          rw [← kept.clock]
          exact induction kept.inv fun later member =>
            proper later (List.mem_cons_of_mem _ member)

omit [DecidableEq Address] [Zero Time] [Add Time] in
/-- `expire` and what follows it, from a timer that is being handled. -/
theorem handle
    {Client : Type*}
    (Post : TimerHandler Address Time Handler → Client → Prop)
    {expire : TimerHandler Address Time Handler → Client →
      Except TimerAbort (TimerHandler Address Time Handler × Client)}
    {client : Client}
    (pending : timer.status = .pending)
    (expired : Ends TimerAbort.Misuse
      (fun result => TimerInv this event result.1 ∧
        Post result.1 result.2)
      (expire { timer with status := .handling } client))
    (closed : ∀ result client, result.status = .handling →
      Post result client → Post { result with status := .idle } client) :
    Ends TimerAbort.Misuse
      (fun result => TimerInv this event result.1 ∧
        result.1.status ≠ .handling ∧ Post result.1 result.2)
      (timer.handle expire client) := by
  rw [TimerHandler.handle, if_neg (not_not.mpr pending)]
  generalize expire { timer with status := .handling } client = result
    at expired
  cases expired with
  | refused misuse => exact .refused misuse
  | @answered result post =>
      rcases result with ⟨timer, client⟩
      by_cases handling : timer.status = .handling
      · simp only [if_pos handling]
        refine .answered ⟨post.1.restatus ?_, nofun,
          closed timer client handling post.2⟩
        simp [handling]
      · simp only [if_neg handling]
        exact .answered ⟨post.1, handling, post.2⟩

/-- What one round of the scheduler can do to a timer. -/
inductive Round (this : Handler) (event : Address)
    (timer : TimerHandler Address Time Handler) :
    Reply Address Time Handler × ListState Address Time Handler →
      Prop where
  | silent
      {reply : Reply Address Time Handler}
      {next : ListState Address Time Handler}
      (others : ∀ booked, reply = .dispatched booked →
        booked.handler ≠ some this)
      (inv : TimerInv this event ⟨timer.status, next⟩)
      (kept : next.events event = timer.scheduler.events event) :
      Round this event timer (reply, next)
  | expired
      {booked : Booking Address Time Handler}
      {next : ListState Address Time Handler}
      (ours : booked.handler = some this)
      (pending : timer.status = .pending)
      (clock : next.clock = (timer.scheduler.events event).time)
      (inv : TimerInv this event ⟨.handling, next⟩) :
      Round this event timer (.dispatched booked, next)

/-- The event of the timer comes up while it is pending, and once. -/
theorem round
    (forward : ∀ time delay : Time, 0 ≤ delay → time ≤ time + delay)
    (inv : TimerInv this event timer) :
    Ends Abort.Misuse (Round this event timer)
      (listPerform timer.scheduler .turn) := by
  have onward : (Call.turn : Call Address Time Handler).Forward :=
    True.intro
  have outcome := inv.queue.perform_cases (Call.turn)
  generalize listPerform timer.scheduler .turn = result at outcome
  cases outcome with
  | misused which => exact .refused which
  | backwards p queued past =>
      exact absurd past (not_lt.mpr (inv.due p queued))
  | answered step =>
      have queue := inv.queue.step step
      have due := inv.due.step forward inv.queue onward step
      cases step with
      | looked => exact .answered (.silent nofun inv rfl)
      | switched =>
          exact .answered (.silent nofun
            ⟨queue, due, inv.pending, inv.own, inv.only⟩ rfl)
      | dispatched p rest first reached =>
          have nodup := inv.queue.ordered.nodup
          rw [first] at nodup
          have gone := (List.nodup_cons.mp nodup).1
          have member : ∀ e, e ∈ timer.scheduler.queue ↔
              e = p ∨ e ∈ rest := by
            intro e
            rw [first, List.mem_cons]
          have kept : ∀ e ∈ rest,
              (Function.update timer.scheduler.events p
                (timer.scheduler.events p).retire e).handler = some this →
              e ∈ timer.scheduler.queue ∧
                (timer.scheduler.events e).handler = some this := by
            intro e inside handled
            have different : e ≠ p := by
              rintro rfl
              exact gone inside
            simp only [Function.update_of_ne different] at handled
            exact ⟨(member e).mpr (Or.inr inside), handled⟩
          by_cases ours : p = event
          · subst ours
            have queued := (member p).mpr (Or.inl rfl)
            refine .answered (.expired (inv.own queued)
              (inv.pending.mpr queued) rfl
              ⟨queue, due, by simp [gone], fun still => absurd still gone,
                ?_⟩)
            intro e inside handled
            rcases kept e inside handled with ⟨old, handler⟩
            exact inv.only e old handler
          · have elsewhere := Ne.symm ours
            refine .answered (.silent ?_
              (inv.frame queue due (by simp [member, elsewhere])
                (Function.update_of_ne elsewhere _ _) kept)
              (Function.update_of_ne elsewhere _ _))
            rintro booked ⟨⟩ handled
            exact ours (inv.only p ((member p).mpr (Or.inl rfl)) handled)

/-- What a turn leaves of a timer, with what it does when it expires. -/
structure Turned (this : Handler) (event : Address)
    (before : TimerHandler Address Time Handler)
    (expiry : Option Time)
    (after : TimerHandler Address Time Handler) : Prop where
  inv : TimerInv this event after
  between : after.status ≠ .handling
  silent : expiry = none →
    after.status = before.status ∧
      after.scheduler.events event = before.scheduler.events event
  expired : ∀ moment, expiry = some moment →
    before.status = .pending ∧
      moment = (before.scheduler.events event).time

/-- Step lemma: the timer expires when its event is dispatched. -/
theorem turn
    [DecidableEq Handler]
    (forward : ∀ time delay : Time, 0 ≤ delay → time ≤ time + delay)
    (inv : TimerInv this event timer) (between : timer.status ≠ .handling)
    (expire : List (TimerCall Address Time Handler))
    (proper : ∀ made ∈ expire, made.Proper this event) :
    Ends TimerAbort.Misuse
      (fun result => Turned this event timer result.1 result.2)
      (TimerHandler.step this event timer (.turn expire)) := by
  have turned := inv.round forward
  simp only [TimerHandler.step]
  generalize listPerform timer.scheduler .turn = result at turned
  cases turned with
  | refused misuse => exact .refused misuse
  | answered post =>
      cases post with
      | @silent reply next others kept same =>
          have quiet : TimerHandler.dispatched this event expire
              ⟨timer.status, next⟩ reply =
                .ok (none, ⟨timer.status, next⟩) := by
            cases reply with
            | dispatched booked =>
                exact if_neg (others booked rfl)
            | _ => rfl
          change Ends _ _ (TimerHandler.dispatched _ _ _ _ _)
          rw [quiet]
          exact .answered ⟨kept, between, fun _ => ⟨rfl, same⟩, nofun⟩
      | expired ours pending clock expiring =>
          change Ends _ _ (TimerHandler.dispatched _ _ _ _ _)
          rw [TimerHandler.dispatched, if_pos ours]
          apply Ends.map
          apply Ends.imp (handle (fun _ _ => True) ?_ ?_ ?_)
          · intro result post
            refine ⟨post.1, post.2.1, nofun, ?_⟩
            rintro moment ⟨⟩
            exact ⟨pending, clock⟩
          · exact pending
          · apply Ends.map
            apply Ends.imp (expiring.callAll forward expire proper)
            intro result post
            exact ⟨post.1, True.intro⟩
          · intro _ _ _ _
            exact True.intro

/-- Step lemma: only misuse aborts, and no step ends in the middle. -/
theorem step
    [DecidableEq Handler]
    (forward : ∀ time delay : Time, 0 ≤ delay → time ≤ time + delay)
    (inv : TimerInv this event timer) (between : timer.status ≠ .handling)
    (step : TimerStep Address Time Handler)
    (proper : step.Proper this event) :
    Ends TimerAbort.Misuse
      (fun result => TimerInv this event result.2 ∧
        result.2.status ≠ .handling)
      (TimerHandler.step this event timer step) := by
  cases step with
  | call made =>
      apply Ends.map
      apply Ends.imp (inv.callOne forward made proper)
      intro result kept
      exact ⟨kept.inv, fun handling => between (kept.handling handling)⟩
  | turn expire =>
      apply Ends.imp (inv.turn forward between expire proper)
      intro result turned
      exact ⟨turned.inv, turned.between⟩

end TimerInv

/-- The moments at which a timer expired. -/
def expiries (log : List (Except TimerAbort (Option Time))) : List Time :=
  log.filterMap fun answer =>
    match answer with
    | .ok expiry => expiry
    | .error _ => none

/-- A step of other code, or a round of the scheduler. -/
def TimerStep.Quiet : TimerStep Address Time Handler → Prop
  | .call (.foreign _) => True
  | .turn _ => True
  | _ => False

section Runs

variable [DecidableEq Handler] {timer : TimerHandler Address Time Handler}

/-- Step lemma: an armed timer stays armed until its deadline. -/
theorem Armed.step
    (forward : ∀ time delay : Time, 0 ≤ delay → time ≤ time + delay)
    {deadline : Time} (armed : Armed this event deadline timer)
    (step : TimerStep Address Time Handler)
    (proper : step.Proper this event) (quiet : step.Quiet) :
    Ends TimerAbort.Misuse
      (fun result =>
        result.1 = some deadline ∨
          result.1 = none ∧ Armed this event deadline result.2)
      (TimerHandler.step this event timer step) := by
  have between : timer.status ≠ .handling := by
    rw [armed.pending]
    decide
  cases step with
  | call made =>
      cases made with
      | foreign call =>
          apply Ends.map
          apply Ends.imp
            (armed.inv.foreignCall forward proper.1 proper.2)
          rintro result ⟨inv, clock, status, kept⟩
          exact Or.inr ⟨rfl, inv, status.trans armed.pending,
            by rw [kept, armed.time]⟩
      | sched => exact quiet.elim
      | resched => exact quiet.elim
      | cancel => exact quiet.elim
      | forceCancel => exact quiet.elim
  | turn expire =>
      apply Ends.imp (armed.inv.turn forward between expire proper)
      rintro ⟨expiry, next⟩ turned
      cases expiry with
      | none =>
          rcases turned.silent rfl with ⟨status, kept⟩
          exact Or.inr ⟨rfl, turned.inv, status.trans armed.pending,
            by rw [kept, armed.time]⟩
      | some moment =>
          left
          rw [(turned.expired moment rfl).2, armed.time]

/-- Run lemma: the first time it expires is its deadline. -/
theorem Armed.run
    (forward : ∀ time delay : Time, 0 ≤ delay → time ≤ time + delay)
    {deadline : Time} (armed : Armed this event deadline timer)
    (steps : List (TimerStep Address Time Handler))
    (proper : ∀ step ∈ steps, step.Proper this event)
    (quiet : ∀ step ∈ steps, step.Quiet)
    {final : TimerHandler Address Time Handler}
    (ran : after (TimerHandler.step this event) timer steps =
      some final) :
    (expiries (answers (TimerHandler.step this event) timer
        steps)).head? = some deadline ∨
      expiries (answers (TimerHandler.step this event) timer steps) = [] ∧
        Armed this event deadline final := by
  induction steps generalizing timer with
  | nil =>
      cases ran
      exact Or.inr ⟨rfl, armed⟩
  | cons step steps induction =>
      have sound := armed.step forward step (proper step List.mem_cons_self)
        (quiet step List.mem_cons_self)
      generalize taken : TimerHandler.step this event timer step = result
        at sound
      cases sound with
      | refused misuse =>
          rw [after_refused taken] at ran
          cases ran
      | @answered result post =>
          rcases result with ⟨expiry, next⟩
          rw [after_answered taken] at ran
          rw [answers_answered taken]
          rcases post with rfl | ⟨rfl, still⟩
          · exact Or.inl rfl
          · exact induction still
              (fun later member =>
                proper later (List.mem_cons_of_mem _ member))
              (fun later member =>
                quiet later (List.mem_cons_of_mem _ member)) ran

/-- Run lemma: the invariant holds behind every run. -/
theorem TimerInv.run
    (forward : ∀ time delay : Time, 0 ≤ delay → time ≤ time + delay)
    (inv : TimerInv this event timer) (between : timer.status ≠ .handling)
    (steps : List (TimerStep Address Time Handler))
    (proper : ∀ step ∈ steps, step.Proper this event) :
    (∀ answer ∈ answers (TimerHandler.step this event) timer steps,
        ∀ abort, answer = .error abort → abort.Misuse) ∧
      ∀ final,
        after (TimerHandler.step this event) timer steps = some final →
        TimerInv this event final ∧ final.status ≠ .handling := by
  apply @run_keeps _ _ _ _ (TimerHandler.step this event)
    (fun answer => ∀ abort, answer = .error abort → abort.Misuse)
    (fun timer => TimerInv this event timer ∧ timer.status ≠ .handling)
    steps timer ?_ ⟨inv, between⟩
  intro step member timer inv
  have sound := inv.1.step forward inv.2 step (proper step member)
  generalize TimerHandler.step this event timer step = result at sound
  cases sound with
  | refused misuse =>
      refine .refused ?_
      rintro abort ⟨⟩
      exact misuse
  | answered post => exact .answered nofun post

/--
In every run the sanity check of `handle` passes and the scheduler finds the
event of a timer that is cancelled, and a timer is pending exactly when its
event is queued.
-/
theorem timer_follows_queue
    (forward : ∀ time delay : Time, 0 ≤ delay → time ≤ time + delay)
    (steps : List (TimerStep Address Time Handler))
    (proper : ∀ step ∈ steps, step.Proper this event) :
    (∀ abort, .error abort ∈
        answers (TimerHandler.step this event) TimerHandler.start steps →
        abort.Misuse) ∧
      ∀ final,
        after (TimerHandler.step this event) TimerHandler.start steps =
          some final →
        (final.status = .pending ↔ event ∈ final.scheduler.queue) ∧
          final.status ≠ .handling := by
  have initial : TimerInv this event
      (TimerHandler.start : TimerHandler Address Time Handler) :=
    TimerInv.start
  rcases initial.run forward nofun steps proper with ⟨misuse, kept⟩
  refine ⟨fun abort member => misuse _ member abort rfl, ?_⟩
  intro final ran
  rcases kept final ran with ⟨inv, between⟩
  exact ⟨inv.pending, between⟩

/-- A timer that sets itself again, beside another event. -/
def twoExpiries : List (TimerStep Nat Int Bool) :=
  [.call (.sched 5), .call (.foreign (.schedule (some false) 1 3)),
    .turn [], .turn [.resched 2], .turn []]

theorem timer_follows_queue_twoExpiries :
    expiries (answers (TimerHandler.step true 0) TimerHandler.start
        twoExpiries) = [5, 7] ∧
      ∀ final,
        after (TimerHandler.step true 0) TimerHandler.start twoExpiries =
          some final →
        final.status ≠ .handling :=
  ⟨by decide, fun final ran =>
    ((timer_follows_queue (fun time delay _ => by omega) twoExpiries
      (by
        simp [twoExpiries, TimerStep.Proper, TimerCall.Proper,
          Call.Forward, Call.Foreign])).2 final ran).2⟩

/--
A timer that is set from any reachable state expires when its delay has gone
by, and not before: whatever other code does with the scheduler, either the
first expiry is at that time, or there was none yet, the timer is still
pending and the clock has not passed it.
-/
theorem timer_expires_on_time
    (forward : ∀ time delay : Time, 0 ≤ delay → time ≤ time + delay)
    (earlier later : List (TimerStep Address Time Handler))
    (proper : ∀ step ∈ earlier ++ later, step.Proper this event)
    (quiet : ∀ step ∈ later, step.Quiet)
    (before armed final : TimerHandler Address Time Handler)
    (reached : after (TimerHandler.step this event) TimerHandler.start
      earlier = some before)
    (delay : Time) (positive : 0 ≤ delay)
    (started : before.sched this event delay = .ok armed ∨
      before.resched this event delay = .ok armed)
    (ran : after (TimerHandler.step this event) armed later =
      some final) :
    (expiries (answers (TimerHandler.step this event) armed
        later)).head? = some (before.scheduler.clock + delay) ∨
      expiries (answers (TimerHandler.step this event) armed later) = [] ∧
        final.status = .pending ∧
        final.scheduler.clock ≤ before.scheduler.clock + delay := by
  have initial : TimerInv this event
      (TimerHandler.start : TimerHandler Address Time Handler) :=
    TimerInv.start
  have inv := ((initial.run forward nofun earlier fun step member =>
    proper step (List.mem_append_left _ member)).2 before reached).1
  have sound : Armed this event (before.scheduler.clock + delay) armed := by
    rcases started with started | started
    · have sound := inv.sched forward positive
      rw [started] at sound
      cases sound with
      | answered post => exact post.1
    · have sound := inv.resched forward positive
      rw [started] at sound
      cases sound with
      | answered post => exact post.1
  rcases sound.run forward later
      (fun step member => proper step (List.mem_append_right _ member))
      quiet ran with first | ⟨unfired, still⟩
  · exact Or.inl first
  · exact Or.inr ⟨unfired, still.pending, still.clock_le⟩

/-- The timer above, from the moment at which it is set. -/
def afterSetting : List (TimerStep Nat Int Bool) :=
  [.call (.foreign (.schedule (some false) 1 3)), .turn [],
    .turn [.resched 2]]

theorem timer_expires_on_time_afterSetting :
    ∃ armed final : TimerHandler Nat Int Bool,
      TimerHandler.start.sched true 0 5 = .ok armed ∧
        after (TimerHandler.step true 0) armed afterSetting =
          some final ∧
        ((expiries (answers (TimerHandler.step true 0) armed
            afterSetting)).head? = some 5 ∨
          final.scheduler.clock ≤ 5) := by
  refine ⟨_, _, rfl, rfl, ?_⟩
  rcases timer_expires_on_time (fun time delay _ => by omega) []
      afterSetting
      (by
        simp [afterSetting, TimerStep.Proper, TimerCall.Proper,
          Call.Forward, Call.Foreign])
      (by simp [afterSetting, TimerStep.Quiet])
      TimerHandler.start _ _ rfl 5 (by decide)
      (Or.inl (show TimerHandler.start.sched true 0 5 = .ok _ from rfl))
      rfl with
    first | ⟨_, _, clock⟩
  · exact Or.inl first
  · exact Or.inr clock

end Runs

end Invariant

end NetworkingLab.Simulator
