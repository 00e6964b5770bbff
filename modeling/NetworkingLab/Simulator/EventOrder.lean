import Mathlib.Data.Prod.Lex
import NetworkingLab.Simulator.Scheduler

/-!
# In which order events are dispatched

An event is stamped with its time and its number.  The list of
`ListScheduler` is kept in the order of the stamps, whatever the calls are,
and the positive numbers are exactly those of the events in it (`QueueInv`).

From this follow the properties a simulation relies on.  When no delay is
negative, the clock never has to go back and a run dispatches its events in
strictly increasing order of time and number; the order holds across the whole
run, whatever the handlers schedule or cancel in between.  And no event is
lost or dispatched twice: the numbers handed out are those dispatched, those
cancelled and those still queued, each once.
-/

namespace NetworkingLab.Simulator

open NetworkingLab.Foundation.Machines

variable {Address Time Handler : Type*} [LinearOrder Time]

/-- The time of an event, and its number among events of one time. -/
def Event.stamp (event : Event Time Handler) : Time ×ₗ Int :=
  toLex (event.time, event.uid)

theorem Event.stamp_lt_of_time
    {first second : Event Time Handler}
    (earlier : first.time < second.time) :
    first.stamp < second.stamp :=
  Prod.Lex.toLex_lt_toLex.mpr (Or.inl earlier)

theorem Event.stamp_lt_of_uid
    {first second : Event Time Handler}
    (notLater : first.time ≤ second.time)
    (before : first.uid < second.uid) :
    first.stamp < second.stamp := by
  rcases notLater.lt_or_eq with earlier | same
  · exact stamp_lt_of_time earlier
  · exact Prod.Lex.toLex_lt_toLex.mpr (Or.inr ⟨same, before⟩)

/-- Events listed in the order of their stamps. -/
def Ordered (events : Memory Address Time Handler)
    (queue : List Address) : Prop :=
  queue.Pairwise fun first second =>
    (events first).stamp < (events second).stamp

theorem Ordered.nodup
    {events : Memory Address Time Handler} {queue : List Address}
    (ordered : Ordered events queue) : queue.Nodup := by
  apply List.Pairwise.imp _ ordered
  rintro first second before rfl
  exact lt_irrefl _ before

/-- Only the events in the list matter. -/
theorem Ordered.congr
    {events later : Memory Address Time Handler} {queue : List Address}
    (same : ∀ e ∈ queue, later e = events e)
    (ordered : Ordered events queue) : Ordered later queue := by
  apply List.Pairwise.imp_of_mem _ ordered
  intro first second firstMem secondMem before
  rw [same first firstMem, same second secondMem]
  exact before

/-! ## The operations of the list -/

namespace ListScheduler

theorem insert_eq_orderedInsert
    (events : Memory Address Time Handler) (e : Address)
    (queue : List Address) :
    insert events e queue =
      queue.orderedInsert
        (fun first second => (events first).time < (events second).time)
        e := by
  induction queue with
  | nil => rfl
  | cons p rest induction =>
      rw [insert, List.orderedInsert_cons, induction]

theorem insert_perm
    (events : Memory Address Time Handler) (e : Address)
    (queue : List Address) :
    (insert events e queue).Perm (e :: queue) := by
  rw [insert_eq_orderedInsert]
  exact List.perm_orderedInsert _ _ _

@[simp]
theorem mem_insert
    {events : Memory Address Time Handler} {e other : Address}
    {queue : List Address} :
    other ∈ insert events e queue ↔ other = e ∨ other ∈ queue := by
  rw [(insert_perm events e queue).mem_iff, List.mem_cons]

/-- A new event goes behind all events that are not later. -/
theorem insert_ordered
    {events : Memory Address Time Handler} {e : Address}
    {queue : List Address}
    (ordered : Ordered events queue)
    (latest : ∀ other ∈ queue, (events other).uid < (events e).uid) :
    Ordered events (insert events e queue) := by
  induction queue with
  | nil => exact List.pairwise_singleton _ _
  | cons p rest induction =>
      have front := List.pairwise_cons.mp ordered
      rw [insert]
      split
      · next earlier =>
          apply List.pairwise_cons.mpr ⟨?_, ordered⟩
          intro other member
          have first := Event.stamp_lt_of_time earlier
          rcases List.mem_cons.mp member with rfl | later
          · exact first
          · exact first.trans (front.1 other later)
      · next notEarlier =>
          apply List.pairwise_cons.mpr
          refine ⟨?_, induction front.2 fun other member =>
            latest other (List.mem_cons_of_mem _ member)⟩
          intro other member
          rcases mem_insert.mp member with rfl | old
          · exact Event.stamp_lt_of_uid (not_lt.mp notEarlier)
              (latest p List.mem_cons_self)
          · exact front.1 other old

omit [LinearOrder Time] in
theorem remove_eq_erase [DecidableEq Address]
    {e : Address} {queue : List Address} (member : e ∈ queue) :
    remove e queue = some (queue.erase e) := by
  induction queue with
  | nil => cases member
  | cons p rest induction =>
      rw [remove]
      split
      · next same => rw [same, List.erase_cons_head]
      · next other =>
          have later := (List.mem_cons.mp member).resolve_left
            fun same => other same.symm
          rw [induction later, Option.map_some,
            List.erase_cons_tail (by simpa using other)]

end ListScheduler

/-! ## The invariant of the queue -/

section Invariant

variable [DecidableEq Address]

/-- What holds of a list scheduler at every moment. -/
structure QueueInv
    (scheduler : Scheduler Address Time Handler (List Address)) :
    Prop where
  ordered : Ordered scheduler.events scheduler.queue
  queued : ∀ e, e ∈ scheduler.queue ↔ 0 < (scheduler.events e).uid
  distinct : ∀ e ∈ scheduler.queue, ∀ other ∈ scheduler.queue,
    (scheduler.events e).uid = (scheduler.events other).uid → e = other
  numbered : scheduler.uid ≠ 0
  fresh : 0 < scheduler.uid →
    ∀ e, (scheduler.events e).uid < scheduler.uid

/-- What an answered call does to a list scheduler. -/
inductive ListStep [Zero Time] [Add Time]
    (scheduler : Scheduler Address Time Handler (List Address)) :
    Call Address Time Handler → Reply Address Time Handler →
      Scheduler Address Time Handler (List Address) → Prop where
  | scheduled
      (handler : Handler) (e : Address) (delay : Time)
      (free : e ∉ scheduler.queue) (left : 0 < scheduler.uid)
      (events : Memory Address Time Handler)
      (written : events = Function.update scheduler.events e
        ⟨some handler, scheduler.clock + delay, scheduler.uid⟩) :
      ListStep scheduler (.schedule (some handler) e delay)
        (.scheduled (booking events e))
        ⟨scheduler.clock, scheduler.halted, nextUid scheduler.uid,
          events, ListScheduler.insert events e scheduler.queue⟩
  | cancelled
      (e : Address) (queued : e ∈ scheduler.queue) :
      ListStep scheduler (.cancel e)
        (.cancelled (some (booking scheduler.events e)))
        ⟨scheduler.clock, scheduler.halted, scheduler.uid,
          Function.update scheduler.events e (scheduler.events e).retire,
          scheduler.queue.erase e⟩
  | notQueued
      (e : Address) (absent : e ∉ scheduler.queue) :
      ListStep scheduler (.cancel e) (.cancelled none) scheduler
  | looked
      (call : Call Address Time Handler) (event : Option Address) :
      ListStep scheduler call (.found event) scheduler
  | switched
      (call : Call Address Time Handler) (halted : Bool) :
      ListStep scheduler call .done
        ⟨scheduler.clock, halted, scheduler.uid, scheduler.events,
          scheduler.queue⟩
  | constructed
      (e : Address) (free : e ∉ scheduler.queue) :
      ListStep scheduler (.construct e) .done
        ⟨scheduler.clock, scheduler.halted, scheduler.uid,
          Function.update scheduler.events e Scheduler.constructed,
          scheduler.queue⟩
  | dispatched
      (p : Address) (rest : List Address)
      (first : scheduler.queue = p :: rest)
      (reached : scheduler.clock ≤ (scheduler.events p).time) :
      ListStep scheduler .turn
        (.dispatched (booking scheduler.events p))
        ⟨(scheduler.events p).time, scheduler.halted, scheduler.uid,
          Function.update scheduler.events p (scheduler.events p).retire,
          rest⟩

/-- How a call of a list scheduler can end. -/
inductive Outcome [Zero Time] [Add Time]
    (scheduler : Scheduler Address Time Handler (List Address))
    (call : Call Address Time Handler) :
    Except Abort
      (Reply Address Time Handler ×
        Scheduler Address Time Handler (List Address)) → Prop where
  | answered
      {reply : Reply Address Time Handler}
      {next : Scheduler Address Time Handler (List Address)}
      (step : ListStep scheduler call reply next) :
      Outcome scheduler call (.ok (reply, next))
  | misused
      {abort : Abort}
      (which : abort = .nullHandler ∨ abort = .invalidUid ∨
        abort = .uidsExhausted) :
      Outcome scheduler call (.error abort)
  | backwards
      (p : Address) (queued : p ∈ scheduler.queue)
      (past : (scheduler.events p).time < scheduler.clock) :
      Outcome scheduler call (.error .backwards)

/-- A list scheduler of these types. -/
abbrev ListState (Address Time Handler : Type*) :=
  Scheduler Address Time Handler (List Address)

/-- The calls of a list scheduler. -/
def listPerform [Zero Time] [Add Time] :
    Machine (ListState Address Time Handler)
      (Call Address Time Handler) (Reply Address Time Handler) Abort :=
  Scheduler.perform listScheduler

namespace QueueInv

variable {scheduler : ListState Address Time Handler}

/-- Everything a call can do, in a state of the invariant. -/
theorem perform_cases [Zero Time] [Add Time]
    (inv : QueueInv scheduler) (call : Call Address Time Handler) :
    Outcome scheduler call (listPerform scheduler call) := by
  cases call with
  | schedule handler e delay =>
      cases handler with
      | none => exact .misused (Or.inl rfl)
      | some handler =>
          simp only [listPerform, Scheduler.perform, Scheduler.schedule]
          by_cases queued : 0 < (scheduler.events e).uid
          · simp only [if_pos queued, Except.map]
            exact .misused (Or.inr (Or.inl rfl))
          · by_cases exhausted : scheduler.uid < 0
            · simp only [if_neg queued, if_pos exhausted, Except.map]
              exact .misused (Or.inr (Or.inr rfl))
            · have left : 0 < scheduler.uid := by
                have := inv.numbered
                omega
              have free : e ∉ scheduler.queue := by
                rwa [inv.queued]
              simp only [if_neg queued, if_neg exhausted, Except.map]
              exact .answered (.scheduled handler e delay free left _ rfl)
  | cancel e =>
      simp only [listPerform, Scheduler.perform, listScheduler,
        ListScheduler.cancel]
      by_cases queued : e ∈ scheduler.queue
      · have positive := (inv.queued e).mp queued
        simp only [if_neg (not_le.mpr positive), if_pos positive,
          ListScheduler.remove_eq_erase queued, Except.map]
        exact .answered (.cancelled e queued)
      · have absent : (scheduler.events e).uid ≤ 0 := by
          rw [inv.queued] at queued
          omega
        simp only [if_pos absent, if_neg (not_lt.mpr absent), Except.map]
        exact .answered (.notQueued e queued)
  | lookup uid => exact .answered (.looked _ _)
  | head => exact .answered (.looked _ _)
  | halt => exact .answered (.switched _ true)
  | resume => exact .answered (.switched _ false)
  | construct e =>
      simp only [listPerform, Scheduler.perform]
      by_cases queued : 0 < (scheduler.events e).uid
      · rw [if_pos queued]
        exact .answered (.switched _ scheduler.halted)
      · rw [if_neg queued]
        exact .answered (.constructed e (by rwa [inv.queued]))
  | turn =>
      simp only [listPerform, Scheduler.perform, Scheduler.turn]
      by_cases halted : scheduler.halted = true
      · rw [if_pos halted]
        exact .answered (.switched _ scheduler.halted)
      · rw [if_neg halted]
        cases list : scheduler.queue with
        | nil =>
            simp only [listScheduler, ListScheduler.deque]
            rw [← list]
            exact .answered (.switched _ scheduler.halted)
        | cons p rest =>
            simp only [listScheduler, ListScheduler.deque,
              Scheduler.dispatch]
            by_cases past : (scheduler.events p).time < scheduler.clock
            · simp only [if_pos past, Except.map]
              exact .backwards p (by simp [list]) past
            · simp only [if_neg past, Except.map]
              exact .answered
                (.dispatched p rest list (not_lt.mp past))

/-- `SCHED_START`: no event is queued and none has a number. -/
theorem start [Zero Time] :
    QueueInv (Scheduler.start
      (listScheduler :
        Discipline Address Time Handler (List Address))) where
  ordered := List.Pairwise.nil
  queued e := by
    simp [Scheduler.start, listScheduler, Scheduler.constructed]
  distinct := by simp [Scheduler.start, listScheduler]
  numbered := by simp [Scheduler.start]
  fresh _ e := by simp [Scheduler.start, Scheduler.constructed]

omit [LinearOrder Time] in
theorem update_of_mem
    {events : Memory Address Time Handler} {queue : List Address}
    {e other : Address} (free : e ∉ queue) (queued : other ∈ queue)
    (event : Event Time Handler) :
    Function.update events e event other = events other := by
  apply Function.update_of_ne
  rintro rfl
  exact free queued

/-- An event that is not queued may be overwritten with no number. -/
theorem overwrite
    (inv : QueueInv scheduler) {e : Address} {event : Event Time Handler}
    (free : e ∉ scheduler.queue) (unnumbered : event.uid ≤ 0)
    (clock : Time) (halted : Bool) :
    QueueInv ⟨clock, halted, scheduler.uid,
      Function.update scheduler.events e event, scheduler.queue⟩ where
  ordered := inv.ordered.congr fun other queued =>
    update_of_mem free queued _
  queued other := by
    by_cases same : other = e
    · subst same
      simp only [Function.update_self, free, false_iff, not_lt]
      exact unnumbered
    · simp only [Function.update_of_ne same]
      exact inv.queued other
  distinct first firstMem second secondMem := by
    simp only [update_of_mem free firstMem, update_of_mem free secondMem]
    exact inv.distinct first firstMem second secondMem
  numbered := inv.numbered
  fresh left other := by
    by_cases same : other = e
    · subst same
      simp only [Function.update_self]
      exact unnumbered.trans_lt left
    · simp only [Function.update_of_ne same]
      exact inv.fresh left other

/-- A queued event may be taken out and its number negated. -/
theorem retire
    (inv : QueueInv scheduler) {e : Address}
    (queued : e ∈ scheduler.queue) (clock : Time) (halted : Bool) :
    QueueInv ⟨clock, halted, scheduler.uid,
      Function.update scheduler.events e (scheduler.events e).retire,
      scheduler.queue.erase e⟩ where
  ordered := by
    have rest : Ordered scheduler.events (scheduler.queue.erase e) :=
      inv.ordered.sublist List.erase_sublist
    apply rest.congr
    intro other member
    have different := (inv.ordered.nodup.mem_erase_iff.mp member).1
    exact Function.update_of_ne different _ _
  queued other := by
    rw [inv.ordered.nodup.mem_erase_iff]
    have positive := (inv.queued e).mp queued
    by_cases same : other = e
    · subst same
      simp only [ne_eq, not_true_eq_false, false_and,
        Function.update_self, Event.retire, false_iff]
      omega
    · simp only [ne_eq, same, not_false_eq_true, true_and,
        Function.update_of_ne same]
      exact inv.queued other
  distinct first firstMem second secondMem := by
    have firstKept := inv.ordered.nodup.mem_erase_iff.mp firstMem
    have secondKept := inv.ordered.nodup.mem_erase_iff.mp secondMem
    simp only [Function.update_of_ne firstKept.1,
      Function.update_of_ne secondKept.1]
    exact inv.distinct first firstKept.2 second secondKept.2
  numbered := inv.numbered
  fresh left other := by
    have positive := (inv.queued e).mp queued
    by_cases same : other = e
    · subst same
      simp only [Function.update_self, Event.retire]
      simp only at left
      omega
    · simp only [Function.update_of_ne same]
      exact inv.fresh left other

/-- A free event may be booked under the next number. -/
theorem book
    (inv : QueueInv scheduler) {e : Address} {event : Event Time Handler}
    (free : e ∉ scheduler.queue) (left : 0 < scheduler.uid)
    (next : event.uid = scheduler.uid) (clock : Time) (halted : Bool) :
    QueueInv ⟨clock, halted, nextUid scheduler.uid,
      Function.update scheduler.events e event,
      ListScheduler.insert (Function.update scheduler.events e event) e
        scheduler.queue⟩ where
  ordered := by
    have others : ∀ other ∈ scheduler.queue,
        Function.update scheduler.events e event other =
          scheduler.events other := fun other queued =>
      update_of_mem free queued _
    apply ListScheduler.insert_ordered (inv.ordered.congr others)
    intro other queued
    rw [others other queued, Function.update_self, next]
    exact inv.fresh left other
  queued other := by
    rw [ListScheduler.mem_insert]
    by_cases same : other = e
    · subst same
      simp only [true_or, Function.update_self, next, left]
    · simp only [same, false_or, Function.update_of_ne same]
      exact inv.queued other
  distinct first firstMem second secondMem := by
    rcases ListScheduler.mem_insert.mp firstMem with rfl | firstOld <;>
      rcases ListScheduler.mem_insert.mp secondMem with rfl | secondOld
    · intro _
      rfl
    · have below := inv.fresh left second
      simp only [Function.update_self, update_of_mem free secondOld, next]
      omega
    · have below := inv.fresh left first
      simp only [Function.update_self, update_of_mem free firstOld, next]
      omega
    · simp only [update_of_mem free firstOld,
        update_of_mem free secondOld]
      exact inv.distinct first firstOld second secondOld
  numbered := by
    simp only
    rcases nextUid_cases scheduler.uid with next | none <;> omega
  fresh more other := by
    have grown : scheduler.uid < nextUid scheduler.uid := by
      simp only at more
      rcases nextUid_cases scheduler.uid with next | none <;> omega
    by_cases same : other = e
    · subst same
      simp only [Function.update_self, next]
      exact grown
    · simp only [Function.update_of_ne same]
      exact (inv.fresh left other).trans grown

/-- Step lemma. -/
theorem step [Zero Time] [Add Time]
    (inv : QueueInv scheduler)
    {call : Call Address Time Handler}
    {reply : Reply Address Time Handler}
    {next : ListState Address Time Handler}
    (step : ListStep scheduler call reply next) : QueueInv next := by
  cases step with
  | scheduled handler e delay free left events written =>
      subst written
      exact inv.book free left rfl _ _
  | cancelled e queued => exact inv.retire queued _ _
  | notQueued => exact inv
  | looked => exact inv
  | switched =>
      exact ⟨inv.ordered, inv.queued, inv.distinct, inv.numbered,
        inv.fresh⟩
  | constructed e free => exact inv.overwrite free (le_refl 0) _ _
  | dispatched p rest first reached =>
      have taken := inv.retire (e := p) (by simp [first])
        (scheduler.events p).time scheduler.halted
      rwa [first, List.erase_cons_head] at taken

end QueueInv

end Invariant

end NetworkingLab.Simulator
