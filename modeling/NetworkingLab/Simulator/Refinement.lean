import NetworkingLab.Simulator.Dispatch

/-!
# Other queues in place of the list

`Implements discipline Stands` says what the five overrides of a scheduler
must do for its queue to stand for the list of `ListScheduler`: insertion
behind all events that are not later, removal of a queued event, search by
number and removal of the first event.  The overrides may rely on what
`Scheduler` guarantees, that an event inserted has the largest number and that
the event to cancel is queued.

A discipline that implements the list answers every list of calls as the list
does (`Implements.simulate_eq`).  The number `left` in `Stands` is how many
events may still be inserted, and `Room` says for which lists the queue has
room.
-/

namespace NetworkingLab.Simulator

open NetworkingLab.Foundation.Machines

variable
    {Address Time Handler Queue : Type*} [DecidableEq Address]
    [LinearOrder Time]

omit [DecidableEq Address] [LinearOrder Time] in
/-- However a search goes about it, it finds the one event of a number. -/
theorem find?_eq_of_search
    {events : Memory Address Time Handler} {list : List Address}
    {uid : Int} {found : Option Address}
    (distinct : ∀ e ∈ list, ∀ other ∈ list,
      (events e).uid = (events other).uid → e = other)
    (sound : ∀ e, found = some e → e ∈ list ∧ (events e).uid = uid)
    (complete : found = none → ∀ e ∈ list, (events e).uid ≠ uid) :
    list.find? (fun e => (events e).uid = uid) = found := by
  cases found with
  | none =>
      rw [List.find?_eq_none]
      intro e member
      simpa using complete rfl e member
  | some e =>
      rcases sound e rfl with ⟨member, number⟩
      cases first : list.find? fun e => (events e).uid = uid with
      | none =>
          have absent := List.find?_eq_none.mp first e member
          exact (absent (decide_eq_true number)).elim
      | some other =>
          have same : (events other).uid = uid := by
            simpa using List.find?_some first
          rw [distinct other (List.mem_of_find?_eq_some first) e member
            (same.trans number.symm)]

/-- The overrides keep a queue that stands for a list of events. -/
structure Implements
    (discipline : Discipline Address Time Handler Queue)
    (Room : List Address → Prop)
    (Stands : Nat → Memory Address Time Handler → Queue →
      List Address → Prop) : Prop where
  congr :
    ∀ {left : Nat} {events later : Memory Address Time Handler}
      {queue : Queue} {list : List Address},
      (∀ e ∈ list, later e = events e) →
      Stands left events queue list → Stands left later queue list
  insert :
    ∀ {left : Nat} {events : Memory Address Time Handler}
      {queue : Queue} {list : List Address} {e : Address},
      Stands (left + 1) events queue list → Ordered events list →
      Room (ListScheduler.insert events e list) → e ∉ list →
      (∀ other ∈ list, (events other).uid < (events e).uid) →
      Stands left events (discipline.insert events e queue)
        (ListScheduler.insert events e list)
  cancel :
    ∀ {left : Nat} {events : Memory Address Time Handler}
      {queue : Queue} {list : List Address} {e : Address},
      Stands left events queue list → Ordered events list →
      e ∈ list → 0 < (events e).uid →
      ∃ rest,
        discipline.cancel events e queue =
            .ok (Function.update events e (events e).retire, rest) ∧
          Stands left events rest (list.erase e)
  notQueued :
    ∀ (events : Memory Address Time Handler) (queue : Queue)
      {e : Address}, (events e).uid ≤ 0 →
      discipline.cancel events e queue = .ok (events, queue)
  lookup :
    ∀ {left : Nat} {events : Memory Address Time Handler}
      {queue : Queue} {list : List Address} (uid : Int),
      Stands left events queue list →
      (∀ e ∈ list, ∀ other ∈ list,
        (events e).uid = (events other).uid → e = other) →
      ∃ later,
        discipline.lookup events uid queue =
            (list.find? fun e => (events e).uid = uid, later) ∧
          Stands left events later list
  deque_nil :
    ∀ {left : Nat} {events : Memory Address Time Handler}
      {queue : Queue}, Stands left events queue [] →
      ∃ later, discipline.deque queue = (none, later) ∧
        Stands left events later []
  deque_cons :
    ∀ {left : Nat} {events : Memory Address Time Handler}
      {queue : Queue} {p : Address} {rest : List Address},
      Stands left events queue (p :: rest) →
      Ordered events (p :: rest) →
      ∃ later, discipline.deque queue = (some p, later) ∧
        Stands left events later rest
  head :
    ∀ {left : Nat} {events : Memory Address Time Handler}
      {queue : Queue} {list : List Address},
      Stands left events queue list → Ordered events list →
      discipline.head queue = list.head?

/-- Whether a call may insert an event. -/
def Call.inserts : Call Address Time Handler → Bool
  | .schedule _ _ _ => true
  | _ => false

omit [DecidableEq Address] [LinearOrder Time] in
theorem countP_inserts_cons
    {call : Call Address Time Handler}
    {calls : List (Call Address Time Handler)}
    (other : call.inserts = false) :
    (call :: calls).countP Call.inserts = calls.countP Call.inserts :=
  List.countP_cons_of_neg (by simp [other])

/-- There is room for the list as it is and behind each of the calls. -/
def Roomy [Zero Time] [Add Time] (Room : List Address → Prop)
    (calls : List (Call Address Time Handler))
    (list : ListState Address Time Handler) : Prop :=
  ∀ early, early <+: calls →
    ∀ state, after listPerform list early = some state → Room state.queue

theorem Roomy.next
    [Zero Time] [Add Time] {Room : List Address → Prop}
    {call : Call Address Time Handler}
    {calls : List (Call Address Time Handler)}
    {list next : ListState Address Time Handler}
    {reply : Reply Address Time Handler}
    (roomy : Roomy Room (call :: calls) list)
    (taken : listPerform list call = .ok (reply, next)) :
    Roomy Room calls next := by
  intro early front state reached
  apply roomy (call :: early) (List.cons_prefix_cons.mpr ⟨rfl, front⟩)
  rw [after_answered taken]
  exact reached

/-- Two schedulers that differ in their queues only. -/
structure Alike
    (Stands : Nat → Memory Address Time Handler → Queue →
      List Address → Prop)
    (calls : List (Call Address Time Handler))
    (scheduler : Scheduler Address Time Handler Queue)
    (list : ListState Address Time Handler) : Prop where
  clock : scheduler.clock = list.clock
  halted : scheduler.halted = list.halted
  uid : scheduler.uid = list.uid
  events : scheduler.events = list.events
  queue : Stands (calls.countP Call.inserts) list.events
    scheduler.queue list.queue
  inv : QueueInv list

namespace Implements

variable
    {discipline : Discipline Address Time Handler Queue}
    {Room : List Address → Prop}
    {Stands : Nat → Memory Address Time Handler → Queue →
      List Address → Prop}

/-- Booking an event keeps the queue in the place of the list. -/
theorem book
    (implements : Implements discipline Room Stands)
    {left : Nat} {queue : Queue} {list : ListState Address Time Handler}
    (stands : Stands (left + 1) list.events queue list.queue)
    (inv : QueueInv list) {e : Address} {event : Event Time Handler}
    (room : Room (ListScheduler.insert
      (Function.update list.events e event) e list.queue))
    (free : e ∉ list.queue) (more : 0 < list.uid)
    (next : event.uid = list.uid) :
    Stands left (Function.update list.events e event)
      (discipline.insert (Function.update list.events e event) e queue)
      (ListScheduler.insert (Function.update list.events e event) e
        list.queue) := by
  have others : ∀ other ∈ list.queue,
      Function.update list.events e event other = list.events other :=
    fun other queued => QueueInv.update_of_mem free queued _
  apply implements.insert (implements.congr others stands)
    (inv.ordered.congr others) room free
  intro other queued
  rw [others other queued, Function.update_self, next]
  exact inv.fresh more other

/-- The event taken out may be overwritten. -/
theorem retire
    (implements : Implements discipline Room Stands)
    {left : Nat} {queue : Queue} {list : ListState Address Time Handler}
    (inv : QueueInv list) {e : Address} {event : Event Time Handler}
    (stands : Stands left list.events queue (list.queue.erase e)) :
    Stands left (Function.update list.events e event) queue
      (list.queue.erase e) := by
  apply implements.congr _ stands
  intro other member
  exact Function.update_of_ne
    (inv.ordered.nodup.mem_erase_iff.mp member).1 _ _

variable [Zero Time] [Add Time]

/-- One call: the answers are the same, and the schedulers stay alike. -/
theorem perform_agree
    (implements : Implements discipline Room Stands)
    (call : Call Address Time Handler)
    (calls : List (Call Address Time Handler))
    (scheduler : Scheduler Address Time Handler Queue)
    (list : ListState Address Time Handler)
    (alike : Alike Stands (call :: calls) scheduler list)
    (room : ∀ reply next, listPerform list call = .ok (reply, next) →
      Room next.queue) :
    Agree (Alike Stands calls)
      (Scheduler.perform discipline scheduler call)
      (listPerform list call) := by
  rcases scheduler with ⟨clock, halted, uid, events, queue⟩
  rcases alike with ⟨rfl, rfl, rfl, rfl, stands, inv⟩
  simp only at stands
  cases call with
  | schedule handler e delay =>
      rw [List.countP_cons_of_pos rfl] at stands
      cases handler with
      | none => exact .refused _
      | some handler =>
          simp only [listPerform, Scheduler.perform, Scheduler.schedule]
            at room ⊢
          by_cases queued : 0 < (list.events e).uid
          · simp only [if_pos queued, Except.map]
            exact .refused _
          · by_cases exhausted : list.uid < 0
            · simp only [if_neg queued, if_pos exhausted, Except.map]
              exact .refused _
            · have more : 0 < list.uid := by
                have := inv.numbered
                omega
              have free : e ∉ list.queue := by
                rwa [inv.queued]
              simp only [if_neg queued, if_neg exhausted, Except.map]
                at room ⊢
              exact .answered _
                ⟨rfl, rfl, rfl, rfl,
                  implements.book stands inv (room _ _ rfl) free more rfl,
                  inv.book free more rfl _ _⟩
  | cancel e =>
      rw [countP_inserts_cons rfl] at stands
      simp only [listPerform, Scheduler.perform, listScheduler,
        ListScheduler.cancel]
      by_cases queued : e ∈ list.queue
      · have positive := (inv.queued e).mp queued
        rcases implements.cancel stands inv.ordered queued positive with
          ⟨rest, taken, kept⟩
        simp only [taken, if_neg (not_le.mpr positive), if_pos positive,
          ListScheduler.remove_eq_erase queued, Except.map]
        exact .answered _
          ⟨rfl, rfl, rfl, rfl, implements.retire inv kept,
            inv.retire queued _ _⟩
      · have absent : (list.events e).uid ≤ 0 := by
          rw [inv.queued] at queued
          omega
        simp only [implements.notQueued _ _ absent, if_pos absent,
          if_neg (not_lt.mpr absent), Except.map]
        exact .answered _ ⟨rfl, rfl, rfl, rfl, stands, inv⟩
  | lookup number =>
      rw [countP_inserts_cons rfl] at stands
      rcases implements.lookup number stands inv.distinct with
        ⟨later, found, kept⟩
      simp only [listPerform, Scheduler.perform, found]
      exact .answered _ ⟨rfl, rfl, rfl, rfl, kept, inv⟩
  | head =>
      rw [countP_inserts_cons rfl] at stands
      simp only [listPerform, Scheduler.perform,
        implements.head stands inv.ordered]
      exact .answered _ ⟨rfl, rfl, rfl, rfl, stands, inv⟩
  | halt =>
      rw [countP_inserts_cons rfl] at stands
      exact .answered _
        ⟨rfl, rfl, rfl, rfl, stands, inv.step (.switched .halt true)⟩
  | resume =>
      rw [countP_inserts_cons rfl] at stands
      exact .answered _
        ⟨rfl, rfl, rfl, rfl, stands, inv.step (.switched .resume false)⟩
  | construct e =>
      rw [countP_inserts_cons rfl] at stands
      simp only [listPerform, Scheduler.perform]
      by_cases queued : 0 < (list.events e).uid
      · simp only [if_pos queued]
        exact .answered _ ⟨rfl, rfl, rfl, rfl, stands, inv⟩
      · have free : e ∉ list.queue := by
          rwa [inv.queued]
        simp only [if_neg queued]
        exact .answered _
          ⟨rfl, rfl, rfl, rfl,
            implements.congr
              (fun other member => QueueInv.update_of_mem free member _)
              stands,
            inv.overwrite free (le_refl 0) _ _⟩
  | turn =>
      rw [countP_inserts_cons rfl] at stands
      simp only [listPerform, Scheduler.perform, Scheduler.turn]
      by_cases halted : list.halted = true
      · simp only [if_pos halted]
        exact .answered _ ⟨rfl, rfl, rfl, rfl, stands, inv⟩
      · simp only [if_neg halted]
        have ordered := inv.ordered
        cases listed : list.queue with
        | nil =>
            rw [listed] at stands
            rcases implements.deque_nil stands with ⟨later, taken, kept⟩
            rw [← listed] at kept
            simp only [taken, listScheduler, ListScheduler.deque]
            rw [← listed]
            exact .answered _ ⟨rfl, rfl, rfl, rfl, kept, inv⟩
        | cons p rest =>
            rw [listed] at stands ordered
            rcases implements.deque_cons stands ordered with
              ⟨later, taken, kept⟩
            simp only [taken, listScheduler, ListScheduler.deque,
              Scheduler.dispatch]
            by_cases past : (list.events p).time < list.clock
            · simp only [if_pos past, Except.map]
              exact .refused _
            · simp only [if_neg past, Except.map]
              have left := inv.retire (e := p) (by simp [listed])
                (list.events p).time list.halted
              rw [listed, List.erase_cons_head] at left
              have others : Stands (calls.countP Call.inserts)
                  (Function.update list.events p
                    (list.events p).retire) later
                  (list.queue.erase p) := by
                apply implements.retire inv
                rw [listed, List.erase_cons_head]
                exact kept
              rw [listed, List.erase_cons_head] at others
              exact .answered _ ⟨rfl, rfl, rfl, rfl, others, left⟩

/--
A discipline that implements the list cannot be told from it by any calls
between which it has room.
-/
theorem simulate_eq
    (implements : Implements discipline Room Stands)
    (calls : List (Call Address Time Handler))
    (roomy : Roomy Room calls (Scheduler.start listScheduler))
    (initial : Stands (calls.countP Call.inserts)
      (fun _ => Scheduler.constructed) discipline.empty []) :
    simulate discipline calls = simulate listScheduler calls := by
  apply answers_eq fun calls scheduler list =>
    Alike Stands calls scheduler list ∧ Roomy Room calls list
  · rintro call calls scheduler list ⟨alike, roomy⟩
    apply (implements.perform_agree call calls scheduler list alike
      fun _ next taken =>
        roomy.next taken [] List.nil_prefix next rfl).and
    exact fun _ _ taken => roomy.next taken
  · exact ⟨⟨rfl, rfl, rfl, rfl, initial, QueueInv.start⟩, roomy⟩

end Implements

end NetworkingLab.Simulator
