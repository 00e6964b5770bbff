import Mathlib.Data.List.Infix
import NetworkingLab.Simulator.Heap
import NetworkingLab.Simulator.Refinement

/-!
# The heap scheduler

`HeapScheduler` keeps the events in a `Heap`, by time and, among events of one
time, by the number of the insertion.  That number is an `unsigned int`, so
the heap stands for the list as long as no more than `2 ^ 32` events are
inserted and fewer than `2 ^ 31` are queued at a time
(`heap_simulates_list`).  Behind that the count starts again at 0 and an event
goes in front of an earlier one of the same time (`wrapped_tie_reversed`).
-/

namespace NetworkingLab.Simulator

open NetworkingLab.Foundation.BinaryHeap

variable
    {Address Time Handler : Type*} [DecidableEq Address]
    [LinearOrder Time]

namespace HeapScheduler

/-- Where an iteration stands: behind a null pointer it is over. -/
def unvisited (heap : Heap Time Address) : Option Address → Nat
  | none => 0
  | some _ => heap.hSize - heap.hIter + 1

/-- The loop of `lookup`, at the pointer it has reached. -/
def search (events : Memory Address Time Handler) (uid : Int)
    (heap : Heap Time Address) (pointer : Option Address) :
    Option Address × Heap Time Address :=
  match pointer with
  | none => (none, heap)
  | some e =>
      if (events e).uid = uid then
        (some e, heap)
      else
        search events uid heap.heapIter.2 heap.heapIter.1
termination_by unvisited heap pointer
decreasing_by
  simp only [Heap.heapIter]
  split
  · simp [unvisited]
  · next more =>
      cases (heap.hElems heap.hIter).heElem with
      | none => simp [unvisited]
      | some e =>
          simp only [unvisited]
          omega

/-- `lookup`. -/
def lookup (events : Memory Address Time Handler) (uid : Int)
    (heap : Heap Time Address) : Option Address × Heap Time Address :=
  search events uid heap.heapIterInit.2 heap.heapIterInit.1

/-- `cancel`; the result of `heap_delete` is dropped. -/
def cancel (events : Memory Address Time Handler) (e : Address)
    (heap : Heap Time Address) :
    Except Abort (Memory Address Time Handler × Heap Time Address) :=
  if (events e).uid ≤ 0 then
    .ok (events, heap)
  else
    .ok (Function.update events e (events e).retire,
      (heap.heapDelete e).2)

end HeapScheduler

/-- `class HeapScheduler`. -/
def heapScheduler [Zero Time] :
    Discipline Address Time Handler (Heap Time Address) where
  empty := Heap.create
  insert events e := Heap.heapInsert (events e).time e
  cancel := HeapScheduler.cancel
  lookup := HeapScheduler.lookup
  deque := Heap.heapExtractMin
  head := Heap.heapMin

/-! ## The heap stands for the list -/

namespace HeapScheduler

/-- The heap element of an event inserted under a number. -/
def entry (events : Memory Address Time Handler)
    (stamp : Address → Nat) (e : Address) : HeapElem Time Address :=
  ⟨(events e).time, stamp e, some e⟩

/-- The events with the numbers of their insertions. -/
def restamp (events : Memory Address Time Handler)
    (stamp : Address → Nat) : Memory Address Time Handler :=
  fun e => { events e with uid := stamp e }

/-- The heap holds the events of the list, in the list's order. -/
structure Holds (events : Memory Address Time Handler)
    (heap : Heap Time Address) (list : List Address)
    (stamp : Address → Nat) (inserted : Nat) : Prop where
  shaped : heap.Shaped
  same : heap.elements.Perm (list.map (entry events stamp))
  ordered : Ordered (restamp events stamp) list
  stamped : ∀ e ∈ list, stamp e < inserted
  counted : heap.hSKey = inserted % 2 ^ 32

/-- The heap stands for the list while insertions are left. -/
def Stands (left : Nat) (events : Memory Address Time Handler)
    (heap : Heap Time Address) (list : List Address) : Prop :=
  ∃ stamp inserted,
    Holds events heap list stamp inserted ∧ inserted + left ≤ 2 ^ 32

omit [DecidableEq Address] in
theorem entry_keys_lt
    {events : Memory Address Time Handler} {stamp : Address → Nat}
    {first second : Address}
    (before : (restamp events stamp first).stamp <
      (restamp events stamp second).stamp) :
    (entry events stamp first).keys < (entry events stamp second).keys := by
  apply Prod.Lex.toLex_lt_toLex.mpr
  apply (Prod.Lex.toLex_lt_toLex.mp before).imp_right
  rintro ⟨same, less⟩
  exact ⟨same, Int.ofNat_lt.mp less⟩

omit [DecidableEq Address] in
/-- The list is not interested in the numbers. -/
theorem insert_restamp
    (events : Memory Address Time Handler) (stamp : Address → Nat)
    (e : Address) (list : List Address) :
    ListScheduler.insert (restamp events stamp) e list =
      ListScheduler.insert events e list := by
  induction list with
  | nil => rfl
  | cons p rest induction =>
      rw [ListScheduler.insert, ListScheduler.insert, induction]
      rfl

namespace Holds

variable
    {events : Memory Address Time Handler} {heap : Heap Time Address}
    {list : List Address} {stamp : Address → Nat} {inserted : Nat}

omit [DecidableEq Address] in
theorem congr
    (holds : Holds events heap list stamp inserted)
    {later : Memory Address Time Handler} {others : Address → Nat}
    (same : ∀ e ∈ list, later e = events e)
    (stamps : ∀ e ∈ list, others e = stamp e) :
    Holds later heap list others inserted := by
  refine ⟨holds.shaped, ?_, ?_, ?_, holds.counted⟩
  · have entries : ∀ e ∈ list,
        entry later others e = entry events stamp e := by
      intro e member
      rw [entry, entry, same e member, stamps e member]
    rw [List.map_congr_left entries]
    exact holds.same
  · apply holds.ordered.congr
    intro e member
    rw [restamp, restamp, same e member, stamps e member]
  · intro e member
    rw [stamps e member]
    exact holds.stamped e member

omit [DecidableEq Address] in
theorem size_eq
    (holds : Holds events heap list stamp inserted) :
    heap.hSize = list.length := by
  have length := holds.same.length_eq
  simpa [Heap.elements, contents] using length

omit [DecidableEq Address] in
/-- Every place in use holds the entry of a listed event. -/
theorem listed
    (holds : Holds events heap list stamp inserted)
    {i : Nat} (inside : i < heap.hSize) :
    ∃ e ∈ list, heap.hElems i = entry events stamp e := by
  have member := holds.same.mem_iff.mp
    (mem_contents.mpr ⟨i, inside, rfl⟩)
  rcases List.mem_map.mp member with ⟨e, listed, same⟩
  exact ⟨e, listed, same.symm⟩

omit [DecidableEq Address] in
/-- Every listed event has its place. -/
theorem placed
    (holds : Holds events heap list stamp inserted)
    {e : Address} (listed : e ∈ list) :
    ∃ i < heap.hSize, heap.hElems i = entry events stamp e :=
  mem_contents.mp (holds.same.mem_iff.mpr (List.mem_map_of_mem listed))

omit [DecidableEq Address] in
/-- The root is the entry of the first event. -/
theorem root
    {p : Address} {rest : List Address}
    (holds : Holds events heap (p :: rest) stamp inserted) :
    heap.hElems 0 = entry events stamp p := by
  have inside : 0 < heap.hSize := by
    rw [holds.size_eq]
    exact Nat.succ_pos _
  rcases holds.listed inside with ⟨e, member, here⟩
  rcases List.mem_cons.mp member with rfl | later
  · exact here
  · rcases holds.placed List.mem_cons_self with ⟨i, small, there⟩
    have first := HeapOrdered.root_le _ holds.shaped.ordered small
    have before := entry_keys_lt
      ((List.pairwise_cons.mp holds.ordered).1 e later)
    rw [here, there] at first
    exact absurd before (not_lt.mpr first)

theorem insert
    (holds : Holds events heap list stamp inserted)
    (room : inserted < 2 ^ 32) (few : list.length + 1 < 2 ^ 31)
    {e : Address} (free : e ∉ list) :
    Holds events (heap.heapInsert (events e).time e)
      (ListScheduler.insert events e list)
      (Function.update stamp e inserted) (inserted + 1) := by
  have number : heap.hSKey = inserted := by
    rw [holds.counted, Nat.mod_eq_of_lt room]
  have kept : ∀ other ∈ list,
      Function.update stamp e inserted other = stamp other := by
    intro other member
    apply Function.update_of_ne
    rintro rfl
    exact free member
  have old := holds.congr (fun _ _ => rfl) kept
  rw [← holds.size_eq] at few
  rcases Heap.heapInsert_spec holds.shaped few (events e).time e with
    ⟨shaped, added⟩
  refine ⟨shaped, ?_, ?_, ?_, ?_⟩
  · have new : (⟨(events e).time, heap.hSKey, some e⟩ :
        HeapElem Time Address) =
          entry events (Function.update stamp e inserted) e := by
      rw [entry, Function.update_self, number]
    rw [new] at added
    exact added.trans ((old.same.cons _).trans
      ((ListScheduler.insert_perm events e list).map _).symm)
  · rw [← insert_restamp events (Function.update stamp e inserted)]
    apply ListScheduler.insert_ordered old.ordered
    intro other member
    simp only [restamp, kept other member, Function.update_self]
    exact_mod_cast holds.stamped other member
  · intro other member
    rcases ListScheduler.mem_insert.mp member with rfl | listed
    · rw [Function.update_self]
      exact Nat.lt_succ_self _
    · rw [kept other listed]
      exact (holds.stamped other listed).trans (Nat.lt_succ_self _)
  · simp only [Heap.heapInsert, Heap.unsigned, holds.counted]
    omega

omit [DecidableEq Address] in
/-- One element less, and its event taken from the list. -/
theorem shrink
    (holds : Holds events heap list stamp inserted)
    {elems : Nat → HeapElem Time Address} {size : Nat}
    {removed : HeapElem Time Address} {rest : List Address}
    (smaller : heap.hSize = size + 1)
    (ordered : HeapOrdered HeapElem.keys elems size)
    (left : heap.elements.Perm (removed :: contents elems size))
    (others : (list.map (entry events stamp)).Perm
      (removed :: rest.map (entry events stamp)))
    (kept : rest.Sublist list) :
    Holds events { heap with hElems := elems, hSize := size } rest stamp
      inserted := by
  refine ⟨⟨ordered, ?_, holds.shaped.block, ?_⟩, ?_,
    holds.ordered.sublist kept,
    fun e member => holds.stamped e (kept.subset member), holds.counted⟩
  · have fits := holds.shaped.fits
    simp only
    omega
  · have few := holds.shaped.few
    simp only
    omega
  · exact (List.perm_cons _).mp
      (left.symm.trans (holds.same.trans others))

end Holds

/-! ## Search -/

omit [LinearOrder Time] [DecidableEq Address] in
/-- A search only moves the iterator. -/
theorem search_heap
    (events : Memory Address Time Handler) (uid : Int)
    (heap : Heap Time Address) (pointer : Option Address) :
    ∃ iter, (search events uid heap pointer).2 =
      { heap with hIter := iter } := by
  fun_induction search events uid heap pointer with
  | case1 heap => exact ⟨heap.hIter, rfl⟩
  | case2 heap e number => exact ⟨heap.hIter, rfl⟩
  | case3 heap e other induction =>
      rcases induction with ⟨iter, same⟩
      refine ⟨iter, same.trans ?_⟩
      rw [Heap.heapIter]
      split <;> rfl

omit [LinearOrder Time] [DecidableEq Address] in
theorem search_sound
    {events : Memory Address Time Handler} {uid : Int}
    {heap : Heap Time Address} {pointer : Option Address} {e : Address}
    (found : (search events uid heap pointer).1 = some e) :
    (events e).uid = uid ∧
      (pointer = some e ∨
        ∃ i < heap.hSize, (heap.hElems i).heElem = some e) := by
  fun_induction search events uid heap pointer with
  | case1 heap => cases found
  | case2 heap p number =>
      cases found
      exact ⟨number, Or.inl rfl⟩
  | case3 heap p other induction =>
      rcases induction found with ⟨number, place⟩
      refine ⟨number, Or.inr ?_⟩
      rw [Heap.heapIter] at place
      split at place
      · rcases place with none | inside
        · cases none
        · exact inside
      · next more =>
          rcases place with next | inside
          · exact ⟨heap.hIter, Nat.lt_of_not_le more, next⟩
          · exact inside

omit [LinearOrder Time] [DecidableEq Address] in
/-- A search without success has seen everything from the pointer on. -/
theorem search_complete
    {events : Memory Address Time Handler} {uid : Int}
    {heap : Heap Time Address} {pointer : Option Address}
    (full : ∀ i < heap.hSize, (heap.hElems i).heElem ≠ none)
    (absent : (search events uid heap pointer).1 = none)
    (valid : pointer ≠ none) :
    (∀ e, pointer = some e → (events e).uid ≠ uid) ∧
      ∀ i, heap.hIter ≤ i → i < heap.hSize →
        ∀ e, (heap.hElems i).heElem = some e → (events e).uid ≠ uid := by
  fun_induction search events uid heap pointer with
  | case1 heap => exact absurd rfl valid
  | case2 heap p number => cases absent
  | case3 heap p other induction =>
      refine ⟨?_, ?_⟩
      · rintro e same
        cases same
        exact other
      · intro i reached inside e here
        have more : ¬ heap.hSize ≤ heap.hIter := by omega
        rw [Heap.heapIter, if_neg more] at induction absent
        rcases induction full absent (full _ (by omega)) with
          ⟨first, later⟩
        by_cases same : i = heap.hIter
        · rw [same] at here
          exact first e here
        · exact later i (by simp only; omega) inside e here

namespace Holds

variable
    {events : Memory Address Time Handler} {heap : Heap Time Address}
    {list : List Address} {stamp : Address → Nat} {inserted : Nat}

omit [DecidableEq Address] in
theorem iterated
    (holds : Holds events heap list stamp inserted) (iter : Nat) :
    Holds events { heap with hIter := iter } list stamp inserted :=
  ⟨⟨holds.shaped.ordered, holds.shaped.fits, holds.shaped.block,
      holds.shaped.few⟩,
    holds.same, holds.ordered, holds.stamped, holds.counted⟩

omit [DecidableEq Address] in
/-- The pointer at a place is that of a listed event. -/
theorem listed_of_pointer
    (holds : Holds events heap list stamp inserted)
    {i : Nat} (inside : i < heap.hSize) {e : Address}
    (here : (heap.hElems i).heElem = some e) : e ∈ list := by
  rcases holds.listed inside with ⟨other, listed, same⟩
  rw [same] at here
  cases here
  exact listed

omit [DecidableEq Address] in
theorem lookup_sound
    (holds : Holds events heap list stamp inserted)
    {uid : Int} {e : Address}
    (found : (HeapScheduler.lookup events uid heap).1 = some e) :
    e ∈ list ∧ (events e).uid = uid := by
  rcases search_sound found with ⟨number, first | ⟨i, inside, here⟩⟩
  · simp only [Heap.heapIterInit, Heap.heapMin] at first
    split at first
    · next nonempty =>
        exact ⟨holds.listed_of_pointer nonempty first, number⟩
    · cases first
  · exact ⟨holds.listed_of_pointer inside here, number⟩

omit [DecidableEq Address] in
theorem lookup_complete
    (holds : Holds events heap list stamp inserted)
    {uid : Int}
    (absent : (HeapScheduler.lookup events uid heap).1 = none) :
    ∀ e ∈ list, (events e).uid ≠ uid := by
  intro e member
  rcases holds.placed member with ⟨i, inside, here⟩
  have pointer : (heap.hElems i).heElem = some e := by
    rw [here]
    rfl
  have full : ∀ j < heap.hSize, (heap.hElems j).heElem ≠ none := by
    intro j small
    rcases holds.listed small with ⟨other, _, same⟩
    rw [same]
    exact Option.some_ne_none other
  have nonempty : 0 < heap.hSize := by omega
  have first : heap.heapMin = (heap.hElems 0).heElem := if_pos nonempty
  have valid : heap.heapMin ≠ none := by
    rw [first]
    exact full 0 nonempty
  rcases @search_complete _ _ _ events uid heap.heapIterInit.2
      heap.heapMin full absent valid with ⟨root, others⟩
  by_cases top : i = 0
  · subst top
    exact root e (first.trans pointer)
  · exact others i (Nat.one_le_iff_ne_zero.mpr top) inside e pointer

end Holds

end HeapScheduler

open HeapScheduler in
theorem heapScheduler_implements [Zero Time] :
    Implements (heapScheduler :
        Discipline Address Time Handler (Heap Time Address))
      (fun list => list.length < 2 ^ 31) HeapScheduler.Stands where
  congr := by
    rintro left events later heap list same
      ⟨stamp, inserted, holds, room⟩
    exact ⟨stamp, inserted, holds.congr same (fun _ _ => rfl), room⟩
  insert := by
    rintro left events heap list e ⟨stamp, inserted, holds, room⟩ _ few
      free _
    rw [(ListScheduler.insert_perm events e list).length_eq,
      List.length_cons] at few
    exact ⟨_, _, holds.insert (by omega) few free, by omega⟩
  cancel := by
    rintro left events heap list e ⟨stamp, inserted, holds, room⟩ _ queued
      positive
    rcases holds.placed queued with ⟨i, inside, here⟩
    have pointer : (heap.hElems i).heElem = some e := by
      rw [here]
      rfl
    rcases Heap.heapDelete_spec holds.shaped inside pointer with
      ⟨elems, size, removed, taken, smaller, ordered, which, others⟩
    -- the element deleted is the entry of `e`
    have member : removed ∈ list.map (entry events stamp) :=
      (others.symm.trans holds.same).subset List.mem_cons_self
    rcases List.mem_map.mp member with ⟨other, _, rfl⟩
    cases which
    refine ⟨{ heap with hElems := elems, hSize := size }, ?_,
      stamp, inserted, ?_, room⟩
    · simp only [heapScheduler, HeapScheduler.cancel,
        if_neg (not_le.mpr positive), taken]
    · exact holds.shrink smaller ordered others
        ((List.perm_cons_erase queued).map _) List.erase_sublist
  notQueued events heap e absent := by
    simp only [heapScheduler, HeapScheduler.cancel, if_pos absent]
  lookup := by
    rintro left events heap list uid ⟨stamp, inserted, holds, room⟩ distinct
    rcases search_heap events uid heap.heapIterInit.2 heap.heapIterInit.1
      with ⟨iter, same⟩
    refine ⟨{ heap with hIter := iter }, ?_, stamp, inserted,
      holds.iterated iter, room⟩
    rw [find?_eq_of_search distinct (fun e => holds.lookup_sound)
      holds.lookup_complete]
    exact Prod.ext rfl same
  deque_nil := by
    rintro left events heap ⟨stamp, inserted, holds, room⟩
    have empty : heap.hSize = 0 := holds.size_eq
    refine ⟨heap, ?_, stamp, inserted, holds, room⟩
    simp only [heapScheduler, Heap.heapExtractMin, if_pos empty]
  deque_cons := by
    rintro left events heap p rest ⟨stamp, inserted, holds, room⟩ _
    have nonempty : heap.hSize = rest.length + 1 := holds.size_eq
    have loose := holds.shaped.ordered.loose
      (show 0 < heap.hSize by omega)
    rcases Heap.heapExtractMin_spec heap nonempty holds.shaped.few loose
      with
      ⟨elems, taken, ordered, others⟩
    have first := holds.root
    refine ⟨{ heap with hElems := elems, hSize := rest.length }, ?_,
      stamp, inserted, ?_, room⟩
    · simp only [heapScheduler, taken, first]
      rfl
    · exact holds.shrink nonempty ordered others
        (by rw [first]; exact .refl _) (List.sublist_cons_self _ _)
  head := by
    rintro left events heap list ⟨stamp, inserted, holds, room⟩ _
    have size := holds.size_eq
    cases list with
    | nil => simp [heapScheduler, Heap.heapMin, size]
    | cons p rest =>
        simp [heapScheduler, Heap.heapMin, size, holds.root, entry]

/--
The heap gives the same simulation as the list, for every list of calls that
schedules no more than `2 ^ 32` events and behind each of which fewer than
`2 ^ 31` are queued.
-/
theorem heap_simulates_list [Zero Time] [Add Time]
    (calls : List (Call Address Time Handler))
    (counted : calls.countP Call.inserts ≤ 2 ^ 32)
    (few : ∀ early, early <+: calls →
      ∀ state, simulated listScheduler early = some state →
        state.queue.length < 2 ^ 31) :
    simulate heapScheduler calls = simulate listScheduler calls := by
  apply heapScheduler_implements.simulate_eq calls few
  refine ⟨fun _ => 0, 0, ?_, by omega⟩
  exact ⟨Heap.create_shaped, .refl _, List.Pairwise.nil, by simp, rfl⟩

theorem heap_simulates_list_threeEvents :
    simulate heapScheduler threeEvents =
      simulate listScheduler threeEvents := by
  apply heap_simulates_list threeEvents (by decide)
  intro early front state reached
  have few : ∀ early ∈ threeEvents.inits,
      ∀ state ∈ simulated listScheduler early, state.queue.length ≤ 3 := by
    decide
  have three := few early ((List.mem_inits _ _).mpr front) state reached
  omega

omit [DecidableEq Address] in
open HeapScheduler in
/--
Where the count of insertions starts again, two events of one time change
places: the heap hands out the second one, the list the first.
-/
theorem wrapped_tie_reversed
    (events : Memory Address Time Handler) (heap : Heap Time Address)
    (list : List Address) (stamp : Address → Nat)
    (holds : Holds events heap list stamp (2 ^ 32 - 1))
    (few : list.length + 2 < 2 ^ 31)
    (first second : Address)
    (tie : (events first).time = (events second).time)
    (earliest : ∀ e ∈ list, (events first).time < (events e).time) :
    (((heap.heapInsert (events first).time first).heapInsert
          (events second).time second).heapExtractMin).1 = some second ∧
      (ListScheduler.deque (ListScheduler.insert events second
        (ListScheduler.insert events first list))).1 = some first := by
  refine ⟨?_, ?_⟩
  · rw [← holds.size_eq] at few
    rcases Heap.heapInsert_spec holds.shaped (by omega)
        (events first).time first with
      ⟨shaped, one⟩
    have larger : (heap.heapInsert (events first).time first).hSize =
        heap.hSize + 1 :=
      Heap.unsigned_of_lt (by omega)
    rcases Heap.heapInsert_spec shaped (by omega) (events second).time
        second with
      ⟨ordered, two⟩
    have last : heap.hSKey = 2 ^ 32 - 1 := holds.counted
    have wrapped :
        (heap.heapInsert (events first).time first).hSKey = 0 := by
      simp [Heap.heapInsert, Heap.unsigned, last]
    rw [wrapped] at two
    generalize heap.heapInsert (events first).time first = middle at *
    generalize both :
      middle.heapInsert (events second).time second = final at *
    -- the key of `second` is below all others
    have least : ∀ other ∈ final.elements,
        other.heElem = some second ∨
          (⟨(events second).time, 0, some second⟩ :
            HeapElem Time Address).keys < other.keys := by
      intro other member
      rcases List.mem_cons.mp (two.subset member) with rfl | rest
      · exact Or.inl rfl
      · right
        apply Prod.Lex.toLex_lt_toLex.mpr
        rcases List.mem_cons.mp (one.subset rest) with rfl | old
        · exact Or.inr ⟨tie.symm, by simp [last]⟩
        · rcases List.mem_map.mp (holds.same.subset old) with
            ⟨e, listed, rfl⟩
          left
          simp only [entry, ← tie]
          exact earliest e listed
    have nonempty : 0 < final.hSize := by
      have size := two.length_eq
      simp only [Heap.elements, contents, List.length_map,
        List.length_range, List.length_cons] at size
      omega
    have root : final.hElems 0 ∈ final.elements :=
      mem_contents.mpr ⟨0, nonempty, rfl⟩
    rcases mem_contents.mp (two.symm.subset List.mem_cons_self) with
      ⟨i, inside, here⟩
    have before := HeapOrdered.root_le _ ordered.ordered inside
    rw [here] at before
    rw [Heap.heapExtractMin, if_neg (by omega)]
    rcases least _ root with same | later
    · exact same
    · exact absurd later (not_lt.mpr before)
  · have front : ListScheduler.insert events first list = first :: list := by
      cases list with
      | nil => rfl
      | cons p rest =>
          rw [ListScheduler.insert,
            if_pos (earliest p List.mem_cons_self)]
    rw [front, ListScheduler.insert, if_neg (by rw [tie]; exact lt_irrefl _)]
    rfl

open HeapScheduler in
/-- An empty heap behind `2 ^ 32 - 1` insertions. -/
theorem wrapped_tie_reversed_empty :
    (((({ Heap.create with hSKey := 2 ^ 32 - 1 } :
          Heap Int Nat).heapInsert 5 0).heapInsert 5 1).heapExtractMin).1 =
        some 1 ∧
      (ListScheduler.deque (ListScheduler.insert
        (fun _ : Nat => (⟨some (), 5, 1⟩ : Event Int Unit)) 1
        (ListScheduler.insert (fun _ => ⟨some (), 5, 1⟩) 0 []))).1 =
          some 0 :=
  wrapped_tie_reversed (fun _ : Nat => (⟨some (), 5, 1⟩ : Event Int Unit))
    { Heap.create with hSKey := 2 ^ 32 - 1 } [] (fun _ => 0)
    ⟨⟨fun i _ inside => absurd inside (Nat.not_lt_zero i),
        Nat.zero_le _, Nat.succ_pos 31, Nat.two_pow_pos 31⟩,
      .refl _, List.Pairwise.nil, by simp, rfl⟩
    (by simp) 0 1 rfl (by simp)

end NetworkingLab.Simulator
