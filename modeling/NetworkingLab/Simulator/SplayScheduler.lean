import NetworkingLab.Foundation.BinaryTree
import NetworkingLab.Simulator.Refinement

/-!
# The splay tree scheduler

`SplayScheduler` keeps the events in a binary search tree by time.  `insert`
splays top-down and makes the new event the root; `deque` takes the leftmost
event and shortens the path to it by zig-zig rotations; `cancel` searches by
time and, among events of one time, by number, and puts the successor in the
place of the event.  None of the operations is like those of the list, yet the
tree read from left to right always is the list
(`splayScheduler_implements`), so no simulation can tell the two apart.
-/

namespace NetworkingLab.Simulator

open NetworkingLab.Foundation.BinaryTree
open NetworkingLab.Foundation.BinaryTree.BinTree

variable
    {Address Time Handler : Type*} [DecidableEq Address]
    [LinearOrder Time]

/-- The variables of `SplayScheduler`; the events are their own nodes. -/
structure SplayQueue (Address : Type*) where
  root : BinTree Address
  qsize : Int
  lookupUid : Int

namespace SplayScheduler

/--
The loop of `insert`, with the nodes linked so far to the left and to the
right tree: `ROTATE` when the next node lies on the same side, then `LINK`.
-/
def splay (events : Memory Address Time Handler) (time : Time) :
    BinTree Address → List (BinTree Address × Address) →
      List (Address × BinTree Address) → BinTree Address × BinTree Address
  | leaf, l, r => (closeLeft l leaf, closeRight r leaf)
  | node left t right, l, r =>
      if time < (events t).time then
        match left with
        | leaf => (closeLeft l leaf, closeRight r (node leaf t right))
        | node outer x inner =>
            if time < (events x).time then
              splay events time outer l ((x, node inner t right) :: r)
            else
              splay events time (node outer x inner) l ((t, right) :: r)
      else
        match right with
        | leaf => (closeLeft l (node left t leaf), closeRight r leaf)
        | node inner x outer =>
            if (events x).time ≤ time then
              splay events time outer ((node left t inner, x) :: l) r
            else
              splay events time (node inner x outer) ((left, t) :: l) r

/-- `insert`. -/
def insert (events : Memory Address Time Handler) (n : Address)
    (queue : SplayQueue Address) : SplayQueue Address :=
  match queue.root with
  | leaf =>
      { queue with root := node leaf n leaf, qsize := queue.qsize + 1 }
  | node left t right =>
      let trees := splay events (events n).time (node left t right) [] []
      { queue with
        root := node trees.1 n trees.2
        qsize := queue.qsize + 1 }

/-- `head`: the leftmost event. -/
def leftmost : BinTree Address → Option Address
  | leaf => none
  | node leaf t _ => some t
  | node (node left l right) _ _ => leftmost (node left l right)

/-- The loop of `deque` below the node `l` with these subtrees. -/
def dequeLeft :
    BinTree Address → Address → BinTree Address → Address × BinTree Address
  | leaf, l, lr => (l, lr)
  | node leaf ll llr, l, lr => (ll, node llr l lr)
  | node (node left lll right) ll llr, l, lr =>
      ((dequeLeft left lll right).1,
        node (dequeLeft left lll right).2 ll (node llr l lr))

/-- `deque`. -/
def deque (queue : SplayQueue Address) :
    Option Address × SplayQueue Address :=
  match queue.root with
  | leaf => (none, queue)
  | node leaf t right =>
      (some t, { queue with root := right, qsize := queue.qsize - 1 })
  | node (node ll l lr) t right =>
      (some (dequeLeft ll l lr).1,
        { queue with
          root := node (dequeLeft ll l lr).2 t right
          qsize := queue.qsize - 1 })

/-- The search of `cancel` and the removal of what it finds. -/
def remove (events : Memory Address Time Handler) (e : Address) :
    BinTree Address → Option (BinTree Address)
  | leaf => none
  | node left t right =>
      if t = e then
        some (join left right)
      else if (events t).time < (events e).time ∨
          (events e).time = (events t).time ∧
            (events t).uid < (events e).uid then
        (remove events e right).map fun rest => node left t rest
      else
        (remove events e left).map fun rest => node rest t right

/-- `cancel`. -/
def cancel (events : Memory Address Time Handler) (e : Address)
    (queue : SplayQueue Address) :
    Except Abort (Memory Address Time Handler × SplayQueue Address) :=
  if (events e).uid ≤ 0 then
    .ok (events, queue)
  else
    match remove events e queue.root with
    | none => .error .notInQueue
    | some root =>
        .ok (Function.update events e (events e).retire,
          { queue with root := root, qsize := queue.qsize - 1 })

/-- `uid_lookup`: the root before its left and its right subtree. -/
def uidLookup (events : Memory Address Time Handler) (uid : Int) :
    BinTree Address → Option Address
  | leaf => none
  | node left t right =>
      if (events t).uid = uid then
        some t
      else
        match uidLookup events uid left with
        | some res => some res
        | none => uidLookup events uid right

/-- `lookup`. -/
def lookup (events : Memory Address Time Handler) (uid : Int)
    (queue : SplayQueue Address) :
    Option Address × SplayQueue Address :=
  (uidLookup events uid queue.root, { queue with lookupUid := uid })

end SplayScheduler

/-- `class SplayScheduler`. -/
def splayScheduler :
    Discipline Address Time Handler (SplayQueue Address) where
  empty := ⟨leaf, 0, 0⟩
  insert := SplayScheduler.insert
  cancel := SplayScheduler.cancel
  lookup := SplayScheduler.lookup
  deque := SplayScheduler.deque
  head queue := SplayScheduler.leftmost queue.root

/-! ## The tree stands for the list -/

namespace SplayScheduler

/-- Not later than a time: such events stay in front of a new one. -/
def notLater (events : Memory Address Time Handler) (time : Time)
    (e : Address) : Bool :=
  decide (¬ time < (events e).time)

omit [DecidableEq Address] in
@[simp]
theorem notLater_eq_false_iff
    {events : Memory Address Time Handler} {time : Time} {e : Address} :
    notLater events time e = false ↔ time < (events e).time := by
  simp [notLater]

/-- Events in the order of their times. -/
def Timed (events : Memory Address Time Handler)
    (list : List Address) : Prop :=
  list.Pairwise fun first second =>
    (events first).time ≤ (events second).time

omit [DecidableEq Address] in
theorem Timed.of_ordered
    {events : Memory Address Time Handler} {list : List Address}
    (ordered : Ordered events list) : Timed events list :=
  ordered.imp Event.time_le_of_stamp_lt

omit [DecidableEq Address] in
/-- In order of time, nothing before an event that is not later is later. -/
theorem Timed.notLater
    {events : Memory Address Time Handler} {time : Time}
    {front back : List Address} {t : Address}
    (timed : Timed events (front ++ t :: back))
    (early : ¬ time < (events t).time) :
    ∀ e ∈ front, SplayScheduler.notLater events time e = true := by
  intro e member
  have before := (List.pairwise_append.mp timed).2.2 e member t
    List.mem_cons_self
  exact decide_eq_true (not_lt.mpr (before.trans (not_lt.mp early)))

omit [DecidableEq Address] in
/-- The two trees of a splay hold the two parts of the list. -/
theorem splay_inorder
    (events : Memory Address Time Handler) (time : Time)
    (tree : BinTree Address) (l : List (BinTree Address × Address))
    (r : List (Address × BinTree Address))
    (timed : Timed events tree.inorder) :
    (splay events time tree l r).1.inorder =
        passedLeft l ++ tree.inorder.takeWhile (notLater events time) ∧
      (splay events time tree l r).2.inorder =
        tree.inorder.dropWhile (notLater events time) ++
          passedRight r := by
  fun_induction splay events time tree l r with
  | case1 l r => simp
  | case2 t right l r later =>
      simp [later]
  | case3 t right l r later outer x inner nearer induction =>
      have cut := notLater_eq_false_iff.mpr nearer
      have outside : Timed events outer.inorder :=
        (List.pairwise_append.mp (List.pairwise_append.mp timed).1).1
      rcases induction outside with ⟨left, rest⟩
      rw [left, rest]
      simp [takeWhile_append_cons cut, dropWhile_append_cons cut,
        passedRight]
  | case4 t right l r later outer x inner farther induction =>
      have cut := notLater_eq_false_iff.mpr later
      rcases induction (List.pairwise_append.mp timed).1 with ⟨left, rest⟩
      rw [left, rest]
      rw [inorder_node (node outer x inner), takeWhile_append_cons cut,
        dropWhile_append_cons cut]
      simp [passedRight]
  | case5 left t l r early =>
      have kept : SplayScheduler.notLater events time t = true :=
        decide_eq_true early
      simp [List.takeWhile_append_of_pos (timed.notLater early),
        List.dropWhile_append_of_pos (timed.notLater early), kept]
  | case6 left t l r early inner x outer nearer induction =>
      have kept : SplayScheduler.notLater events time x = true :=
        decide_eq_true (not_lt.mpr nearer)
      -- everything up to `x` is linked to the left tree
      have split : (node left t (node inner x outer)).inorder =
          (left.inorder ++ t :: inner.inorder) ++ x :: outer.inorder := by
        simp
      rw [split] at timed ⊢
      have front := timed.notLater (not_lt.mpr nearer)
      have back : Timed events outer.inorder :=
        (List.pairwise_append.mp timed).2.1.of_cons
      rcases induction back with ⟨first, rest⟩
      rw [first, rest, List.takeWhile_append_of_pos front,
        List.dropWhile_append_of_pos front,
        List.takeWhile_cons_of_pos kept, List.dropWhile_cons_of_pos kept]
      simp [passedLeft]
  | case7 left t l r early inner x outer farther induction =>
      have kept : SplayScheduler.notLater events time t = true :=
        decide_eq_true early
      rw [inorder_node left] at timed ⊢
      have front := timed.notLater early
      have back := (List.pairwise_append.mp timed).2.1.of_cons
      rcases induction back with ⟨first, rest⟩
      rw [first, rest, List.takeWhile_append_of_pos front,
        List.dropWhile_append_of_pos front,
        List.takeWhile_cons_of_pos kept, List.dropWhile_cons_of_pos kept]
      simp [passedLeft]

omit [DecidableEq Address] in
/-- `ListScheduler::insert` cuts its list at the same place. -/
theorem insert_eq_cut
    (events : Memory Address Time Handler) (e : Address)
    (list : List Address) :
    ListScheduler.insert events e list =
      list.takeWhile (notLater events (events e).time) ++
        e :: list.dropWhile (notLater events (events e).time) := by
  rw [ListScheduler.insert_eq_orderedInsert,
    List.orderedInsert_eq_take_drop]
  rfl

omit [LinearOrder Time] [DecidableEq Address] in
theorem dequeLeft_inorder
    (ll : BinTree Address) (l : Address) (lr : BinTree Address) :
    (dequeLeft ll l lr).1 :: (dequeLeft ll l lr).2.inorder =
      (node ll l lr).inorder := by
  fun_induction dequeLeft ll l lr with
  | case1 l lr => rfl
  | case2 ll llr l lr => rfl
  | case3 left lll right ll llr l lr induction =>
      simp only [inorder_node, ← List.cons_append, induction]
      simp

omit [LinearOrder Time] [DecidableEq Address] in
theorem leftmost_eq_head? (tree : BinTree Address) :
    leftmost tree = tree.inorder.head? := by
  fun_induction leftmost tree with
  | case1 => rfl
  | case2 t right => rfl
  | case3 left l right t outer induction =>
      rw [induction]
      simp [List.head?_append]

/-- The search of `cancel` goes to the side of the event. -/
theorem remove_inorder
    {events : Memory Address Time Handler} {e : Address}
    {tree : BinTree Address}
    (ordered : Ordered events tree.inorder) (queued : e ∈ tree.inorder) :
    ∃ rest, remove events e tree = some rest ∧
      rest.inorder = tree.inorder.erase e := by
  induction tree with
  | leaf => cases queued
  | node left t right leftInduction rightInduction =>
      have parts := List.pairwise_append.mp ordered
      have back := List.pairwise_cons.mp parts.2.1
      rw [remove, inorder_node]
      by_cases here : t = e
      · subst here
        have absent : t ∉ left.inorder := by
          intro member
          exact lt_irrefl _ (parts.2.2 t member t List.mem_cons_self)
        refine ⟨_, if_pos rfl, ?_⟩
        rw [inorder_join, List.erase_append_right _ absent,
          List.erase_cons_head]
      · rw [if_neg here]
        rcases List.mem_append.mp queued with inLeft | inRight
        · have before := parts.2.2 e inLeft t List.mem_cons_self
          have left_side : ¬ ((events t).time < (events e).time ∨
              (events e).time = (events t).time ∧
                (events t).uid < (events e).uid) := by
            intro after
            apply lt_asymm before
            apply Prod.Lex.toLex_lt_toLex.mpr
            exact after.imp_right fun same => ⟨same.1.symm, same.2⟩
          rcases leftInduction parts.1 inLeft with ⟨rest, taken, same⟩
          refine ⟨node rest t right, by rw [if_neg left_side, taken]; rfl, ?_⟩
          rw [inorder_node, same, List.erase_append_left _ inLeft]
        · have inside := (List.mem_cons.mp inRight).resolve_left
            fun same => here same.symm
          have before := back.1 e inside
          have right_side : (events t).time < (events e).time ∨
              (events e).time = (events t).time ∧
                (events t).uid < (events e).uid :=
            (Prod.Lex.toLex_lt_toLex.mp before).imp_right
              fun same => ⟨same.1.symm, same.2⟩
          have absent : e ∉ left.inorder := by
            intro member
            exact lt_irrefl _ (parts.2.2 e member e inRight)
          rcases rightInduction back.2 inside with ⟨rest, taken, same⟩
          refine ⟨node left t rest, by rw [if_pos right_side, taken]; rfl,
            ?_⟩
          rw [inorder_node, same, List.erase_append_right _ absent,
            List.erase_cons_tail (by simpa using here)]

omit [LinearOrder Time] [DecidableEq Address] in
theorem uidLookup_sound
    {events : Memory Address Time Handler} {uid : Int}
    {tree : BinTree Address} {e : Address}
    (found : uidLookup events uid tree = some e) :
    e ∈ tree.inorder ∧ (events e).uid = uid := by
  induction tree with
  | leaf => cases found
  | node left t right leftInduction rightInduction =>
      rw [uidLookup] at found
      rw [inorder_node, List.mem_append, List.mem_cons]
      split at found
      · next number =>
          cases found
          exact ⟨Or.inr (Or.inl rfl), number⟩
      · split at found
        · next res inLeft =>
            cases found
            rcases leftInduction inLeft with ⟨member, number⟩
            exact ⟨Or.inl member, number⟩
        · rcases rightInduction found with ⟨member, number⟩
          exact ⟨Or.inr (Or.inr member), number⟩

omit [LinearOrder Time] [DecidableEq Address] in
theorem uidLookup_complete
    {events : Memory Address Time Handler} {uid : Int}
    {tree : BinTree Address} (absent : uidLookup events uid tree = none) :
    ∀ e ∈ tree.inorder, (events e).uid ≠ uid := by
  induction tree with
  | leaf => simp
  | node left t right leftInduction rightInduction =>
      rw [uidLookup] at absent
      split at absent
      · cases absent
      · next other =>
          split at absent
          · cases absent
          · next notLeft =>
              intro e member
              rw [inorder_node, List.mem_append, List.mem_cons] at member
              rcases member with inLeft | rfl | inRight
              · exact leftInduction notLeft e inLeft
              · exact other
              · exact rightInduction absent e inRight

/-- The tree in order is the list, and `qsize_` counts it. -/
def Stands (_ : Nat) (_ : Memory Address Time Handler)
    (queue : SplayQueue Address) (list : List Address) : Prop :=
  queue.root.inorder = list ∧ queue.qsize = list.length

end SplayScheduler

open SplayScheduler in
theorem splayScheduler_implements :
    Implements (splayScheduler :
        Discipline Address Time Handler (SplayQueue Address))
      (fun _ => True) SplayScheduler.Stands where
  congr _ stands := stands
  insert := by
    rintro left events ⟨root, qsize, lookupUid⟩ _ e ⟨rfl, count⟩ ordered
      _ _ _
    simp only at ordered count ⊢
    have timed := Timed.of_ordered ordered
    have length := (ListScheduler.insert_perm events e
      root.inorder).length_eq
    cases root with
    | leaf =>
        exact ⟨rfl, by simp [splayScheduler, SplayScheduler.insert,
          ListScheduler.insert, count]⟩
    | node l t r =>
        rcases splay_inorder events (events e).time _ [] [] timed with
          ⟨first, rest⟩
        refine ⟨?_, ?_⟩
        · rw [insert_eq_cut]
          simp only [splayScheduler, SplayScheduler.insert]
          rw [inorder_node, first, rest]
          simp [passedLeft, passedRight]
        · rw [length]
          simp [splayScheduler, SplayScheduler.insert, count]
  cancel := by
    rintro left events ⟨root, qsize, lookupUid⟩ _ e ⟨rfl, count⟩ ordered
      queued positive
    simp only at ordered queued count ⊢
    rcases remove_inorder ordered queued with ⟨rest, taken, same⟩
    refine ⟨⟨rest, qsize - 1, lookupUid⟩, ?_, same, ?_⟩
    · simp only [splayScheduler, SplayScheduler.cancel,
        if_neg (not_le.mpr positive), taken]
    · have := List.length_pos_of_mem queued
      simp only [List.length_erase_of_mem queued]
      omega
  notQueued events queue e absent := by
    simp only [splayScheduler, SplayScheduler.cancel, if_pos absent]
  lookup := by
    rintro left events ⟨root, qsize, lookupUid⟩ _ uid ⟨rfl, count⟩ distinct
    refine ⟨⟨root, qsize, uid⟩, ?_, rfl, count⟩
    rw [find?_eq_of_search distinct (fun e => uidLookup_sound)
      uidLookup_complete]
    rfl
  deque_nil := by
    rintro left events ⟨root, qsize, lookupUid⟩ ⟨empty, count⟩
    cases root with
    | leaf => exact ⟨_, rfl, rfl, count⟩
    | node l t r => simp at empty
  deque_cons := by
    rintro left events ⟨root, qsize, lookupUid⟩ p rest ⟨listed, count⟩ _
    simp only at listed count
    cases root with
    | leaf => cases listed
    | node l t r =>
        cases l with
        | leaf =>
            rw [inorder_node, inorder_leaf, List.nil_append,
              List.cons.injEq] at listed
            rcases listed with ⟨rfl, rfl⟩
            refine ⟨_, rfl, rfl, ?_⟩
            simp [count]
        | node ll l lr =>
            have first := dequeLeft_inorder ll l lr
            rw [inorder_node (node ll l lr), ← first, List.cons_append,
              List.cons.injEq] at listed
            rcases listed with ⟨rfl, rfl⟩
            refine ⟨_, rfl, rfl, ?_⟩
            simp [count]
  head := by
    rintro left events ⟨root, qsize, lookupUid⟩ _ ⟨rfl, _⟩ _
    exact leftmost_eq_head? root

/--
The splay tree gives the same simulation as the list, for every list of calls.
-/
theorem splay_simulates_list [Zero Time] [Add Time]
    (calls : List (Call Address Time Handler)) :
    simulate splayScheduler calls = simulate listScheduler calls :=
  splayScheduler_implements.simulate_eq calls
    (fun _ _ _ _ => trivial) ⟨rfl, rfl⟩

end NetworkingLab.Simulator
