import Mathlib.Data.List.Perm.Basic
import Mathlib.Data.List.Nodup
import Mathlib.Data.Nat.Basic
import Mathlib.Logic.Function.Basic
import Mathlib.Order.Lattice
import Mathlib.Order.Defs.LinearOrder
import Mathlib.Tactic.Common

/-!
# Binary heaps in an array

An array is a function on the natural numbers, of which the first `size`
places are in use.  Place `i` has the children `2 * i + 1` and `2 * i + 2`; a
heap keeps every element at or behind its parent.

Every algorithm on a heap moves one element along a path by exchanging
neighbours.  `Loose` is what it may rely on at every moment: only pairs that
touch the moving element can be out of order, and taking it away would leave a
heap.  `Rising` and `Sinking` add that the element is in order with what lies
below or above it, and each has a rule for one exchange and a rule for the
end.  An exchange never changes the elements as a whole (`contents_exchange`).
-/

namespace NetworkingLab.Foundation.BinaryHeap

variable {α κ : Type*}

/-- The place above a place; the root is its own parent. -/
def parent (i : Nat) : Nat :=
  (i - 1) / 2

theorem parent_lt {i : Nat} (below : 0 < i) : parent i < i := by
  simp only [parent]
  omega

/-- A place with this parent is one of its two children. -/
theorem eq_child {i p : Nat} (below : 0 < i) (above : parent i = p) :
    i = 2 * p + 1 ∨ i = 2 * p + 2 := by
  simp only [parent] at above
  omega

theorem parent_left (p : Nat) : parent (2 * p + 1) = p := by
  simp only [parent]
  omega

theorem parent_right (p : Nat) : parent (2 * p + 2) = p := by
  simp only [parent]
  omega

/-! ## Contents -/

/-- The elements in use, in the order of their places. -/
def contents (elems : Nat → α) (size : Nat) : List α :=
  (List.range size).map elems

theorem mem_contents {elems : Nat → α} {size : Nat} {value : α} :
    value ∈ contents elems size ↔ ∃ i < size, elems i = value := by
  simp [contents]

theorem contents_succ (elems : Nat → α) (size : Nat) :
    contents elems (size + 1) = contents elems size ++ [elems size] := by
  rw [contents, List.range_succ, List.map_append]
  rfl

theorem contents_congr
    {elems others : Nat → α} {size : Nat}
    (same : ∀ i < size, elems i = others i) :
    contents elems size = contents others size := by
  apply List.map_congr_left
  intro i member
  exact same i (List.mem_range.mp member)

/-- Exchange the elements of two places. -/
def exchange (elems : Nat → α) (i j : Nat) : Nat → α :=
  Function.update (Function.update elems i (elems j)) j (elems i)

@[simp]
theorem exchange_right (elems : Nat → α) (i j : Nat) :
    exchange elems i j j = elems i :=
  Function.update_self _ _ _

@[simp]
theorem exchange_left (elems : Nat → α) (i j : Nat) :
    exchange elems i j i = elems j := by
  by_cases same : i = j
  · subst same
    simp [exchange]
  · rw [exchange, Function.update_of_ne same, Function.update_self]

theorem exchange_of_ne
    (elems : Nat → α) {i j k : Nat} (first : k ≠ i) (second : k ≠ j) :
    exchange elems i j k = elems k := by
  rw [exchange, Function.update_of_ne second, Function.update_of_ne first]

/-- Filling a hole one place further up exchanges two elements. -/
theorem update_update_eq_exchange
    (elems : Nat → α) {i j : Nat} (different : j ≠ i) (value : α) :
    Function.update (Function.update elems i (elems j)) j value =
      exchange (Function.update elems i value) i j := by
  funext k
  by_cases first : k = i
  · subst first
    simp [Function.update_of_ne different.symm,
      Function.update_of_ne different]
  · by_cases second : k = j
    · subst second
      simp
    · rw [exchange_of_ne _ first second]
      simp [first, second]

/-- The places of two exchanged elements, as a permutation of all places. -/
theorem range_exchange
    {size i j : Nat} (first : i < size) (second : j < size) :
    ((List.range size).map (exchange id i j)).Perm (List.range size) := by
  have injective : Function.Injective (exchange (id : Nat → Nat) i j) := by
    intro k l same
    by_cases ki : k = i <;> by_cases kj : k = j <;>
      by_cases li : l = i <;> by_cases lj : l = j <;>
        simp_all [exchange_of_ne]
  rw [List.perm_ext_iff_of_nodup
    (List.nodup_range.map injective) List.nodup_range]
  intro k
  rw [List.mem_map, List.mem_range]
  constructor
  · rintro ⟨l, member, rfl⟩
    rw [List.mem_range] at member
    by_cases li : l = i
    · subst li
      rwa [exchange_left]
    · by_cases lj : l = j
      · subst lj
        rwa [exchange_right]
      · rwa [exchange_of_ne _ li lj]
  · intro inside
    refine ⟨exchange id i j k, ?_, ?_⟩
    · rw [List.mem_range]
      by_cases ki : k = i
      · subst ki
        rwa [exchange_left]
      · by_cases kj : k = j
        · subst kj
          rwa [exchange_right]
        · rwa [exchange_of_ne _ ki kj]
    · by_cases ki : k = i
      · subst ki
        simp
      · by_cases kj : k = j
        · subst kj
          simp
        · simp [exchange_of_ne _ ki kj]

/-- An exchange keeps the elements. -/
theorem contents_exchange
    (elems : Nat → α) {size i j : Nat}
    (first : i < size) (second : j < size) :
    (contents (exchange elems i j) size).Perm (contents elems size) := by
  have through : exchange elems i j = elems ∘ exchange id i j := by
    funext k
    by_cases ki : k = i
    · subst ki
      simp
    · by_cases kj : k = j
      · subst kj
        simp
      · simp [exchange_of_ne _ ki kj]
  rw [contents, through, ← List.map_map]
  exact (range_exchange first second).map elems

/-- Moving the last element to the root takes the root out. -/
theorem contents_dropRoot (elems : Nat → α) (size : Nat) :
    (contents elems (size + 1)).Perm
      (elems 0 :: contents (Function.update elems 0 (elems size)) size) := by
  have moved := contents_exchange elems
    (Nat.succ_pos size) (Nat.lt_succ_self size)
  rw [contents_succ (exchange elems 0 size), exchange_right] at moved
  have same : contents (exchange elems 0 size) size =
      contents (Function.update elems 0 (elems size)) size := by
    apply contents_congr
    intro i inside
    rw [exchange, Function.update_of_ne (Nat.ne_of_lt inside)]
  rw [same] at moved
  exact moved.symm.trans (List.perm_append_singleton _ _)

/-! ## Order -/

section Order

variable [LinearOrder κ] (key : α → κ)

/-- Every element is at or behind its parent. -/
def HeapOrdered (elems : Nat → α) (size : Nat) : Prop :=
  ∀ i, 0 < i → i < size → key (elems (parent i)) ≤ key (elems i)

/-- In a heap the root comes first. -/
theorem HeapOrdered.root_le
    {elems : Nat → α} {size : Nat} (ordered : HeapOrdered key elems size)
    {i : Nat} (inside : i < size) : key (elems 0) ≤ key (elems i) := by
  induction i using Nat.strongRecOn with
  | ind i induction =>
      rcases Nat.eq_zero_or_pos i with rfl | below
      · exact le_refl _
      · have higher := parent_lt below
        exact (induction (parent i) higher (higher.trans inside)).trans
          (ordered i below inside)

/--
Only pairs that touch `hole` can be out of order, and without its element the
rest would be a heap.
-/
structure Loose (elems : Nat → α) (size hole : Nat) : Prop where
  off : ∀ i, 0 < i → i < size → i ≠ hole → parent i ≠ hole →
    key (elems (parent i)) ≤ key (elems i)
  around : 0 < hole → ∀ i, 0 < i → i < size → parent i = hole →
    key (elems (parent hole)) ≤ key (elems i)

/-- The element at `hole` is in order with its children. -/
structure Rising (elems : Nat → α) (size hole : Nat) : Prop
    extends Loose key elems size hole where
  below : ∀ i, 0 < i → i < size → parent i = hole →
    key (elems hole) ≤ key (elems i)

/-- The element at `hole` is in order with its parent. -/
structure Sinking (elems : Nat → α) (size hole : Nat) : Prop
    extends Loose key elems size hole where
  above : 0 < hole → key (elems (parent hole)) ≤ key (elems hole)

variable {key} {elems : Nat → α} {size hole : Nat}

theorem HeapOrdered.loose
    (ordered : HeapOrdered key elems size)
    (inside : hole < size) : Loose key elems size hole where
  off i below small _ _ := ordered i below small
  around positive i below small above := by
    have first := ordered hole positive inside
    have second := ordered i below small
    rw [above] at second
    exact first.trans second

/-- Exchange with the parent. -/
theorem Loose.up
    (loose : Loose key elems size hole)
    (positive : 0 < hole) (inside : hole < size) :
    Loose key (exchange elems hole (parent hole)) size (parent hole) := by
  have higher := parent_lt positive
  constructor
  · intro i below small notUp notBelowUp
    have notHole : i ≠ hole := by
      rintro rfl
      exact notBelowUp rfl
    rw [exchange_of_ne _ notHole notUp]
    by_cases above : parent i = hole
    · rw [above, exchange_left]
      exact loose.around positive i below small above
    · rw [exchange_of_ne _ above notBelowUp]
      exact loose.off i below small notHole above
  · intro upPositive i below small above
    have top := parent_lt upPositive
    have known := loose.off (parent hole) upPositive
      (higher.trans inside) higher.ne (by omega)
    rw [exchange_of_ne _ (by omega) top.ne]
    by_cases same : i = hole
    · rw [same, exchange_left]
      exact known
    · have notUp : i ≠ parent hole := by
        have := parent_lt below
        omega
      rw [exchange_of_ne _ same notUp]
      have sibling := loose.off i below small same
        (by rw [above]; exact higher.ne)
      rw [above] at sibling
      exact known.trans sibling

/-- A smaller element rises above its parent. -/
theorem Rising.up
    (rising : Rising key elems size hole)
    (positive : 0 < hole) (inside : hole < size)
    (smaller : key (elems hole) < key (elems (parent hole))) :
    Rising key (exchange elems hole (parent hole)) size
      (parent hole) where
  toLoose := rising.toLoose.up positive inside
  below i below small above := by
    have higher := parent_lt positive
    rw [exchange_right]
    by_cases same : i = hole
    · rw [same, exchange_left]
      exact smaller.le
    · have notUp : i ≠ parent hole := by
        have := parent_lt below
        omega
      rw [exchange_of_ne _ same notUp]
      have sibling := rising.off i below small same
        (by rw [above]; exact higher.ne)
      rw [above] at sibling
      exact smaller.le.trans sibling

theorem Rising.ordered
    (rising : Rising key elems size hole)
    (stop : 0 < hole → key (elems (parent hole)) ≤ key (elems hole)) :
    HeapOrdered key elems size := by
  intro i below small
  by_cases same : i = hole
  · subst same
    exact stop below
  · by_cases above : parent i = hole
    · rw [above]
      exact rising.below i below small above
    · exact rising.off i below small same above

/-- A larger element sinks below its smaller child. -/
theorem Sinking.down
    (sinking : Sinking key elems size hole)
    {child : Nat} (positive : 0 < child) (inside : child < size)
    (under : parent child = hole)
    (least : ∀ i, 0 < i → i < size → parent i = hole →
      key (elems child) ≤ key (elems i))
    (smaller : key (elems child) < key (elems hole)) :
    Sinking key (exchange elems hole child) size child := by
  have lower : hole < child := by
    rw [← under]
    exact parent_lt positive
  refine ⟨⟨?_, ?_⟩, ?_⟩
  · intro i below small notChild notBelow
    by_cases same : i = hole
    · rw [same] at below
      have top := parent_lt below
      rw [same, exchange_left,
        exchange_of_ne _ top.ne (top.trans lower).ne]
      exact sinking.around below child positive inside under
    · rw [exchange_of_ne _ same notChild]
      by_cases above : parent i = hole
      · rw [above, exchange_left]
        exact least i below small above
      · rw [exchange_of_ne _ above notBelow]
        exact sinking.off i below small same above
  · intro _ i below small above
    have deeper := parent_lt below
    rw [under, exchange_left, exchange_of_ne _ (by omega) (by omega)]
    have known := sinking.off i below small (by omega) (by omega)
    rwa [above] at known
  · intro _
    rw [under, exchange_left, exchange_right]
    exact smaller.le

theorem Sinking.ordered
    (sinking : Sinking key elems size hole)
    (stop : ∀ i, 0 < i → i < size → parent i = hole →
      key (elems hole) ≤ key (elems i)) :
    HeapOrdered key elems size := by
  intro i below small
  by_cases same : i = hole
  · subst same
    exact sinking.above below
  · by_cases above : parent i = hole
    · rw [above]
      exact stop i below small above
    · exact sinking.off i below small same above

/-- A new element behind the last one. -/
theorem HeapOrdered.rising
    (ordered : HeapOrdered key elems size) (value : α) :
    Rising key (Function.update elems size value) (size + 1) size := by
  refine ⟨⟨?_, ?_⟩, ?_⟩
  · intro i below small notLast _
    have higher := parent_lt below
    rw [Function.update_of_ne notLast, Function.update_of_ne (by omega)]
    exact ordered i below (by omega)
  · intro _ i below small above
    have higher := parent_lt below
    omega
  · intro i below small above
    have higher := parent_lt below
    omega

/-- The last element in the place of a root that may be out of order. -/
theorem Loose.sinking
    (loose : Loose key elems (size + 1) 0) (value : α) :
    Sinking key (Function.update elems 0 value) size 0 := by
  refine ⟨⟨?_, ?_⟩, ?_⟩
  · intro i below small notRoot notChild
    rw [Function.update_of_ne notRoot, Function.update_of_ne notChild]
    exact loose.off i below (by omega) notRoot notChild
  · intro positive
    exact absurd positive (Nat.lt_irrefl 0)
  · intro positive
    exact absurd positive (Nat.lt_irrefl 0)

end Order

end NetworkingLab.Foundation.BinaryHeap
