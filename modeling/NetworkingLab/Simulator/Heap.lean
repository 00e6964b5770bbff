import Mathlib.Algebra.Order.Ring.Nat
import Mathlib.Data.Prod.Lex
import NetworkingLab.Foundation.BinaryHeap

/-!
# The heap of the heap scheduler

`class Heap` is a binary heap in an array that is doubled when it is full.
Elements of one key are told apart by a secondary key, the number of
insertions so far.  That count, the sizes and the places are numbers of the
type `unsigned int`, and `heap_member` returns an `int`; all of them are right
while fewer than `2 ^ 31` elements are in the heap (`Shaped.few`).

`heapInsert_spec`, `heapExtractMin_spec` and `heapDelete_spec` are the
specifications of the three operations: they keep the array a heap that fits
its block, and they add, take out the first, and take out a given element.
Deletion moves the element to the root without looking at the keys and then
extracts it.
-/

namespace NetworkingLab.Simulator

open NetworkingLab.Foundation.BinaryHeap

variable {Key Elem : Type*} [LinearOrder Key]

/-- `struct Heap_elem`. -/
structure HeapElem (Key Elem : Type*) where
  heKey : Key
  heSKey : Nat
  heElem : Option Elem

/-- The two keys of an element, the primary one first. -/
def HeapElem.keys (elem : HeapElem Key Elem) : Key ×ₗ Nat :=
  toLex (elem.heKey, elem.heSKey)

/-- `class Heap`. -/
structure Heap (Key Elem : Type*) where
  hElems : Nat → HeapElem Key Elem
  hSKey : Nat
  hSize : Nat
  hMaxsize : Nat
  hIter : Nat

/-- `KEY_LESS_THAN`. -/
def keyLessThan (first second : HeapElem Key Elem) : Prop :=
  first.heKey < second.heKey ∨
    first.heKey = second.heKey ∧ first.heSKey < second.heSKey

instance (first second : HeapElem Key Elem) :
    Decidable (keyLessThan first second) :=
  inferInstanceAs (Decidable (_ ∨ _))

theorem keyLessThan_iff {first second : HeapElem Key Elem} :
    keyLessThan first second ↔ first.keys < second.keys := by
  rw [keyLessThan, HeapElem.keys, HeapElem.keys,
    Prod.Lex.toLex_lt_toLex]

theorem not_keyLessThan_iff {first second : HeapElem Key Elem} :
    ¬ keyLessThan first second ↔ second.keys ≤ first.keys := by
  rw [keyLessThan_iff, not_lt]

namespace Heap

/-- A number as an `unsigned int`. -/
def unsigned (n : Nat) : Nat :=
  n % 2 ^ 32

theorem unsigned_of_lt {n : Nat} (small : n < 2 ^ 32) : unsigned n = n :=
  Nat.mod_eq_of_lt small

/-- `Heap(HEAP_DEFAULT_SIZE)`, with the block cleared by `memset`. -/
def create [Zero Key] : Heap Key Elem :=
  ⟨fun _ => ⟨0, 0, none⟩, 0, 0, 32, 0⟩

/-- `left`. -/
def left (i : Nat) : Nat :=
  unsigned (i * 2 + 1)

/-- `right`. -/
def right (i : Nat) : Nat :=
  unsigned (unsigned (i + 1) * 2)

/-- `heap_min`. -/
def heapMin (heap : Heap Key Elem) : Option Elem :=
  if 0 < heap.hSize then (heap.hElems 0).heElem else none

/-- `heap_iter_init`. -/
def heapIterInit (heap : Heap Key Elem) :
    Option Elem × Heap Key Elem :=
  (heap.heapMin, { heap with hIter := 1 })

/-- `heap_iter`. -/
def heapIter (heap : Heap Key Elem) : Option Elem × Heap Key Elem :=
  if heap.hSize ≤ heap.hIter then
    (none, { heap with hIter := 0 })
  else
    -- `h_iter` is below `h_size` and cannot wrap
    ((heap.hElems heap.hIter).heElem,
      { heap with hIter := heap.hIter + 1 })

/-- The loop of `heap_insert`: parents move down to make room. -/
def makeRoom (new : HeapElem Key Elem)
    (elems : Nat → HeapElem Key Elem) (i : Nat) :
    (Nat → HeapElem Key Elem) × Nat :=
  if 0 < i then
    if keyLessThan new (elems (parent i)) then
      makeRoom new (Function.update elems i (elems (parent i))) (parent i)
    else
      (elems, i)
  else
    (elems, i)
termination_by i
decreasing_by exact parent_lt ‹_›

/-- `heap_insert`. -/
def heapInsert (key : Key) (elem : Elem) (heap : Heap Key Elem) :
    Heap Key Elem :=
  let new : HeapElem Key Elem := ⟨key, heap.hSKey, some elem⟩
  let room := makeRoom new heap.hElems heap.hSize
  { hElems := Function.update room.1 room.2 new
    hSKey := unsigned (heap.hSKey + 1)
    hSize := unsigned (heap.hSize + 1)
    hMaxsize :=
      if heap.hMaxsize = heap.hSize then
        unsigned (heap.hMaxsize * 2)
      else
        heap.hMaxsize
    hIter := heap.hIter }

/-- The place that the loop of `heap_extract_min` compares with `i`. -/
def smallest (elems : Nat → HeapElem Key Elem) (size i : Nat) : Nat :=
  if right i < size then
    if keyLessThan (elems (left i)) (elems (right i)) then
      left i
    else
      right i
  else if left i < size then
    left i
  else
    i

theorem left_eq {i : Nat} (few : i < 2 ^ 31) : left i = 2 * i + 1 := by
  rw [left, unsigned_of_lt (by omega), Nat.mul_comm]

theorem right_eq {i : Nat} (few : i + 1 < 2 ^ 31) :
    right i = 2 * i + 2 := by
  rw [right, unsigned_of_lt (n := i + 1) (by omega),
    unsigned_of_lt (by omega)]
  omega

/-- It is a child of `i`, or `i` has none. -/
theorem smallest_cases
    (elems : Nat → HeapElem Key Elem) {size i : Nat}
    (few : size < 2 ^ 31) (inside : i < size) :
    smallest elems size i = i ∧ size ≤ left i ∨
      i < smallest elems size i ∧ smallest elems size i < size ∧
        parent (smallest elems size i) = i := by
  have leftPlace := left_eq (show i < 2 ^ 31 by omega)
  have rightPlace := right_eq (show i + 1 < 2 ^ 31 by omega)
  have leftParent : parent (left i) = i := by
    rw [leftPlace, parent_left]
  have rightParent : parent (right i) = i := by
    rw [rightPlace, parent_right]
  rw [smallest]
  split
  · next both =>
      right
      split
      · exact ⟨by omega, by omega, leftParent⟩
      · exact ⟨by omega, both, rightParent⟩
  · split
    · next one => exact Or.inr ⟨by omega, one, leftParent⟩
    · next none => exact Or.inl ⟨rfl, by omega⟩

/-- No child of `i` comes before it. -/
theorem smallest_least
    (elems : Nat → HeapElem Key Elem) {size i child : Nat}
    (few : size < 2 ^ 31) (below : 0 < child) (inside : child < size)
    (above : parent child = i) :
    (elems (smallest elems size i)).keys ≤ (elems child).keys := by
  have higher := parent_lt below
  have which := eq_child below above
  rw [← left_eq (by omega), ← right_eq (by omega)] at which
  rw [smallest]
  split
  · split
    · next first =>
        rw [keyLessThan_iff] at first
        rcases which with rfl | rfl
        · exact le_refl _
        · exact first.le
    · next first =>
        rw [not_keyLessThan_iff] at first
        rcases which with rfl | rfl
        · exact first
        · exact le_refl _
  · next single =>
      rcases which with rfl | rfl
      · rw [if_pos inside]
      · exact absurd inside single

/-- The loop of `heap_extract_min`; the number bounds the rounds. -/
def heapify (size : Nat) :
    Nat → (Nat → HeapElem Key Elem) → Nat → Nat → HeapElem Key Elem
  | 0, elems, _ => elems
  | rounds + 1, elems, i =>
      if i < size then
        if smallest elems size i ≠ i ∧
            keyLessThan (elems (smallest elems size i)) (elems i) then
          heapify size rounds
            (exchange elems i (smallest elems size i))
            (smallest elems size i)
        else
          elems
      else
        elems

/-- `heap_extract_min`. -/
def heapExtractMin (heap : Heap Key Elem) :
    Option Elem × Heap Key Elem :=
  if heap.hSize = 0 then
    (none, heap)
  else
    let size := heap.hSize - 1
    ((heap.hElems 0).heElem,
      { heap with
        hElems := heapify size size
          (Function.update heap.hElems 0 (heap.hElems size)) 0
        hSize := size })

/-- `heap_member`: one more than the first place of the element, or 0. -/
def heapMember [DecidableEq Elem] (elem : Elem)
    (heap : Heap Key Elem) : Int :=
  match (List.range heap.hSize).find? fun i =>
      (heap.hElems i).heElem = some elem with
  | some i => Int.bmod (i + 1 : Nat) (2 ^ 32)
  | none => 0

/-- The loop of `heap_delete`: exchange up to the root. -/
def raise (elems : Nat → HeapElem Key Elem) (i : Nat) :
    Nat → HeapElem Key Elem :=
  if 0 < i then
    raise (exchange elems i (parent i)) (parent i)
  else
    elems
termination_by i
decreasing_by exact parent_lt ‹_›

/-- `heap_delete`. -/
def heapDelete [DecidableEq Elem] (elem : Elem) (heap : Heap Key Elem) :
    Nat × Heap Key Elem :=
  if heap.heapMember elem = 0 then
    (0, heap)
  else
    (1, (heapExtractMin
      { heap with
        hElems := raise heap.hElems
          ((heap.heapMember elem - 1) % 2 ^ 32).toNat }).2)

/-! ## Specifications -/

/-- The array of a heap between two operations. -/
structure Shaped (heap : Heap Key Elem) : Prop where
  ordered : HeapOrdered HeapElem.keys heap.hElems heap.hSize
  fits : heap.hSize ≤ heap.hMaxsize
  block : 0 < heap.hMaxsize
  few : heap.hSize < 2 ^ 31

/-- The elements of a heap. -/
def elements (heap : Heap Key Elem) : List (HeapElem Key Elem) :=
  contents heap.hElems heap.hSize

theorem create_shaped [Zero Key] :
    (create : Heap Key Elem).Shaped where
  ordered i _ inside := absurd inside (Nat.not_lt_zero i)
  fits := Nat.zero_le _
  block := Nat.succ_pos 31
  few := Nat.two_pow_pos 31

/-- Making room and filling it is letting the new element rise. -/
theorem makeRoom_spec
    (new : HeapElem Key Elem) (elems : Nat → HeapElem Key Elem)
    {size : Nat} (i : Nat) (inside : i < size)
    (rising : Rising HeapElem.keys (Function.update elems i new) size i) :
    HeapOrdered HeapElem.keys
        (Function.update (makeRoom new elems i).1
          (makeRoom new elems i).2 new) size ∧
      (contents (Function.update (makeRoom new elems i).1
          (makeRoom new elems i).2 new) size).Perm
        (contents (Function.update elems i new) size) := by
  fun_induction makeRoom new elems i with
  | case1 elems i positive smaller induction =>
      have higher := parent_lt positive
      have moved := update_update_eq_exchange elems higher.ne new
      rw [keyLessThan_iff] at smaller
      have risen := rising.up positive inside (by
        rwa [Function.update_self, Function.update_of_ne higher.ne])
      rw [← moved] at risen
      rcases induction (higher.trans inside) risen with ⟨ordered, same⟩
      refine ⟨ordered, same.trans ?_⟩
      rw [moved]
      exact contents_exchange _ inside (higher.trans inside)
  | case2 elems i positive stop =>
      refine ⟨rising.ordered fun _ => ?_, .refl _⟩
      rw [Function.update_self,
        Function.update_of_ne (parent_lt positive).ne]
      exact not_keyLessThan_iff.mp stop
  | case3 elems i root =>
      exact ⟨rising.ordered fun positive => absurd positive root, .refl _⟩

/-- Insertion adds one element, with the next secondary key. -/
theorem heapInsert_spec
    {heap : Heap Key Elem} (shaped : heap.Shaped)
    (few : heap.hSize + 1 < 2 ^ 31) (key : Key) (elem : Elem) :
    (heap.heapInsert key elem).Shaped ∧
      (heap.heapInsert key elem).elements.Perm
        (⟨key, heap.hSKey, some elem⟩ :: heap.elements) := by
  have spec := makeRoom_spec ⟨key, heap.hSKey, some elem⟩ heap.hElems
    heap.hSize (Nat.lt_succ_self _) (shaped.ordered.rising _)
  have fits := shaped.fits
  have block := shaped.block
  have size : (heap.heapInsert key elem).hSize = heap.hSize + 1 :=
    unsigned_of_lt (by omega)
  refine ⟨⟨?_, ?_, ?_, ?_⟩, ?_⟩
  · rw [size]
    exact spec.1
  · rw [size]
    simp only [heapInsert]
    split
    · rw [unsigned_of_lt (by omega)]
      omega
    · omega
  · simp only [heapInsert]
    split
    · rw [unsigned_of_lt (by omega)]
      omega
    · exact block
  · omega
  · rw [elements, size]
    refine spec.2.trans ?_
    have others :
        contents (Function.update heap.hElems heap.hSize
          ⟨key, heap.hSKey, some elem⟩) heap.hSize = heap.elements :=
      contents_congr fun i inside =>
        Function.update_of_ne (Nat.ne_of_lt inside) _ _
    rw [contents_succ, Function.update_self, others]
    exact List.perm_append_singleton _ _

/-- The loop lets the element at `i` sink to its place. -/
theorem heapify_spec
    {size : Nat} (few : size < 2 ^ 31) (rounds : Nat)
    (elems : Nat → HeapElem Key Elem) (i : Nat)
    (enough : size ≤ i + rounds)
    (sinking : Sinking HeapElem.keys elems size i) :
    HeapOrdered HeapElem.keys (heapify size rounds elems i) size ∧
      (contents (heapify size rounds elems i) size).Perm
        (contents elems size) := by
  fun_induction heapify size rounds elems i with
  | case1 elems i =>
      refine ⟨sinking.ordered ?_, .refl _⟩
      intro child below bound above
      have := parent_lt below
      omega
  | case2 rounds elems i inside moves induction =>
      rcases smallest_cases elems few inside with
        ⟨same, _⟩ | ⟨_, small, above⟩
      · exact absurd same moves.1
      · have sunk := sinking.down (by omega) small above
          (fun child below bound parent =>
            smallest_least elems few below bound parent)
          (keyLessThan_iff.mp moves.2)
        rcases induction (by omega) sunk with ⟨ordered, same⟩
        exact ⟨ordered, same.trans (contents_exchange _ inside small)⟩
  | case3 rounds elems i inside stays =>
      refine ⟨sinking.ordered ?_, .refl _⟩
      intro child below bound parent
      have least := smallest_least elems few below bound parent
      by_cases same : smallest elems size i = i
      · rwa [same] at least
      · have last : ¬ keyLessThan (elems (smallest elems size i))
            (elems i) := fun first => stays ⟨same, first⟩
        exact (not_keyLessThan_iff.mp last).trans least
  | case4 rounds elems i outside =>
      refine ⟨sinking.ordered ?_, .refl _⟩
      intro child below bound above
      have := parent_lt below
      omega

/-- Extraction takes out the root, also where it is out of order. -/
theorem heapExtractMin_spec
    (heap : Heap Key Elem) {size : Nat} (nonempty : heap.hSize = size + 1)
    (few : heap.hSize < 2 ^ 31)
    (loose : Loose HeapElem.keys heap.hElems heap.hSize 0) :
    ∃ elems,
      heap.heapExtractMin =
          ((heap.hElems 0).heElem,
            { heap with hElems := elems, hSize := size }) ∧
        HeapOrdered HeapElem.keys elems size ∧
        heap.elements.Perm (heap.hElems 0 :: contents elems size) := by
  rw [nonempty] at loose
  have spec := heapify_spec (show size < 2 ^ 31 by omega) size _ 0
    (by omega) (loose.sinking (heap.hElems size))
  refine ⟨_, ?_, spec.1, ?_⟩
  · rw [heapExtractMin, if_neg (by omega)]
    simp only [nonempty, Nat.add_sub_cancel]
  · rw [elements, nonempty]
    exact (contents_dropRoot _ _).trans (spec.2.symm.cons _)

/-- The element at `i` goes to the root; the rest stays a heap. -/
theorem raise_spec
    (elems : Nat → HeapElem Key Elem) {size : Nat} (i : Nat)
    (inside : i < size) (loose : Loose HeapElem.keys elems size i) :
    Loose HeapElem.keys (raise elems i) size 0 ∧
      raise elems i 0 = elems i ∧
      (contents (raise elems i) size).Perm (contents elems size) := by
  fun_induction raise elems i with
  | case1 elems i positive induction =>
      have higher := (parent_lt positive).trans inside
      rcases induction higher (loose.up positive inside) with
        ⟨rest, root, same⟩
      rw [exchange_right] at root
      exact ⟨rest, root,
        same.trans (contents_exchange _ inside higher)⟩
  | case2 elems i root =>
      have zero : i = 0 := Nat.eq_zero_of_not_pos root
      subst zero
      exact ⟨loose, rfl, .refl _⟩

section Delete

variable [DecidableEq Elem]

omit [LinearOrder Key] in
theorem heapMember_pos
    {heap : Heap Key Elem} (few : heap.hSize < 2 ^ 31)
    {elem : Elem} {i : Nat} (inside : i < heap.hSize)
    (here : (heap.hElems i).heElem = some elem) :
    ∃ place < heap.hSize, heap.heapMember elem = (place + 1 : Nat) ∧
      (heap.hElems place).heElem = some elem := by
  rw [heapMember]
  cases found : (List.range heap.hSize).find? fun i =>
      (heap.hElems i).heElem = some elem with
  | none =>
      have absent := List.find?_eq_none.mp found i (by simpa using inside)
      exact absurd here (by simpa using absent)
  | some place =>
      have small : place < heap.hSize := by
        simpa using List.mem_of_find?_eq_some found
      refine ⟨place, small, ?_, ?_⟩
      · apply Int.bmod_eq_of_le <;> omega
      · simpa using List.find?_some found

/-- Deletion takes out one element with the given pointer. -/
theorem heapDelete_spec
    {heap : Heap Key Elem} (shaped : heap.Shaped)
    {elem : Elem} {i : Nat} (inside : i < heap.hSize)
    (here : (heap.hElems i).heElem = some elem) :
    ∃ elems size removed,
      heap.heapDelete elem =
          (1, { heap with hElems := elems, hSize := size }) ∧
        heap.hSize = size + 1 ∧
        HeapOrdered HeapElem.keys elems size ∧
        removed.heElem = some elem ∧
        heap.elements.Perm (removed :: contents elems size) := by
  rcases heapMember_pos shaped.few inside here with ⟨place, small, member, found⟩
  rcases raise_spec heap.hElems place small
      (shaped.ordered.loose small) with ⟨loose, root, same⟩
  rcases heapExtractMin_spec
      { heap with hElems := raise heap.hElems place }
      (show heap.hSize = heap.hSize - 1 + 1 by omega) shaped.few loose
    with
    ⟨elems, taken, ordered, left⟩
  refine ⟨elems, heap.hSize - 1, heap.hElems place, ?_, by omega,
    ordered, found, ?_⟩
  · have few := shaped.few
    have back : (((place + 1 : Nat) : Int) - 1) % 2 ^ 32 = place := by
      omega
    rw [heapDelete, member, if_neg (by omega), back, Int.toNat_natCast,
      taken]
  · rw [← root]
    exact same.symm.trans left

end Delete

end Heap

end NetworkingLab.Simulator
