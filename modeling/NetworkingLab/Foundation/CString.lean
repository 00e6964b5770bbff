import Mathlib.Data.List.TakeWhile
import Mathlib.Tactic.Common

/-!
# C strings in byte arrays

A C string is the run of bytes before the first NUL of the array that holds
it.  This module fixes that reading once, together with the two ways in which
C code changes an array in place: overwriting its first bytes, as `recv` and
`fread` do, and copying a string into it, as `strcpy` does.  The bytes behind
the written part always keep their old values.

Every operation that could leave an array returns `none` in that case.
-/

namespace NetworkingLab.Foundation.CString

/-- One `char` of memory. -/
abbrev Byte := UInt8

/-- The C string at the start of an array: the bytes before the first NUL. -/
def cString (array : List Byte) : List Byte :=
  array.takeWhile (· != 0)

/-- Text that holds no NUL byte. -/
def NulFree (text : List Byte) : Prop :=
  ∀ byte ∈ text, byte ≠ 0

instance (text : List Byte) : Decidable (NulFree text) :=
  List.decidableBAll (fun byte => byte ≠ 0) text

@[simp]
theorem nulFree_nil : NulFree [] := by
  simp [NulFree]

@[simp]
theorem nulFree_cons_iff (head : Byte) (tail : List Byte) :
    NulFree (head :: tail) ↔ head ≠ 0 ∧ NulFree tail := by
  simp [NulFree]

@[simp]
theorem nulFree_append_iff (left right : List Byte) :
    NulFree (left ++ right) ↔ NulFree left ∧ NulFree right := by
  simp only [NulFree, List.mem_append]
  constructor
  · intro free
    exact ⟨fun byte member => free byte (Or.inl member),
      fun byte member => free byte (Or.inr member)⟩
  · rintro ⟨leftFree, rightFree⟩ byte (member | member)
    · exact leftFree byte member
    · exact rightFree byte member

theorem nulFree_of_not_mem {text : List Byte} (absent : 0 ∉ text) :
    NulFree text := by
  rintro byte member rfl
  exact absent member

theorem NulFree.of_sublist
    {part whole : List Byte}
    (free : NulFree whole) (sublist : part.Sublist whole) :
    NulFree part :=
  fun byte member => free byte (sublist.subset member)

theorem nulFree_cString (array : List Byte) :
    NulFree (cString array) := by
  intro byte member
  simpa using List.mem_takeWhile_imp member

/-- An array without NUL is read to its end. -/
theorem cString_of_nulFree
    {array : List Byte} (free : NulFree array) :
    cString array = array := by
  rw [cString, List.takeWhile_eq_self_iff]
  intro byte member
  simpa using free byte member

/-- A terminator behind a text ends it, if nothing in it does. -/
theorem cString_append_terminator (text rest : List Byte) :
    cString (text ++ 0 :: rest) = cString text := by
  induction text with
  | nil => rfl
  | cons head tail induction =>
      by_cases zero : head = 0
      · simp [cString, zero]
      · simp only [cString] at induction
        simp [cString, zero, induction]

/-- A terminated text is read back whatever stands behind its NUL. -/
theorem cString_append_zero
    {text : List Byte} (free : NulFree text) (rest : List Byte) :
    cString (text ++ 0 :: rest) = text :=
  (cString_append_terminator text rest).trans (cString_of_nulFree free)

theorem cString_append_of_nulFree
    {text : List Byte} (free : NulFree text) (rest : List Byte) :
    cString (text ++ rest) = text ++ cString rest := by
  induction text with
  | nil => rfl
  | cons head tail induction =>
      rw [nulFree_cons_iff] at free
      have tailRead := induction free.2
      simp only [cString] at tailRead ⊢
      simp [free.1, tailRead]

theorem cString_length_le (array : List Byte) :
    (cString array).length ≤ array.length :=
  (List.takeWhile_sublist _).length_le

/-- A terminator inside the array stops the string before the array ends. -/
theorem cString_length_lt
    {array : List Byte} (terminated : 0 ∈ array) :
    (cString array).length < array.length := by
  apply lt_of_le_of_ne (cString_length_le array)
  intro equal
  have whole : cString array = array :=
    (List.takeWhile_sublist _).eq_of_length equal
  exact nulFree_cString array 0 (by rwa [whole]) rfl

/-- Up to its end an array reads as its string. -/
theorem getElem?_of_lt_cString
    {array : List Byte} {k : Nat} (inside : k < (cString array).length) :
    array[k]? = (cString array)[k]? := by
  have split : cString array ++ array.dropWhile (· != 0) = array :=
    List.takeWhile_append_dropWhile
  calc
    array[k]? = (cString array ++ array.dropWhile (· != 0))[k]? := by
      rw [split]
    _ = (cString array)[k]? := List.getElem?_append_left inside

/-- Behind the string stands the terminator. -/
theorem getElem?_length_cString
    {array : List Byte} (terminated : 0 ∈ array) :
    array[(cString array).length]? = some 0 := by
  induction array with
  | nil => cases terminated
  | cons head tail induction =>
      by_cases zero : head = 0
      · simp [cString, zero]
      · have later : 0 ∈ tail := by
          rcases List.mem_cons.mp terminated with here | later
          · exact absurd here.symm zero
          · exact later
        have found := induction later
        simp only [cString] at found ⊢
        simpa [zero] using found

/-- A terminated array is its string, the terminator and other bytes. -/
theorem exists_eq_cString_append
    {array : List Byte} (terminated : 0 ∈ array) :
    ∃ rest, array = cString array ++ 0 :: rest := by
  rcases List.eq_append_cons_of_mem terminated with
    ⟨text, rest, rfl, absent⟩
  have free := nulFree_of_not_mem absent
  exact ⟨rest, by rw [cString_append_zero free]⟩

/-- What a read finds that does not go behind the terminator. -/
theorem getElem?_of_le_cString
    {array : List Byte} (terminated : 0 ∈ array)
    {k : Nat} (bound : k ≤ (cString array).length) :
    ∃ c, array[k]? = some c ∧ (c = 0 ↔ k = (cString array).length) ∧
      (c ≠ 0 → (cString array)[k]? = some c) := by
  rcases Nat.lt_or_eq_of_le bound with inside | rfl
  · have read := getElem?_of_lt_cString inside
    rw [List.getElem?_eq_getElem inside] at read
    have nonzero := nulFree_cString array _ (List.getElem_mem inside)
    refine ⟨_, read, ?_, fun _ => List.getElem?_eq_getElem inside⟩
    simp [nonzero, Nat.ne_of_lt inside]
  · exact ⟨0, getElem?_length_cString terminated, by simp,
      fun nonzero => absurd rfl nonzero⟩

/-- `strlen`; `none` stands for an array without terminator. -/
def strlen (array : List Byte) : Option Nat :=
  if 0 ∈ array then some (cString array).length else none

theorem strlen_eq_some_iff (array : List Byte) (length : Nat) :
    strlen array = some length ↔
      0 ∈ array ∧ (cString array).length = length := by
  simp only [strlen]
  split_ifs with terminated <;> simp [terminated]

/-- The bytes that `strlen` counts. -/
theorem take_strlen
    {array : List Byte} {length : Nat}
    (counted : strlen array = some length) :
    array.take length = cString array := by
  rcases (strlen_eq_some_iff _ _).mp counted with ⟨_, rfl⟩
  exact (List.prefix_iff_eq_take.mp (List.takeWhile_prefix _)).symm

/-- A string ends at once exactly if its first byte is the terminator. -/
theorem cString_eq_nil_iff
    {array : List Byte} (terminated : 0 ∈ array) :
    cString array = [] ↔ array[0]? = some 0 := by
  cases array with
  | nil => cases terminated
  | cons head tail =>
      by_cases zero : head = 0 <;> simp [cString, zero]

/--
`strcmp(first, second) == 0`; `none` stands for a comparison that finds neither
a difference nor a terminator in the arrays.
-/
def strcmp : List Byte → List Byte → Option Bool
  | a :: first, b :: second =>
      if a = b then
        if a = 0 then some true else strcmp first second
      else
        some false
  | _, _ => none

/-- In arrays of one size a terminator in the second is enough. -/
theorem strcmp_of_terminated
    {first second : List Byte} (size : first.length = second.length)
    (terminated : 0 ∈ second) :
    strcmp first second = some (decide (cString first = cString second)) := by
  induction first generalizing second with
  | nil =>
      have empty : second = [] := List.length_eq_zero_iff.mp size.symm
      rw [empty] at terminated
      cases terminated
  | cons a first induction =>
      cases second with
      | nil => cases terminated
      | cons b second =>
          rw [strcmp]
          by_cases same : a = b
          · subst same
            by_cases zero : a = 0
            · simp [cString, zero]
            · have later : 0 ∈ second := by
                rcases List.mem_cons.mp terminated with here | later
                · exact absurd here.symm zero
                · exact later
              have heads : cString first = cString second ↔
                  cString (a :: first) = cString (a :: second) := by
                simp [cString, zero]
              rw [if_pos rfl, if_neg zero,
                induction (Nat.succ.inj size) later]
              exact congrArg some (decide_eq_decide.mpr heads)
          · rw [if_neg same]
            by_cases zero : a = 0
            · have other : b ≠ 0 := fun equal =>
                same (zero.trans equal.symm)
              simp [cString, zero, other]
            · by_cases other : b = 0
              · simp [cString, zero, other]
              · simp [cString, zero, other, same]

/-! ## Writing into an array -/

/-- Store `written` over the first bytes of an array. -/
def overwrite (written array : List Byte) : List Byte :=
  written ++ array.drop written.length

theorem length_overwrite
    {written array : List Byte}
    (fits : written.length ≤ array.length) :
    (overwrite written array).length = array.length := by
  simp only [overwrite, List.length_append, List.length_drop]
  omega

/-- Behind the written bytes an array is unchanged. -/
theorem getElem?_overwrite_of_le
    {written array : List Byte} {i : Nat} (behind : written.length ≤ i) :
    (overwrite written array)[i]? = array[i]? := by
  rw [overwrite, List.getElem?_append_right behind,
    List.getElem?_drop]
  congr 1
  omega

/--
`strcpy`.  The source is read to its terminator, which is copied too; `none`
stands for a source without terminator or a target that is too short.
-/
def strcpy (target source : List Byte) : Option (List Byte) :=
  if 0 ∈ source ∧ (cString source).length < target.length then
    some (overwrite (cString source ++ [0]) target)
  else
    none

theorem strcpy_eq_some_iff
    (target source copied : List Byte) :
    strcpy target source = some copied ↔
      (0 ∈ source ∧ (cString source).length < target.length) ∧
        overwrite (cString source ++ [0]) target = copied := by
  simp only [strcpy]
  split_ifs with inside <;> simp [inside]

theorem strcpy_length
    {target source copied : List Byte}
    (copy : strcpy target source = some copied) :
    copied.length = target.length := by
  obtain ⟨⟨_, fits⟩, rfl⟩ := (strcpy_eq_some_iff _ _ _).mp copy
  apply length_overwrite
  simpa using Nat.succ_le_of_lt fits

/-- The copy reads back as the source string. -/
theorem strcpy_text
    {target source copied : List Byte}
    (copy : strcpy target source = some copied) :
    cString copied = cString source := by
  obtain ⟨_, rfl⟩ := (strcpy_eq_some_iff _ _ _).mp copy
  rw [overwrite, List.append_assoc, List.singleton_append]
  exact cString_append_zero (nulFree_cString source) _

/-- The copy carries its own terminator. -/
theorem strcpy_terminated
    {target source copied : List Byte}
    (copy : strcpy target source = some copied) :
    0 ∈ copied := by
  obtain ⟨_, rfl⟩ := (strcpy_eq_some_iff _ _ _).mp copy
  simp [overwrite]

end NetworkingLab.Foundation.CString
