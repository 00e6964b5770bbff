import NetworkingLab.Foundation.CString
import NetworkingLab.Foundation.Words
import Mathlib.Data.List.DropRight

/-!
# Reading words with `%s`

`fscanf` with the format `%s` skips white space, stores the word it finds with
a terminator and leaves the rest of the file to the next call.  At the end of
the file it returns -1 and stores nothing.  It does not know the size of the
array; `none` stands for a word that does not fit.

`sscanf` with a literal before `%s` stores a word only if its string starts
with the literal; else the array keeps what it held.

`fscanf` with the format `%[^\n]s` reads a line up to its newline, which is
left in the file, so that every later call finds an empty line there.
-/

namespace NetworkingLab.Foundation.Scan

open NetworkingLab.Foundation.CString
open NetworkingLab.Foundation.Words

/-- White space of the C locale: the blank and the controls 9 to 13. -/
def isspace (c : Byte) : Bool :=
  c == 32 || (9 ≤ c && c ≤ 13)

/-- The result of a call: its return value, the array, the rest of the file. -/
structure Conversion where
  read : Int
  array : List Byte
  rest : List Byte

/-- `fscanf(fp, "%s", array)`. -/
def fscanf (array fp : List Byte) : Option Conversion :=
  let text := fp.dropWhile isspace
  let word := text.takeWhile fun c => !isspace c
  if text = [] then
    some ⟨-1, array, []⟩
  else if word.length < array.length then
    some ⟨1, overwrite (word ++ [0]) array,
      text.dropWhile fun c => !isspace c⟩
  else
    none

/-- A call keeps the size of the array. -/
theorem fscanf_length
    {array fp : List Byte} {conversion : Conversion}
    (call : fscanf array fp = some conversion) :
    conversion.array.length = array.length := by
  simp only [fscanf] at call
  split_ifs at call with ended fits
  · cases call
    rfl
  · cases call
    apply length_overwrite
    simpa using Nat.succ_le_of_lt fits

/-- At the end of the words the file has ended. -/
theorem fscanf_eof
    (array : List Byte) {fp : List Byte}
    (ended : words isspace fp = []) :
    fscanf array fp = some ⟨-1, array, []⟩ := by
  have empty : fp.dropWhile isspace = [] := by
    by_contra nonempty
    have split := (words_eq_cons isspace nonempty
      (List.dropWhile_idempotent _ _)).2
    rw [words_dropWhile, ended] at split
    cases split
  simp [fscanf, empty]

/-- What the call finds when the file has another word. -/
theorem next_word
    {fp word : List Byte} {later : List (List Byte)}
    (next : words isspace fp = word :: later) :
    fp.dropWhile isspace ≠ [] ∧ word ≠ [] ∧
      (fp.dropWhile isspace).takeWhile (fun c => !isspace c) = word ∧
      words isspace
        ((fp.dropWhile isspace).dropWhile fun c => !isspace c) = later := by
  have nonempty : fp.dropWhile isspace ≠ [] := by
    intro empty
    rw [← words_dropWhile, empty, words_nil] at next
    cases next
  rcases words_eq_cons isspace nonempty (List.dropWhile_idempotent _ _) with
    ⟨found, split⟩
  rw [words_dropWhile, next, List.cons.injEq] at split
  rcases split with ⟨head, tail⟩
  rw [← head] at found
  exact ⟨nonempty, found, head.symm, tail.symm⟩

/-- The next word is stored, and the later ones remain. -/
theorem fscanf_word
    {array fp word : List Byte} {later : List (List Byte)}
    (next : words isspace fp = word :: later)
    (fits : word.length < array.length) :
    ∃ rest,
      fscanf array fp = some ⟨1, overwrite (word ++ [0]) array, rest⟩ ∧
        words isspace rest = later ∧ rest.length < fp.length := by
  rcases next_word next with ⟨nonempty, found, head, tail⟩
  refine ⟨_, ?_, tail, ?_⟩
  · simp only [fscanf, nonempty, if_false, head, fits, if_true]
  · have parts := congrArg List.length
      (List.takeWhile_append_dropWhile (p := fun c => !isspace c)
        (l := fp.dropWhile isspace))
    rw [head, List.length_append] at parts
    have positive : 0 < word.length := List.length_pos_iff.mpr found
    have shorter := List.length_dropWhile_le isspace fp
    omega

/-- A word that does not fit its array. -/
theorem fscanf_overflow
    {array fp word : List Byte} {later : List (List Byte)}
    (next : words isspace fp = word :: later)
    (long : array.length ≤ word.length) :
    fscanf array fp = none := by
  rcases next_word next with ⟨nonempty, _, head, _⟩
  simp only [fscanf, nonempty, if_false, head, Nat.not_lt.mpr long]

/-- The stored array reads back as the word. -/
theorem cString_stored
    {word : List Byte} (nulFree : NulFree word) (array : List Byte) :
    cString (overwrite (word ++ [0]) array) = word := by
  rw [overwrite, List.append_assoc, List.singleton_append]
  exact cString_append_zero nulFree _

/-! ## A literal before the word -/

section Literal

variable (literal : List Byte)

/-- The array after `sscanf(data, "literal %s", array)`. -/
def sscanf (data array : List Byte) : Option (List Byte) :=
  if 0 ∈ data then
    if literal <+: cString data then
      (fscanf array ((cString data).drop literal.length)).map
        Conversion.array
    else
      some array
  else
    none

/-- The word that the conversion stores, if it takes place. -/
def scanned (data : List Byte) : Option (List Byte) :=
  if literal <+: cString data then
    (words isspace ((cString data).drop literal.length)).head?
  else
    none

variable {literal}

theorem words_of_scanned
    {data word : List Byte} (found : scanned literal data = some word) :
    literal <+: cString data ∧
      ∃ later, words isspace ((cString data).drop literal.length) =
        word :: later := by
  simp only [scanned] at found
  split_ifs at found with starts
  exact ⟨starts, List.head?_eq_some_iff.mp found⟩

theorem scanned_nulFree
    {data word : List Byte} (found : scanned literal data = some word) :
    NulFree word := by
  rcases words_of_scanned found with ⟨_, later, split⟩
  have member : word ∈
      words isspace ((cString data).drop literal.length) := by
    simp [split]
  have part := (solid_of_mem_words isspace member).2.2
  exact (nulFree_cString data).of_sublist
    (part.sublist.trans (List.drop_sublist _ _))

/-- Without a word the array keeps what it held. -/
theorem sscanf_of_scanned_none
    {data : List Byte} (terminated : 0 ∈ data)
    (missed : scanned literal data = none) (array : List Byte) :
    sscanf literal data array = some array := by
  simp only [scanned] at missed
  simp only [sscanf, terminated, if_true]
  split_ifs at missed ⊢ with starts
  · rw [fscanf_eof array (List.head?_eq_none_iff.mp missed)]
    rfl
  · rfl

/-- A word that fits is stored. -/
theorem sscanf_of_scanned
    {data word array : List Byte} (terminated : 0 ∈ data)
    (found : scanned literal data = some word)
    (fits : word.length < array.length) :
    sscanf literal data array =
      some (overwrite (word ++ [0]) array) := by
  rcases words_of_scanned found with ⟨starts, later, split⟩
  rcases fscanf_word split fits with ⟨rest, stored, _⟩
  simp [sscanf, terminated, starts, stored]

/-- The reads and writes stay inside exactly in these cases. -/
theorem sscanf_isSome_iff
    (data array : List Byte) :
    (sscanf literal data array).isSome ↔
      0 ∈ data ∧ ∀ word, scanned literal data = some word →
        word.length < array.length := by
  by_cases terminated : 0 ∈ data
  · cases found : scanned literal data with
    | none => simp [sscanf_of_scanned_none terminated found, terminated]
    | some word =>
        by_cases fits : word.length < array.length
        · simp [sscanf_of_scanned terminated found fits, terminated, fits]
        · rcases words_of_scanned found with ⟨starts, later, split⟩
          simp [sscanf, terminated, starts,
            fscanf_overflow split (Nat.not_lt.mp fits), fits]
  · simp [sscanf, terminated]

end Literal

/-! ## A line -/

/--
`fscanf(fp, "%[^\n]s", array)`.  The letter behind the conversion is compared
with the newline and does not match, so the newline stays in the file.
-/
def fscanfLine (array fp : List Byte) : Option Conversion :=
  let line := fp.takeWhile (· != 10)
  if fp = [] then
    some ⟨-1, array, []⟩
  else if line = [] then
    some ⟨0, array, fp⟩
  else if line.length < array.length then
    some ⟨1, overwrite (line ++ [0]) array, fp.dropWhile (· != 10)⟩
  else
    none

/-- In front of a newline nothing is read, however often it is called. -/
theorem fscanfLine_newline (array rest : List Byte) :
    fscanfLine array (10 :: rest) = some ⟨0, array, 10 :: rest⟩ := by
  simp [fscanfLine]

/-- What a call leaves starts with the first newline of the file. -/
theorem fscanfLine_rest
    {array fp : List Byte} {conversion : Conversion}
    (call : fscanfLine array fp = some conversion) :
    conversion.rest = fp.dropWhile (· != 10) := by
  simp only [fscanfLine] at call
  split_ifs at call with ended empty
  · cases call
    rw [ended]
    rfl
  · cases call
    have split := List.takeWhile_append_dropWhile
      (p := (· != 10)) (l := fp)
    rw [empty, List.nil_append] at split
    exact split.symm
  · cases call
    rfl

/-- Only at the end of the file the return value is negative. -/
theorem fscanfLine_read
    {array fp : List Byte} {conversion : Conversion}
    (call : fscanfLine array fp = some conversion)
    (negative : conversion.read < 0) :
    fp = [] := by
  simp only [fscanfLine] at call
  split_ifs at call with ended empty
  · exact ended
  · cases call
    cases negative
  · cases call
    cases negative

end NetworkingLab.Foundation.Scan
