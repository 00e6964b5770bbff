import Mathlib.Algebra.Order.Ring.Nat
import Mathlib.Data.List.Basic
import NetworkingLab.Foundation.CString

/-!
# The sends of the reversing client

The client reads a file in chunks and calls `send` until a chunk is accepted.
The rest of a chunk begins at `p`, but every call is given `buffer`, the
beginning of the chunk.  `sizeof(buffer)` is the size of a pointer, so a chunk
has at most 8 bytes.

`short_writes_iff` says for which counts returned by `send` the accepted bytes
are the file.
-/

namespace NetworkingLab.Reversal

open NetworkingLab.Foundation.CString

/-- `sizeof(buffer)`. -/
def sizeofBuffer : Nat :=
  8

/--
The counts that `send` returns, by the number of the call and the length asked
for.
-/
structure Kernel where
  count : Nat → Nat → Nat
  positive : ∀ call asked, 0 < asked → 0 < count call asked
  bounded : ∀ call asked, count call asked ≤ asked

/-! ## The loops -/

/--
The loop `while(read_bytes > 0)`, with the number of calls and the accepted
bytes.
-/
def sendLoop (kernel : Kernel) (buffer : List Byte)
    (read_bytes p call : Nat) (accepted : List Byte) :
    Nat × List Byte :=
  if 0 < read_bytes then
    let bytes_sent := kernel.count call read_bytes
    -- the call is given `buffer`, and `p` is not used
    sendLoop kernel buffer (read_bytes - bytes_sent) (p + bytes_sent)
      (call + 1) (accepted ++ buffer.take bytes_sent)
  else
    (call, accepted)
termination_by read_bytes
decreasing_by
  have := kernel.positive call read_bytes ‹_›
  omega

/-- The loop over the chunks of the file. -/
def readLoop (kernel : Kernel) (fd buffer : List Byte) (call : Nat)
    (accepted : List Byte) : List Byte :=
  if (fd.take sizeofBuffer).length = 0 then
    accepted
  else
    let buffer := overwrite (fd.take sizeofBuffer) buffer
    let sent := sendLoop kernel buffer (fd.take sizeofBuffer).length 0
      call accepted
    readLoop kernel (fd.drop sizeofBuffer) buffer sent.1 sent.2
termination_by fd.length
decreasing_by
  simp only [sizeofBuffer, List.length_take, List.length_drop] at *
  omega

/-- The bytes that the server receives. -/
def sendFile (kernel : Kernel) (buffer fd : List Byte) : List Byte :=
  readLoop kernel fd buffer 0 []

/-! ## The counts -/

/-- The counts that are returned for a chunk. -/
def counts (kernel : Kernel) (call left : Nat) : List Nat :=
  if 0 < left then
    kernel.count call left ::
      counts kernel (call + 1) (left - kernel.count call left)
  else
    []
termination_by left
decreasing_by
  have := kernel.positive call left ‹_›
  omega

/-- The chunks of a file with their counts. -/
def rounds (kernel : Kernel) (call : Nat) (fd : List Byte) :
    List (List Byte × List Nat) :=
  if fd = [] then
    []
  else
    let returned := counts kernel call (fd.take sizeofBuffer).length
    (fd.take sizeofBuffer, returned) ::
      rounds kernel (call + returned.length) (fd.drop sizeofBuffer)
termination_by fd.length
decreasing_by
  rename_i nonempty
  have := List.length_pos_iff.mpr nonempty
  simp only [sizeofBuffer, List.length_drop]
  omega

/-- A chunk is accepted once the counts are used up. -/
theorem sum_counts (kernel : Kernel) (call left : Nat) :
    (counts kernel call left).sum = left := by
  induction call, left using counts.induct kernel with
  | case1 call left positive induction =>
      have bound := kernel.bounded call left
      rw [counts, if_pos positive, List.sum_cons, induction]
      exact Nat.add_sub_cancel' bound
  | case2 call left none_left =>
      rw [counts, if_neg none_left]
      exact (Nat.eq_zero_of_not_pos none_left).symm

/-- Every call accepts bytes from the start of the buffer. -/
theorem sendLoop_eq
    (kernel : Kernel) (buffer : List Byte) (read_bytes p call : Nat)
    (accepted : List Byte) :
    sendLoop kernel buffer read_bytes p call accepted =
      (call + (counts kernel call read_bytes).length,
        accepted ++
          (counts kernel call read_bytes).flatMap
            fun count => buffer.take count) := by
  induction call, read_bytes using counts.induct kernel
    generalizing p accepted with
  | case1 call left positive induction =>
      rw [sendLoop, counts, if_pos positive, if_pos positive]
      dsimp only
      rw [induction, List.length_cons, List.flatMap_cons,
        List.append_assoc, Nat.add_assoc, Nat.add_comm 1]
  | case2 call left none_left =>
      rw [sendLoop, counts, if_neg none_left, if_neg none_left]
      simp

theorem count_le
    {kernel : Kernel} {call left count : Nat}
    (member : count ∈ counts kernel call left) :
    count ≤ left := by
  rcases List.append_of_mem member with ⟨front, back, split⟩
  have total := sum_counts kernel call left
  rw [split, List.sum_append, List.sum_cons] at total
  omega

/-- The bytes of the file do not stay in the buffer from earlier chunks. -/
theorem take_overwrite
    {chunk : List Byte} {count : Nat} (inside : count ≤ chunk.length)
    (buffer : List Byte) :
    (overwrite chunk buffer).take count = chunk.take count := by
  rw [overwrite, List.take_append_of_le_length inside]

/-- The bytes accepted for a chunk with these counts. -/
def acceptedOf (round : List Byte × List Nat) : List Byte :=
  round.2.flatMap fun count => round.1.take count

/-- For every chunk its start is accepted again and again. -/
theorem readLoop_eq
    (kernel : Kernel) (fd buffer : List Byte) (call : Nat)
    (accepted : List Byte) :
    readLoop kernel fd buffer call accepted =
      accepted ++ (rounds kernel call fd).flatMap acceptedOf := by
  induction call, fd using rounds.induct kernel
    generalizing buffer accepted with
  | case1 call =>
      rw [readLoop, rounds]
      simp
  | case2 call fd more returned induction =>
      have starts :
          returned.flatMap
              (fun count =>
                (overwrite (fd.take sizeofBuffer) buffer).take count) =
            acceptedOf (fd.take sizeofBuffer, returned) := by
        apply List.flatMap_congr
        intro count member
        exact take_overwrite (count_le member) buffer
      have positive : (fd.take sizeofBuffer).length ≠ 0 := by
        simpa [sizeofBuffer] using more
      rw [readLoop, rounds, if_neg positive, if_neg more]
      simp only [sendLoop_eq, List.flatMap_cons]
      rw [starts, induction, List.append_assoc]

/-! ## Counts that do no harm -/

/--
The bytes that a call accepts from the start of the chunk are those at its
place.
-/
def Harmless (round : List Byte × List Nat) : Prop :=
  ∀ front count back, round.2 = front ++ count :: back →
    round.1.take count = (round.1.drop front.sum).take count

/-- From an offset on the accepted bytes are the rest of the chunk. -/
theorem flatMap_take_eq_iff
    (chunk : List Byte) (returned : List Nat) {offset : Nat}
    (total : offset + returned.sum = chunk.length) :
    returned.flatMap (fun count => chunk.take count) =
        chunk.drop offset ↔
      ∀ front count back, returned = front ++ count :: back →
        chunk.take count =
          (chunk.drop (offset + front.sum)).take count := by
  induction returned generalizing offset with
  | nil =>
      rw [List.sum_nil, Nat.add_zero] at total
      constructor
      · intro _ front count back split
        cases front <;> cases split
      · intro _
        rw [List.flatMap_nil, total, List.drop_length]
  | cons first later induction =>
      rw [List.sum_cons] at total
      have rest := @induction (offset + first) (by omega)
      have parts : chunk.drop offset =
          (chunk.drop offset).take first ++
            chunk.drop (offset + first) := by
        rw [← List.drop_drop, List.take_append_drop]
      have sizes : (chunk.take first).length =
          ((chunk.drop offset).take first).length := by
        rw [List.length_take, List.length_take, List.length_drop]
        omega
      rw [List.flatMap_cons]
      constructor
      · intro same
        rw [parts] at same
        rcases List.append_inj same sizes with ⟨here, behind⟩
        rintro (_ | ⟨head, front⟩) count back split
        · cases split
          exact here
        · cases split
          have there := rest.mp behind front count back rfl
          rw [Nat.add_assoc] at there
          exact there
      · intro harmless
        have here := harmless [] first later rfl
        have behind := rest.mpr fun front count back split => by
          have there := harmless (first :: front) count back
            (congrArg (first :: ·) split)
          rw [List.sum_cons, ← Nat.add_assoc] at there
          exact there
        rw [behind, parts]
        exact congrArg (· ++ _) here

theorem acceptedOf_eq_iff
    {round : List Byte × List Nat}
    (total : round.2.sum = round.1.length) :
    acceptedOf round = round.1 ↔ Harmless round := by
  have general := @flatMap_take_eq_iff round.1 round.2 0
    (by rw [Nat.zero_add, total])
  simp only [List.drop_zero, Nat.zero_add] at general
  exact general

/-- As many bytes are accepted as the counts say. -/
theorem length_acceptedOf
    (chunk : List Byte) {returned : List Nat}
    (inside : returned.sum ≤ chunk.length) :
    (acceptedOf (chunk, returned)).length = returned.sum := by
  induction returned with
  | nil => rfl
  | cons first later induction =>
      rw [List.sum_cons] at inside ⊢
      have rest := induction (by omega)
      have here : (chunk.take first).length = first := by
        rw [List.length_take]
        omega
      rw [acceptedOf, List.flatMap_cons, List.length_append, here]
      exact congrArg (first + ·) rest

/-- The bytes that are accepted over all chunks. -/
theorem flatMap_acceptedOf_eq_iff
    (kernel : Kernel) (call : Nat) (fd : List Byte) :
    (rounds kernel call fd).flatMap acceptedOf = fd ↔
      ∀ round ∈ rounds kernel call fd, Harmless round := by
  induction call, fd using rounds.induct kernel with
  | case1 call =>
      rw [rounds]
      simp
  | case2 call fd more returned induction =>
      have whole : returned.sum = (fd.take sizeofBuffer).length :=
        sum_counts kernel call _
      have size := length_acceptedOf _ (Nat.le_of_eq whole)
      have parts (later : List Byte) :
          acceptedOf (fd.take sizeofBuffer, returned) ++ later = fd ↔
            acceptedOf (fd.take sizeofBuffer, returned) =
                fd.take sizeofBuffer ∧
              later = fd.drop sizeofBuffer := by
        rw [← List.append_eq_append_iff_of_size_eq_left
          (size.trans whole), List.take_append_drop]
      rw [rounds, if_neg more]
      simp only [List.flatMap_cons, List.forall_mem_cons]
      rw [← induction, ← acceptedOf_eq_iff whole]
      exact parts _

/--
The accepted bytes are the file if and only if no call finds other bytes at the
start of its chunk than at its place.
-/
theorem short_writes_iff
    (kernel : Kernel) (buffer fd : List Byte) :
    sendFile kernel buffer fd = fd ↔
      ∀ round ∈ rounds kernel 0 fd, Harmless round := by
  rw [sendFile, readLoop_eq, List.nil_append]
  exact flatMap_acceptedOf_eq_iff kernel 0 fd

/-- A chunk that is accepted at once has a single count. -/
theorem counts_of_whole
    {kernel : Kernel} (whole : ∀ call asked, kernel.count call asked = asked)
    (call left : Nat) :
    counts kernel call left = if 0 < left then [left] else [] := by
  rw [counts]
  split
  · rw [whole, Nat.sub_self, counts, if_neg (Nat.lt_irrefl 0)]
  · rfl

theorem harmless_of_whole
    {kernel : Kernel} (whole : ∀ call asked, kernel.count call asked = asked)
    (call : Nat) (fd : List Byte) :
    ∀ round ∈ rounds kernel call fd, Harmless round := by
  induction call, fd using rounds.induct kernel with
  | case1 call =>
      rw [rounds, if_pos rfl]
      intro round member
      cases member
  | case2 call fd more returned induction =>
      rw [rounds, if_neg more]
      simp only [List.forall_mem_cons]
      refine ⟨?_, induction⟩
      rw [counts_of_whole whole]
      intro front count back split
      rcases front with _ | ⟨head, front⟩
      · rw [List.sum_nil, List.drop_zero]
      · -- there is no second count
        split_ifs at split <;> simp at split

/-- The file arrives if every call accepts all that it is asked for. -/
theorem sendFile_of_whole
    {kernel : Kernel} (whole : ∀ call asked, kernel.count call asked = asked)
    (buffer fd : List Byte) :
    sendFile kernel buffer fd = fd := by
  rw [sendFile, readLoop_eq, List.nil_append]
  exact (flatMap_acceptedOf_eq_iff kernel 0 fd).mpr
    (harmless_of_whole whole 0 fd)

/-- Every call accepts one byte. -/
theorem oneByOne_positive (asked : Nat) (positive : 0 < asked) :
    0 < min 1 asked := by
  omega

def oneByOne : Kernel where
  count := fun _ asked => min 1 asked
  positive := fun _ => oneByOne_positive
  bounded := fun _ => Nat.min_le_right 1

/-- The file "ab" arrives as "aa". -/
theorem first_byte_repeated :
    ¬ ∀ (kernel : Kernel) (buffer fd : List Byte),
      sendFile kernel buffer fd = fd := by
  intro always
  have sent := always oneByOne [] [97, 98]
  have repeated : sendFile oneByOne [] [97, 98] = [97, 97] := by
    simp [sendFile, readLoop, sendLoop, sizeofBuffer, oneByOne, overwrite]
  rw [repeated] at sent
  cases sent

end NetworkingLab.Reversal
