import NetworkingLab.SelectiveRepeat.EndToEnd

/-!
# Files cut into packets and put together again

`makepackets` cuts a file into chunks of 19 bytes and copies each of them into a
slot as a string; `print` goes through the slots that are valid.

`packetised_iff` says from which files all bytes come back: the block has room
for 99 chunks and an empty one, and a zero byte ends the string of its chunk.
-/

namespace NetworkingLab.SelectiveRepeat

open NetworkingLab.Foundation.CString

/-- `print`: the numbers and the strings of the valid slots, in slot order. -/
def print (ptr : Buffer) : List (Int × List Byte) :=
  ((List.finRange 100).filter fun i => (ptr i).sno ≠ -1).map
    fun i => ((ptr i).sno, (ptr i).payload.text)

/--
`makepackets` stays inside the block, the slots up to the rounded quotient have
their own numbers, the others are invalid, and the strings in slot order are
the file.
-/
def Packetised (ptr : Buffer) (file : List Byte) : Prop :=
  ∃ buffer : Buffer,
    makepackets (makeinvalid ptr) file = some buffer ∧
      (∀ j : Fin 100, (j : Nat) ≤ (file.length + 18) / 19 →
        (buffer j).sno = (j : Nat)) ∧
      (∀ j : Fin 100, (file.length + 18) / 19 < (j : Nat) →
        (buffer j).sno = -1) ∧
      (print buffer).flatMap Prod.snd = file

/-- What is printed are strings. -/
theorem print_nulFree (ptr : Buffer) :
    NulFree ((print ptr).flatMap Prod.snd) := by
  intro byte member
  rcases List.mem_flatMap.mp member with ⟨line, printed, inside⟩
  rcases List.mem_map.mp printed with ⟨i, _, rfl⟩
  exact nulFree_cString _ byte inside

/-- The block has room for 99 chunks. -/
theorem packetCount_le_iff (file : List Byte) :
    packetCount file ≤ 100 ↔ file.length ≤ 1881 := by
  rw [packetCount]
  omega

theorem makepackets_fits
    {ptr buffer : Buffer} {file : List Byte}
    (made : makepackets ptr file = some buffer) :
    packetCount file ≤ 100 := by
  by_contra large
  have outside := makepacketsLoop_outside 101 0 file ptr (by omega)
  rw [makepackets] at made
  cases made.symm.trans outside

/-- The valid slots of a prepared buffer are the filled ones. -/
theorem Prepared.sno_ne_iff
    {file : List Byte} {buffer : Buffer} (prepared : Prepared file buffer)
    (j : Fin 100) :
    (buffer j).sno ≠ -1 ↔ (j : Nat) < packetCount file := by
  constructor
  · intro valid
    by_contra behind
    exact valid (prepared.invalid j (Nat.not_lt.mp behind)).1
  · intro filled same
    rw [(prepared.filled j filled).sno] at same
    omega

/-- A prepared buffer of a text prints the text. -/
theorem Prepared.print_eq
    {file : List Byte} {buffer : Buffer} (prepared : Prepared file buffer)
    (fits : packetCount file ≤ 100) (text : NulFree file) :
    (print buffer).flatMap Prod.snd = file := by
  have slots :
      ((List.finRange 100).filter fun i => (buffer i).sno ≠ -1) =
        (List.finRange 100).filter
          fun j : Fin 100 => (j : Nat) < packetCount file := by
    apply List.filter_congr
    intro j _
    simp [prepared.sno_ne_iff j]
  have payloads : ∀ j : Fin 100, (j : Nat) < packetCount file →
      (buffer j).payload.text = chunk file j :=
    fun j filled => prepared.text_eq_chunk text filled
  rw [print, slots, List.flatMap_map, flatMap_slots fits payloads]
  exact flatten_chunks file

/--
A file is cut into packets without loss if and only if it has at most 1881
bytes and none of them is zero.
-/
theorem packetised_iff (ptr : Buffer) (file : List Byte) :
    Packetised ptr file ↔ file.length ≤ 1881 ∧ NulFree file := by
  constructor
  · rintro ⟨buffer, made, _, _, whole⟩
    refine ⟨(packetCount_le_iff file).mp (makepackets_fits made), ?_⟩
    rw [← whole]
    exact print_nulFree buffer
  · rintro ⟨short, text⟩
    have fits := (packetCount_le_iff file).mpr short
    rcases makepackets_prepared ptr file fits with
      ⟨buffer, made, prepared⟩
    refine ⟨buffer, made, ?_, ?_, prepared.print_eq fits text⟩
    · intro j inside
      exact (prepared.filled j (Nat.lt_succ_of_le inside)).sno
    · intro j behind
      exact (prepared.invalid j behind).1

/-- A file with a zero byte in front of others loses them. -/
theorem zero_byte_lost :
    ¬ ∀ (ptr : Buffer) (file : List Byte), Packetised ptr file := by
  intro always
  rcases always zeroed [0, 97] with ⟨buffer, _, _, _, whole⟩
  have text := print_nulFree buffer
  rw [whole] at text
  exact text 0 List.mem_cons_self rfl

end NetworkingLab.SelectiveRepeat
