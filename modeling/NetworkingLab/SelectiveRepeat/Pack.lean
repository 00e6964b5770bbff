import Mathlib.Data.Fin.Basic
import Mathlib.Logic.Function.Basic
import Mathlib.Tactic.Common
import NetworkingLab.Foundation.CString

/-!
# Packets and packet buffers

`struct pack` and the two 100-slot buffers `datato` and `datafrom` of a peer.
A slot is reached through pointer arithmetic with an arbitrary `int`, so every
access goes through `slotIndex`, and an index outside `0 .. 99` makes the
operation undefined (`none`).

`makeinvalid` and `makepackets` prepare `datato`.  The main result is their
exact effect: a file whose packets fit fills the slots `0 .. count - 1` with
consecutive sequence numbers and 19-byte chunks, the last of them empty, and
leaves every other slot invalid.
-/

namespace NetworkingLab.SelectiveRepeat

open NetworkingLab.Foundation.CString

/-! ## `struct pack` -/

/-- The field `char payload[20]`. -/
structure Payload where
  bytes : List Byte
  size : bytes.length = 20
deriving DecidableEq

/-- The payload read as a string, as `print` and `strcpy` read it. -/
def Payload.text (payload : Payload) : List Byte :=
  cString payload.bytes

/-- A payload whose string ends inside the field. -/
def Payload.Terminated (payload : Payload) : Prop :=
  0 ∈ payload.bytes

/-- `strcpy` into a payload. -/
def Payload.copyFrom (target : Payload) (source : List Byte) :
    Option Payload :=
  match copy : strcpy target.bytes source with
  | none => none
  | some copied => some ⟨copied, (strcpy_length copy).trans target.size⟩

theorem Payload.copyFrom_text
    {target copied : Payload} {source : List Byte}
    (copy : target.copyFrom source = some copied) :
    copied.text = cString source := by
  unfold Payload.copyFrom at copy
  split at copy
  · cases copy
  · next bytes stored =>
      cases copy
      exact strcpy_text stored

theorem Payload.copyFrom_terminated
    {target copied : Payload} {source : List Byte}
    (copy : target.copyFrom source = some copied) :
    copied.Terminated := by
  unfold Payload.copyFrom at copy
  split at copy
  · cases copy
  · next bytes stored =>
      cases copy
      exact strcpy_terminated stored

theorem Payload.copyFrom_isSome
    (target : Payload) {source : List Byte}
    (terminated : 0 ∈ source) (short : (cString source).length < 20) :
    ∃ copied, target.copyFrom source = some copied := by
  have inside : strcpy target.bytes source =
      some (overwrite (cString source ++ [0]) target.bytes) := by
    rw [strcpy_eq_some_iff]
    exact ⟨⟨terminated, by rw [target.size]; exact short⟩, rfl⟩
  unfold Payload.copyFrom
  split
  · next absent =>
      rw [absent] at inside
      cases inside
  · exact ⟨_, rfl⟩

/-- `struct pack`. -/
structure Pack where
  sno : Int
  ackno : Int
  payload : Payload
deriving DecidableEq

/-! ## Buffers of 100 slots -/

/-- The block returned by `malloc(100*sizeof(struct pack))`. -/
abbrev Buffer := Fin 100 → Pack

/-- A payload of zero bytes. -/
def zeroPayload : Payload :=
  ⟨List.replicate 20 0, rfl⟩

/-- A block of zero bytes, one possible result of `malloc`. -/
def zeroed : Buffer :=
  fun _ => ⟨0, 0, zeroPayload⟩

/-- The slot `buffer + i`, when the pointer stays inside the block. -/
def slotIndex (i : Int) : Option (Fin 100) :=
  if inside : 0 ≤ i ∧ i < 100 then
    some ⟨i.toNat, by omega⟩
  else
    none

@[simp]
theorem slotIndex_coe (j : Fin 100) :
    slotIndex (j : Nat) = some j := by
  have bound := j.isLt
  simp only [slotIndex]
  split_ifs with inside
  · simp
  · omega

theorem slotIndex_eq_some_iff (i : Int) (j : Fin 100) :
    slotIndex i = some j ↔ i = (j : Nat) := by
  constructor
  · intro found
    simp only [slotIndex] at found
    split_ifs at found with inside
    cases found
    simp only
    omega
  · rintro rfl
    exact slotIndex_coe j

theorem slotIndex_eq_none_iff (i : Int) :
    slotIndex i = none ↔ i < 0 ∨ 100 ≤ i := by
  simp only [slotIndex]
  split_ifs with inside
  · simp only [false_iff]
    omega
  · simp only [true_iff]
    omega

/-- Reading `*(buffer + i)`. -/
def readSlot (buffer : Buffer) (i : Int) : Option Pack :=
  (slotIndex i).map buffer

@[simp]
theorem readSlot_coe (buffer : Buffer) (j : Fin 100) :
    readSlot buffer (j : Nat) = some (buffer j) := by
  simp [readSlot]

theorem readSlot_outside
    (buffer : Buffer) {i : Int} (outside : 100 ≤ i) :
    readSlot buffer i = none := by
  rw [readSlot, (slotIndex_eq_none_iff i).mpr (Or.inr outside)]
  rfl

/-! ## `makeinvalid` -/

/-- `makeinvalid`: both numbers of every slot become -1. -/
def makeinvalid (ptr : Buffer) : Buffer :=
  fun i => { ptr i with sno := -1, ackno := -1 }

@[simp]
theorem makeinvalid_sno (ptr : Buffer) (i : Fin 100) :
    (makeinvalid ptr i).sno = -1 :=
  rfl

@[simp]
theorem makeinvalid_ackno (ptr : Buffer) (i : Fin 100) :
    (makeinvalid ptr i).ackno = -1 :=
  rfl

/-! ## `makepackets` -/

/-- One pass of the loop body behind `fread`: fill slot `i` from `a`. -/
def fillSlot (buffer : Buffer) (i : Int) (a : List Byte) :
    Option Buffer :=
  match slotIndex i with
  | none => none
  | some j =>
      match (buffer j).payload.copyFrom (a ++ [0]) with
      | none => none
      | some payload =>
          some (Function.update buffer j ⟨i, -1, payload⟩)

/--
The `while(read != 0)` loop of `makepackets` at index `i`, with `fp` the part
of the file not read yet.  Every pass writes slot `i` and the block has 100
slots, so at most 101 passes are made before the write leaves the block.
-/
def makepacketsLoop : Nat → Int → List Byte → Buffer → Option Buffer
  | 0, _, _, _ => none
  | passes + 1, i, fp, buffer =>
      match fillSlot buffer i (fp.take 19) with
      | none => none
      | some filled =>
          if (fp.take 19).length ≠ 0 then
            makepacketsLoop passes (i + 1) (fp.drop 19) filled
          else
            some filled

/-- `makepackets`. -/
def makepackets (buffer : Buffer) (fp : List Byte) : Option Buffer :=
  makepacketsLoop 101 0 fp buffer

/-- The packets a file is cut into: its 19-byte chunks and an empty one. -/
def packetCount (file : List Byte) : Nat :=
  (file.length + 18) / 19 + 1

/-- The part of the file that packet `j` carries. -/
def chunk (file : List Byte) (j : Nat) : List Byte :=
  (file.drop (19 * j)).take 19

theorem chunk_drop (file : List Byte) (j : Nat) :
    chunk (file.drop 19) j = chunk file (j + 1) := by
  simp only [chunk, List.drop_drop]
  congr 2
  omega

/-- A slot that `makepackets` filled with packet `j` of the file. -/
structure FilledWith (file : List Byte) (j : Nat) (packet : Pack) :
    Prop where
  sno : packet.sno = j
  ackno : packet.ackno = -1
  text : packet.payload.text = cString (chunk file j)
  terminated : packet.payload.Terminated

/-- The state of `datato` after `makeinvalid` and `makepackets`. -/
structure Prepared (file : List Byte) (buffer : Buffer) : Prop where
  filled : ∀ j : Fin 100, (j : Nat) < packetCount file →
    FilledWith file j (buffer j)
  invalid : ∀ j : Fin 100, packetCount file ≤ (j : Nat) →
    (buffer j).sno = -1 ∧ (buffer j).ackno = -1

/-- One pass succeeds inside the block and writes slot `i` only. -/
theorem fillSlot_spec
    (buffer : Buffer) (j : Fin 100) {a : List Byte}
    (short : a.length ≤ 19) :
    ∃ payload : Payload,
      payload.text = cString a ∧ payload.Terminated ∧
        fillSlot buffer (j : Nat) a =
          some (Function.update buffer j ⟨(j : Nat), -1, payload⟩) := by
  have bounded : (cString (a ++ [0])).length < 20 := by
    rw [cString_append_terminator]
    exact (cString_length_le a).trans_lt (by omega)
  obtain ⟨payload, copy⟩ :=
    (buffer j).payload.copyFrom_isSome
      (show (0 : Byte) ∈ a ++ [0] by simp) bounded
  refine ⟨payload, ?_, Payload.copyFrom_terminated copy, ?_⟩
  · rw [Payload.copyFrom_text copy, cString_append_terminator]
  · simp [fillSlot, copy]

theorem fillSlot_outside
    (buffer : Buffer) {i : Int} (outside : 100 ≤ i) (a : List Byte) :
    fillSlot buffer i a = none := by
  have absent : slotIndex i = none :=
    (slotIndex_eq_none_iff i).mpr (Or.inr outside)
  simp [fillSlot, absent]

theorem packetCount_pos (file : List Byte) : 0 < packetCount file := by
  simp [packetCount]

theorem packetCount_of_empty
    {file : List Byte} (empty : (file.take 19).length = 0) :
    packetCount file = 1 := by
  simp only [List.length_take] at empty
  simp only [packetCount]
  omega

theorem packetCount_drop
    {file : List Byte} (nonempty : (file.take 19).length ≠ 0) :
    packetCount file = packetCount (file.drop 19) + 1 := by
  simp only [List.length_take] at nonempty
  simp only [packetCount, List.length_drop]
  omega

/--
The loop from slot `i` fills as many slots as the rest of the file has
packets and changes no other slot.
-/
theorem makepacketsLoop_spec
    (passes i : Nat) (fp : List Byte) (buffer : Buffer)
    (enough : packetCount fp ≤ passes)
    (fits : i + packetCount fp ≤ 100) :
    ∃ result : Buffer,
      makepacketsLoop passes i fp buffer = some result ∧
        (∀ j : Fin 100, (j : Nat) < i ∨ i + packetCount fp ≤ (j : Nat) →
          result j = buffer j) ∧
        ∀ (k : Nat) (inside : i + k < 100), k < packetCount fp →
          (result ⟨i + k, inside⟩).sno = (i + k : Nat) ∧
            (result ⟨i + k, inside⟩).ackno = -1 ∧
            (result ⟨i + k, inside⟩).payload.text =
              cString (chunk fp k) ∧
            (result ⟨i + k, inside⟩).payload.Terminated := by
  induction passes generalizing i fp buffer with
  | zero =>
      have := packetCount_pos fp
      omega
  | succ passes induction =>
      have slotBound : i < 100 := by
        have := packetCount_pos fp
        omega
      obtain ⟨payload, text, terminated, filled⟩ :=
        fillSlot_spec buffer ⟨i, slotBound⟩ (a := fp.take 19)
          (by simp only [List.length_take]; omega)
      simp only at filled
      have firstChunk : chunk fp 0 = fp.take 19 := by
        simp [chunk]
      by_cases empty : (fp.take 19).length = 0
      · have single := packetCount_of_empty empty
        refine ⟨_, by simp only [makepacketsLoop, filled, empty]; rfl,
          ?_, ?_⟩
        · intro j outside
          have other : j ≠ ⟨i, slotBound⟩ := by
            intro equal
            simp only [equal] at outside
            omega
          simp [Function.update_of_ne other]
        · intro k inside bound
          have : k = 0 := by omega
          subst this
          simp [firstChunk, text, terminated]
      · have more := packetCount_drop empty
        obtain ⟨result, run, frame, written⟩ :=
          induction (i + 1) (fp.drop 19)
            (Function.update buffer ⟨i, slotBound⟩
              ⟨(i : Nat), -1, payload⟩)
            (by omega) (by omega)
        refine ⟨result, ?_, ?_, ?_⟩
        · simp only [makepacketsLoop, filled, ne_eq, empty,
            not_false_eq_true, if_true]
          exact_mod_cast run
        · intro j outside
          have other : j ≠ ⟨i, slotBound⟩ := by
            intro equal
            simp only [equal] at outside
            omega
          rw [frame j (by omega), Function.update_of_ne other]
        · intro k inside bound
          cases k with
          | zero =>
              have kept := frame ⟨i, slotBound⟩ (Or.inl (by simp))
              simp only [Nat.add_zero]
              simp [kept, firstChunk, text, terminated]
          | succ k =>
              have index : i + 1 + k = i + (k + 1) := by omega
              have later := written k (by omega) (by omega)
              simp only [index, chunk_drop] at later
              exact later

/-- With too many packets the loop leaves the block. -/
theorem makepacketsLoop_outside
    (passes i : Nat) (fp : List Byte) (buffer : Buffer)
    (outside : 100 < i + packetCount fp) :
    makepacketsLoop passes i fp buffer = none := by
  induction passes generalizing i fp buffer with
  | zero => rfl
  | succ passes induction =>
      simp only [makepacketsLoop]
      cases filled : fillSlot buffer i (fp.take 19) with
      | none => rfl
      | some next =>
          have inside : i < 100 := by
            by_contra behind
            rw [fillSlot_outside buffer (by omega)] at filled
            cases filled
          have more : (fp.take 19).length ≠ 0 := by
            intro empty
            rw [packetCount_of_empty empty] at outside
            omega
          rw [packetCount_drop more] at outside
          simp only [ne_eq, more, not_false_eq_true, if_true]
          exact_mod_cast
            induction (i + 1) (fp.drop 19) next (by omega)

/-- The prepared buffer, for every file whose packets fit in the block. -/
theorem makepackets_prepared
    (ptr : Buffer) (file : List Byte)
    (fits : packetCount file ≤ 100) :
    ∃ buffer : Buffer,
      makepackets (makeinvalid ptr) file = some buffer ∧
        Prepared file buffer := by
  obtain ⟨buffer, run, frame, written⟩ :=
    makepacketsLoop_spec 101 0 file (makeinvalid ptr)
      (by omega) (by omega)
  refine ⟨buffer, by exact_mod_cast run, ?_, ?_⟩
  · intro j inside
    obtain ⟨sno, ackno, text, terminated⟩ :=
      written j (by omega) inside
    simp only [Nat.zero_add] at sno ackno text terminated
    exact ⟨sno, ackno, text, terminated⟩
  · intro j outside
    rw [frame j (Or.inr (by omega))]
    simp

end NetworkingLab.SelectiveRepeat
