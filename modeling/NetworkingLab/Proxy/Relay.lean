import NetworkingLab.Foundation.Echo

/-!
# The relay loop of the proxy

The answer of the origin server is read in chunks into the block `returndata`
and every chunk is sent on to the client.  `sizeof(returndata)` is the size of
a pointer, so a chunk has at most 8 bytes, and the length of what is sent is
measured with `strlen` over a block that is never cleared.

`relay_unchanged_iff` says which answers arrive as they are.
-/

namespace NetworkingLab.Proxy

open NetworkingLab.Foundation.CString
open NetworkingLab.Foundation
open NetworkingLab.Foundation.Echo (echo Kept
  echo_eq_flatten_iff_endsAll)

/-- `sizeof(returndata)`. -/
def sizeofReturndata : Nat :=
  8

/-- The bytes that one successful `recv` returns. -/
structure Chunk where
  bytes : List Byte
  nonempty : bytes ≠ []
  fits : bytes.length ≤ sizeofReturndata

/-- The bytes received from the origin server. -/
def received (chunks : List Chunk) : List Byte :=
  chunks.flatMap Chunk.bytes

/--
The relay loop: for each chunk, what is in `returndata` up to its first zero
byte is sent.  `none` stands for a block in which `strlen` finds none.
-/
def relay : List Chunk → List Byte → Option (List Byte)
  | [], _ => some []
  | chunk :: chunks, returndata =>
      let returndata := overwrite chunk.bytes returndata
      match strlen returndata with
      | none => none
      | some length =>
          (relay chunks returndata).map
            fun sent => returndata.take length ++ sent

/-! ## The rounds -/

theorem received_eq_flatten (chunks : List Chunk) :
    received chunks = (chunks.map Chunk.bytes).flatten :=
  List.flatMap_def ..

/-- The loop passes the chunks on through `returndata`. -/
theorem relay_eq_echo (chunks : List Chunk) (returndata : List Byte) :
    relay chunks returndata =
      echo (chunks.map Chunk.bytes) returndata := by
  induction chunks generalizing returndata with
  | nil => rfl
  | cons chunk chunks induction =>
      cases counted : strlen (overwrite chunk.bytes returndata) <;>
        simp [relay, echo, counted, induction]

/-- A chunk is followed by a zero byte in the block and holds none. -/
def Ends (chunk : Chunk) (returndata : List Byte) : Prop :=
  NulFree chunk.bytes ∧ returndata[chunk.bytes.length]? = some 0

/-- The rounds in which every chunk ends where it was received. -/
def EndsAll : List Chunk → List Byte → Prop
  | [], _ => True
  | chunk :: chunks, returndata =>
      Ends chunk returndata ∧
        EndsAll chunks (overwrite chunk.bytes returndata)

theorem endsAll_iff (chunks : List Chunk) (returndata : List Byte) :
    EndsAll chunks returndata ↔
      Echo.EndsAll (chunks.map Chunk.bytes) returndata := by
  induction chunks generalizing returndata with
  | nil => exact Iff.rfl
  | cons chunk chunks induction =>
      exact and_congr Iff.rfl (induction _)

theorem relay_eq_received_iff
    (chunks : List Chunk) (returndata : List Byte) :
    relay chunks returndata = some (received chunks) ↔
      EndsAll chunks returndata := by
  rw [relay_eq_echo, received_eq_flatten, endsAll_iff]
  exact echo_eq_flatten_iff_endsAll _ _

/-! ## All rounds -/

/--
The answers that are relayed unchanged: no zero byte, chunks that never get
shorter, and a zero in the block behind the place of each chunk.
-/
structure Relayable (chunks : List Chunk) (returndata : List Byte) :
    Prop where
  nulFree : NulFree (received chunks)
  growing : chunks.Pairwise fun earlier later =>
    earlier.bytes.length ≤ later.bytes.length
  zeros : ∀ chunk ∈ chunks,
    returndata[chunk.bytes.length]? = some 0

theorem relayable_iff_kept
    (chunks : List Chunk) (returndata : List Byte) :
    Relayable chunks returndata ↔
      Kept (chunks.map Chunk.bytes) returndata := by
  constructor
  · rintro ⟨nulFree, growing, zeros⟩
    rw [received_eq_flatten] at nulFree
    exact ⟨nulFree, List.pairwise_map.mpr growing,
      List.forall_mem_map.mpr zeros⟩
  · rintro ⟨nulFree, growing, zeros⟩
    rw [← received_eq_flatten] at nulFree
    rw [List.pairwise_map] at growing
    exact ⟨nulFree, growing, List.forall_mem_map.mp zeros⟩

theorem endsAll_iff_relayable
    (chunks : List Chunk) (returndata : List Byte) :
    EndsAll chunks returndata ↔ Relayable chunks returndata := by
  rw [endsAll_iff, relayable_iff_kept]
  exact Echo.endsAll_iff_kept _ _

/--
The client gets exactly the bytes of the origin server if and only if none of
them is zero, no chunk is shorter than an earlier one, and the block held a
zero byte where each chunk ends.
-/
theorem relay_unchanged_iff
    (chunks : List Chunk) (returndata : List Byte) :
    relay chunks returndata = some (received chunks) ↔
      Relayable chunks returndata :=
  (relay_eq_received_iff chunks returndata).trans
    (endsAll_iff_relayable chunks returndata)

/-- An answer of ten letters, received as eight and two. -/
def tenLetters : List Chunk :=
  [⟨[97, 98, 99, 100, 101, 102, 103, 104], by simp, by decide⟩,
    ⟨[105, 106], by simp, by decide⟩]

/-- The second chunk is sent with the rest of the first behind it. -/
theorem short_chunk_repeats :
    ¬ ∀ (chunks : List Chunk) (returndata : List Byte),
        returndata.length = 1000 →
          relay chunks returndata = some (received chunks) := by
  intro claim
  have relayed := claim tenLetters (List.replicate 1000 0)
    List.length_replicate
  have ends := (relay_eq_received_iff _ _).mp relayed
  have growing := ((endsAll_iff_relayable _ _).mp ends).growing
  exact absurd growing (by decide)

end NetworkingLab.Proxy
