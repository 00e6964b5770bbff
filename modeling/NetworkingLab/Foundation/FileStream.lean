import Mathlib.Data.List.Basic
import Mathlib.Tactic.Common
import NetworkingLab.Foundation.CString

/-!
# Files with a position

A file that is open for reading and writing has one position for both.  A
character is read at the position and moves it on, a relative seek moves it,
and a seek to a place in front of the file fails and leaves it.

Reading a character and seeking two places back walks through a file from its
end to its start (`Stream.stepBack`).
-/

namespace NetworkingLab.Foundation.FileStream

open NetworkingLab.Foundation.CString

/-- An open file and the position of the next access. -/
structure Stream where
  contents : List Byte
  position : Nat

namespace Stream

/-- A file opened with the mode `w+`. -/
def empty : Stream :=
  ⟨[], 0⟩

/-- Write a text; a gap in front of it is filled with zero bytes. -/
def write (stream : Stream) (text : List Byte) : Stream :=
  let front := (stream.contents ++
    List.replicate (stream.position - stream.contents.length) 0).take
      stream.position
  { contents := front ++ text ++
      stream.contents.drop (stream.position + text.length)
    position := stream.position + text.length }

/-- `fgetc`; `none` stands for `EOF`. -/
def fgetc (stream : Stream) : Option Byte × Stream :=
  match stream.contents[stream.position]? with
  | none => (none, stream)
  | some c => (some c, { stream with position := stream.position + 1 })

/-- `fseek` with `SEEK_CUR`. -/
def seekCur (stream : Stream) (offset : Int) : Stream :=
  if 0 ≤ (stream.position : Int) + offset then
    { stream with position := (stream.position + offset).toNat }
  else
    stream

/-- A file whose position is its end. -/
def ended (contents : List Byte) : Stream :=
  ⟨contents, contents.length⟩

/-- At its end a file is prolonged. -/
theorem write_ended (contents text : List Byte) :
    (ended contents).write text = ended (contents ++ text) := by
  simp [write, ended]

/-- The character in front of the last one is the next to be read. -/
theorem seekCur_ended
    {contents : List Byte} (long : 2 ≤ contents.length) :
    (ended contents).seekCur (-2) = ⟨contents, contents.length - 2⟩ := by
  have inside : 0 ≤ (contents.length : Int) + -2 := by omega
  have place : ((contents.length : Int) + -2).toNat =
      contents.length - 2 := by
    omega
  rw [seekCur, ended, if_pos inside, place]

theorem fgetc_of_lt
    {contents : List Byte} {position : Nat}
    (inside : position < contents.length) :
    fgetc ⟨contents, position⟩ =
      (some contents[position], ⟨contents, position + 1⟩) := by
  simp [fgetc, inside]

/-- One character is read, and the one in front of it is the next. -/
theorem stepBack (contents : List Byte) (position : Nat) :
    seekCur ⟨contents, position + 2⟩ (-2) = ⟨contents, position⟩ := by
  have inside : 0 ≤ ((position + 2 : Nat) : Int) + -2 := by omega
  have place : (((position + 2 : Nat) : Int) + -2).toNat = position := by
    omega
  rw [seekCur, if_pos inside, place]

end Stream

end NetworkingLab.Foundation.FileStream
