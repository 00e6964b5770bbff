import NetworkingLab.Foundation.CString
import Mathlib.Algebra.Order.Ring.Nat
import Mathlib.Tactic.Positivity

/-!
# Integers as little-endian bytes

A number in `width` bytes, least significant byte first, and a signed number
in two's complement over it.  Both directions are inverse to each other, so an
integer field of a C structure is determined by its bytes.
-/

namespace NetworkingLab.Foundation.LittleEndian

open NetworkingLab.Foundation.CString

/-- The lowest `width` bytes of a number. -/
def natBytes : Nat → Nat → List Byte
  | 0, _ => []
  | width + 1, number =>
      UInt8.ofNat number :: natBytes width (number / 256)

/-- The number held in some bytes. -/
def bytesNat : List Byte → Nat
  | [] => 0
  | byte :: bytes => byte.toNat + 256 * bytesNat bytes

@[simp]
theorem length_natBytes (width number : Nat) :
    (natBytes width number).length = width := by
  induction width generalizing number with
  | zero => rfl
  | succ width induction => simp [natBytes, induction]

theorem bytesNat_lt (bytes : List Byte) :
    bytesNat bytes < 256 ^ bytes.length := by
  induction bytes with
  | nil => simp [bytesNat]
  | cons byte bytes induction =>
      have small : byte.toNat < 256 := byte.toNat_lt
      rw [bytesNat, List.length_cons, pow_succ]
      omega

theorem bytesNat_natBytes
    {width number : Nat} (fits : number < 256 ^ width) :
    bytesNat (natBytes width number) = number := by
  induction width generalizing number with
  | zero =>
      simp only [pow_zero] at fits
      simp [natBytes, bytesNat]
      omega
  | succ width induction =>
      have quotient : number / 256 < 256 ^ width := by
        rw [pow_succ] at fits
        omega
      rw [natBytes, bytesNat, induction quotient, UInt8.toNat_ofNat']
      exact Nat.mod_add_div number 256

theorem natBytes_bytesNat (bytes : List Byte) :
    natBytes bytes.length (bytesNat bytes) = bytes := by
  induction bytes with
  | nil => rfl
  | cons byte bytes induction =>
      have small : byte.toNat < 256 := byte.toNat_lt
      have low : UInt8.ofNat (byte.toNat + 256 * bytesNat bytes) =
          byte := by
        apply UInt8.toNat_inj.mp
        rw [UInt8.toNat_ofNat']
        omega
      have high : (byte.toNat + 256 * bytesNat bytes) / 256 =
          bytesNat bytes := by
        omega
      rw [List.length_cons, bytesNat, natBytes, low, high, induction]

/-- A signed number in two's complement. -/
def intBytes (width : Nat) (number : Int) : List Byte :=
  natBytes width (number % (256 ^ width : Nat)).toNat

/-- The signed number held in some bytes. -/
def bytesInt (bytes : List Byte) : Int :=
  if 2 * bytesNat bytes < 256 ^ bytes.length then
    bytesNat bytes
  else
    bytesNat bytes - (256 ^ bytes.length : Nat)

@[simp]
theorem length_intBytes (width : Nat) (number : Int) :
    (intBytes width number).length = width := by
  simp [intBytes]

theorem bytesInt_intBytes
    {width : Nat} {number : Int}
    (lower : -(256 ^ width : Nat) ≤ 2 * number)
    (upper : 2 * number < (256 ^ width : Nat)) :
    bytesInt (intBytes width number) = number := by
  have positive : (0 : Int) < (256 ^ width : Nat) := by positivity
  have nonneg := Int.emod_nonneg number (ne_of_gt positive)
  have below := Int.emod_lt_of_pos number positive
  have held : bytesNat (intBytes width number) =
      (number % (256 ^ width : Nat)).toNat := by
    rw [intBytes, bytesNat_natBytes]
    omega
  rw [bytesInt, held, length_intBytes]
  rcases lt_or_ge number 0 with negative | natural
  · have wrapped : number % (256 ^ width : Nat) =
        number + (256 ^ width : Nat) := by
      rw [← Int.add_emod_right]
      exact Int.emod_eq_of_lt (by omega) (by omega)
    rw [if_neg (by omega), Int.toNat_of_nonneg nonneg]
    omega
  · have kept : number % (256 ^ width : Nat) = number :=
      Int.emod_eq_of_lt natural (by omega)
    rw [if_pos (by omega), Int.toNat_of_nonneg nonneg, kept]

theorem intBytes_bytesInt (bytes : List Byte) :
    intBytes bytes.length (bytesInt bytes) = bytes := by
  have small := bytesNat_lt bytes
  have held : bytesInt bytes % (256 ^ bytes.length : Nat) =
      (bytesNat bytes : Int) := by
    rw [bytesInt]
    split
    · exact Int.emod_eq_of_lt (by omega) (by omega)
    · rw [Int.sub_emod_right]
      exact Int.emod_eq_of_lt (by omega) (by omega)
  rw [intBytes, held, Int.toNat_natCast]
  exact natBytes_bytesNat bytes

end NetworkingLab.Foundation.LittleEndian
