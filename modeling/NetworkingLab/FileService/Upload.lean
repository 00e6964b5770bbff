import NetworkingLab.Foundation.Echo
import NetworkingLab.NameService.Processes
import NetworkingLab.Proxy.Request

/-!
# Uploading a file

The client sends the name of the file, its size and its bytes.  The server
takes the first datagram for the size and the second for the name, and then
receives until it has counted as many bytes as the size says.

Every content datagram is received at the start of the block `buffer` and
written to the file with `%s`, so what is written depends on what stood in the
memory behind it.  `upload_faithful_iff` says for which uploads the new file has
the name and the bytes of the client's file.
-/

namespace NetworkingLab.FileService

open NetworkingLab.Foundation.CString
open NetworkingLab.Foundation.Echo
open NetworkingLab.NameService (recvfrom)
open NetworkingLab.Proxy (atoi atoi_append decimalValue)

/-! ## The client -/

/-- A number in decimal. -/
def decimal (value : Nat) : List Byte :=
  (Nat.toDigits 10 value).map Char.toUInt8

/-- `itoa` to base 10; `none` stands for a text that does not fit. -/
def itoa (value : Nat) (array : List Byte) : Option (List Byte) :=
  strcpy array (decimal value ++ [0])

/-- A datagram that `sendfile` makes of some of the file's bytes. -/
structure Piece where
  bytes : List Byte
  nonempty : bytes ≠ []

/-- The bytes of the file that `sendfile` sends in pieces. -/
def content (pieces : List Piece) : List Byte :=
  (pieces.map Piece.bytes).flatten

/--
The datagrams of `sendf` behind its command byte; `size` is what its array
holds before.
-/
def sendf (file size : List Byte) (pieces : List Piece) :
    Option (List (List Byte)) :=
  (itoa (content pieces).length size).map fun size =>
    file.take 10 :: size.take 10 :: pieces.map Piece.bytes

/-! ## The server -/

/--
What `rfile` finds in memory: its two arrays, and the bytes from the start of
the block that `malloc` returns.
-/
structure Found where
  filesize : List Byte
  filename : List Byte
  buffer : List Byte

/-- A file that has been written and closed. -/
structure Saved where
  name : List Byte
  content : List Byte
  deriving DecidableEq

/--
The receive loop, with the bytes it writes.  `none` stands for a loop that
waits for a datagram which does not come, or a block without terminator.
-/
def receiveLoop (file_size : Int) :
    List (List Byte) → Int → List Byte → Option (List Byte)
  | [], bytes_rcv, _ =>
      if bytes_rcv < file_size then none else some []
  | datagram :: datagrams, bytes_rcv, buffer =>
      if bytes_rcv < file_size then
        let t := (datagram.take file_size.toNat).length
        let buffer := recvfrom file_size.toNat datagram buffer
        match strlen buffer with
        | none => none
        | some length =>
            (receiveLoop file_size datagrams (bytes_rcv + t) buffer).map
              fun written => buffer.take length ++ written
      else
        some []

/-- `rfile`; `atoi` and `fopen` need terminated strings. -/
def rfile (found : Found) : List (List Byte) → Option Saved
  | first :: second :: datagrams =>
      let filesize := recvfrom 10 first found.filesize
      let filename := recvfrom 10 second found.filename
      if 0 ∈ filesize ∧ 0 ∈ filename then
        (receiveLoop (atoi filesize) datagrams 0 found.buffer).map
          fun written => ⟨cString filename, written⟩
      else
        none
  | _ => none

/-! ## Numbers as texts -/

theorem toNat_toUInt8_digitChar {digit : Nat} (small : digit < 10) :
    (Nat.digitChar digit).toUInt8.toNat = digit + 48 := by
  have check : ∀ digit < 10,
      (Nat.digitChar digit).toUInt8.toNat = digit + 48 := by
    decide
  exact check digit small

/-- A number with another digit behind it. -/
theorem decimal_of_base_le {value : Nat} (large : 10 ≤ value) :
    decimal value =
      decimal (value / 10) ++ [(Nat.digitChar (value % 10)).toUInt8] := by
  rw [decimal, Nat.toDigits_of_base_le (by decide) large, List.map_append]
  rfl

theorem decimal_of_lt_base {value : Nat} (small : value < 10) :
    decimal value = [(Nat.digitChar value).toUInt8] := by
  rw [decimal, Nat.toDigits_of_lt_base small]
  rfl

/-- The bytes of a decimal text are digits. -/
theorem isDigit_of_mem_decimal
    {value : Nat} {c : Byte} (member : c ∈ decimal value) :
    48 ≤ c ∧ c ≤ 57 := by
  induction value using Nat.strongRecOn with
  | ind value induction =>
      have last : ∀ digit < 10, c = (Nat.digitChar digit).toUInt8 →
          48 ≤ c ∧ c ≤ 57 := by
        rintro digit small rfl
        simp only [UInt8.le_iff_toNat_le, toNat_toUInt8_digitChar small,
          UInt8.reduceToNat]
        omega
      rcases Nat.lt_or_ge value 10 with small | large
      · rw [decimal_of_lt_base small, List.mem_singleton] at member
        exact last value small member
      · rw [decimal_of_base_le large, List.mem_append,
          List.mem_singleton] at member
        rcases member with front | final
        · exact induction (value / 10) (by omega) front
        · exact last (value % 10) (by omega) final

theorem decimal_ne_nil (value : Nat) : decimal value ≠ [] := by
  rw [decimal, Ne, List.map_eq_nil_iff]
  exact Nat.toDigits_ne_nil

theorem nulFree_decimal (value : Nat) : NulFree (decimal value) := by
  intro c member zero
  have digit := isDigit_of_mem_decimal member
  rw [zero] at digit
  exact absurd digit.1 (by decide)

/-- A text of at most nine digits stands for a number below a billion. -/
theorem lt_of_decimal_length
    {value : Nat} (short : (decimal value).length < 10) :
    value < 1000000000 := by
  rw [decimal, List.length_map] at short
  exact (Nat.length_toDigits_le_iff (by decide) (by decide)).mp
    (Nat.le_of_lt_succ short)

/-- The digits of a number have its value. -/
theorem foldl_decimal (value : Nat) :
    (decimal value).foldl
      (fun sum c => 10 * sum + ((c.toNat : Int) - 48)) 0 = value := by
  induction value using Nat.strongRecOn with
  | ind value induction =>
      rcases Nat.lt_or_ge value 10 with small | large
      · rw [decimal_of_lt_base small]
        simp only [List.foldl_cons, List.foldl_nil,
          toNat_toUInt8_digitChar small]
        omega
      · rw [decimal_of_base_le large, List.foldl_append,
          induction (value / 10) (by omega)]
        simp only [List.foldl_cons, List.foldl_nil,
          toNat_toUInt8_digitChar (Nat.mod_lt value (by decide))]
        omega

/-- The text of a number is read back, if the number fits an `int`. -/
theorem atoi_decimal
    {value : Nat} (small : value < 1000000000) (rest : List Byte) :
    atoi (decimal value ++ 0 :: rest) = value := by
  have same : decimalValue (decimal value) = value := foldl_decimal value
  rw [atoi_append (decimal_ne_nil value)
    (fun _ member => isDigit_of_mem_decimal member)]
  · exact same
  · rintro c here digit
    cases here
    exact absurd digit.1 (by decide)
  · rw [same]
    omega

/-! ## One upload -/

/-- The loop passes all the pieces on, if the size is that of the content. -/
theorem receiveLoop_eq_echo
    {file_size bytes_rcv : Int} {pieces : List Piece}
    (counted : 0 ≤ bytes_rcv)
    (whole : bytes_rcv + (content pieces).length = file_size)
    (buffer : List Byte) :
    receiveLoop file_size (pieces.map Piece.bytes) bytes_rcv buffer =
      echo (pieces.map Piece.bytes) buffer := by
  induction pieces generalizing bytes_rcv buffer with
  | nil =>
      have last : ¬ bytes_rcv < file_size := by
        simp only [content, List.map_nil, List.flatten_nil,
          List.length_nil] at whole
        omega
      rw [List.map_nil, receiveLoop, if_neg last]
      rfl
  | cons piece pieces induction =>
      have some_bytes := List.length_pos_iff.mpr piece.nonempty
      simp only [content, List.map_cons, List.flatten_cons,
        List.length_append, Int.natCast_add] at whole induction
      have more : bytes_rcv < file_size := by omega
      have fits : piece.bytes.length ≤ file_size.toNat := by omega
      have later := @induction (bytes_rcv + piece.bytes.length)
        (by omega) (by omega) (overwrite piece.bytes buffer)
      rw [List.map_cons, receiveLoop, if_pos more]
      cases counted : strlen (overwrite piece.bytes buffer) <;>
        simp [recvfrom, List.take_of_length_le fits, counted, later, echo]

/-- The sizes of the arrays of `rfile`. -/
structure Found.Sized (found : Found) : Prop where
  filesize : found.filesize.length = 10
  filename : found.filename.length = 10

/-- The new file has the name and the bytes of the client's file. -/
def Uploaded
    (found : Found) (file size : List Byte) (pieces : List Piece) :
    Prop :=
  (sendf file size pieces).bind (rfile found) =
    some ⟨cString file, content pieces⟩

instance (found : Found) (file size : List Byte) (pieces : List Piece) :
    Decidable (Uploaded found file size pieces) :=
  inferInstanceAs (Decidable (_ = _))

/-- The server takes the name for the size and the size for the name. -/
theorem rfile_of_sendf
    {found : Found} {file size : List Byte} {pieces : List Piece}
    {datagrams : List (List Byte)}
    (sized : found.Sized) (room : file.length = 10)
    (terminated : 0 ∈ file) (sizeRoom : size.length = 10)
    (sent : sendf file size pieces = some datagrams) :
    rfile found datagrams =
      (receiveLoop (atoi file) (pieces.map Piece.bytes) 0
          found.buffer).map fun written =>
        ⟨decimal (content pieces).length, written⟩ := by
  simp only [sendf, itoa, Option.map_eq_some_iff] at sent
  rcases sent with ⟨text, copy, rfl⟩
  have textRoom := (strcpy_length copy).trans sizeRoom
  have textEnd := strcpy_terminated copy
  have named := strcpy_text copy
  rw [cString_append_zero (nulFree_decimal _)] at named
  have first : recvfrom 10 (file.take 10) found.filesize = file := by
    rw [← room, List.take_length, room]
    exact NameService.recvfrom_full room sized.filesize
  have second : recvfrom 10 (text.take 10) found.filename = text := by
    rw [← textRoom, List.take_length, textRoom]
    exact NameService.recvfrom_full textRoom sized.filename
  rw [rfile, first, second, if_pos ⟨terminated, textEnd⟩, named]

/-- `itoa` has room for the size if it is as short as the name. -/
theorem sendf_isSome
    (file : List Byte) {size : List Byte} {pieces : List Piece}
    (sizeRoom : size.length = 10)
    (short : (decimal (content pieces).length).length < 10) :
    ∃ datagrams, sendf file size pieces = some datagrams := by
  have copied : itoa (content pieces).length size =
      some (overwrite (decimal (content pieces).length ++ [0]) size) := by
    rw [itoa, strcpy_eq_some_iff]
    rw [cString_append_zero (nulFree_decimal _), sizeRoom]
    exact ⟨⟨by simp, short⟩, rfl⟩
  exact ⟨_, by rw [sendf, copied, Option.map_some]⟩

/-- A size whose text is the name of a file fits its array. -/
theorem named_length_lt
    {file : List Byte} {value : Nat}
    (room : file.length = 10) (terminated : 0 ∈ file)
    (named : cString file = decimal value) :
    (decimal value).length < 10 := by
  rw [← named, ← room]
  exact cString_length_lt terminated

/-- What is written for a file whose name is the decimal text of its size. -/
theorem receiveLoop_of_named
    {file : List Byte} {pieces : List Piece}
    (room : file.length = 10) (terminated : 0 ∈ file)
    (named : cString file = decimal (content pieces).length)
    (buffer : List Byte) :
    receiveLoop (atoi file) (pieces.map Piece.bytes) 0 buffer =
      echo (pieces.map Piece.bytes) buffer := by
  have short := named_length_lt room terminated named
  rcases exists_eq_cString_append terminated with ⟨rest, split⟩
  have number : atoi file = (content pieces).length := by
    rw [split, named]
    exact atoi_decimal (lt_of_decimal_length short) rest
  exact receiveLoop_eq_echo (Int.le_refl 0)
    (by rw [number, Int.zero_add]) buffer

/--
An upload creates a file with the name and the bytes of the client's file if
and only if the name is the size of the file in decimal and its pieces are
kept by the block that they are received into.
-/
theorem upload_faithful_iff
    (found : Found) (file size : List Byte) (pieces : List Piece)
    (sized : found.Sized) (room : file.length = 10)
    (terminated : 0 ∈ file) (sizeRoom : size.length = 10) :
    Uploaded found file size pieces ↔
      cString file = decimal (content pieces).length ∧
        Kept (pieces.map Piece.bytes) found.buffer := by
  rw [Uploaded, Option.bind_eq_some_iff, ← echo_eq_flatten_iff]
  constructor
  · rintro ⟨datagrams, sent, saved⟩
    rw [rfile_of_sendf sized room terminated sizeRoom sent,
      Option.map_eq_some_iff] at saved
    rcases saved with ⟨written, received, same⟩
    rw [Saved.mk.injEq] at same
    rcases same with ⟨named, rfl⟩
    rw [receiveLoop_of_named room terminated named.symm] at received
    exact ⟨named.symm, received⟩
  · rintro ⟨named, echoed⟩
    have short := named_length_lt room terminated named
    rcases sendf_isSome file sizeRoom short with
      ⟨datagrams, sent⟩
    refine ⟨datagrams, sent, ?_⟩
    rw [rfile_of_sendf sized room terminated sizeRoom sent,
      receiveLoop_of_named room terminated named, echoed, named]
    rfl

/-- The arrays and the block of `rfile`, all zero. -/
def foundZeros : Found where
  filesize := List.replicate 10 0
  filename := List.replicate 10 0
  buffer := List.replicate 16 0

/-- The two letters "hi" in one piece. -/
def hi : List Piece :=
  [⟨[104, 105], by simp⟩]

/-- A file of two bytes whose name is "2" is uploaded. -/
theorem upload_faithful_two :
    Uploaded foundZeros (50 :: List.replicate 9 0)
      (List.replicate 10 0) hi := by
  apply (upload_faithful_iff _ _ _ _ ⟨rfl, rfl⟩ rfl (by decide) rfl).mpr
  exact ⟨by decide, (echo_eq_flatten_iff _ _).mp (by decide)⟩

/-- The file "a" is uploaded as an empty file with the name "2". -/
theorem upload_of_letter_fails :
    ¬ ∀ (found : Found) (file size : List Byte) (pieces : List Piece),
        found.Sized → file.length = 10 → 0 ∈ file →
          size.length = 10 → Uploaded found file size pieces := by
  intro claim
  have uploaded := claim foundZeros (97 :: List.replicate 9 0)
    (List.replicate 10 0) hi ⟨rfl, rfl⟩ rfl (by decide) rfl
  exact absurd uploaded (by decide)

end NetworkingLab.FileService
