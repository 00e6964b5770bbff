import NetworkingLab.Foundation.Scan
import NetworkingLab.Proxy.Check

/-!
# Reading a request

The proxy reads a request twice.  `sscanf` with a fixed `GET` pattern puts the
target into `uri`, which `check` searches for the offensive word.  The loops
behind it find the method, skip seven bytes and read the host and the port,
for any method, and blank the bytes that they pass over in the request itself.

The work buffers have the sizes of `Rooms`.  `none` stands for a read or a
write outside a buffer.
-/

namespace NetworkingLab.Proxy

open NetworkingLab.Foundation.CString
open NetworkingLab.Foundation.Scan
open NetworkingLab.Foundation.Words

/-- The sizes of the buffers that `main` and `getport` allocate. -/
structure Rooms where
  uri : Nat
  method : Nat
  host : Nat
  word : Nat
  uri_pos : 0 < uri

/-- The sizes in the arguments of `malloc`. -/
def Rooms.allocated : Rooms where
  uri := 50
  method := 10
  host := 30
  word := 4
  uri_pos := by decide

/-! ## Numbers -/

/-- The value of the digits at the start of a text. -/
def digitsValue (text : List Byte) : Int :=
  (text.takeWhile fun c => 48 ≤ c && c ≤ 57).foldl
    (fun value c => 10 * value + (c.toNat - 48)) 0

/-- `LONG_MAX`; `LONG_MIN` is one below its negative. -/
def longMax : Int :=
  9223372036854775807

/-- `strtol` to base 10: white space, a sign, digits; it saturates. -/
def strtol (text : List Byte) : Int :=
  let value := match text.dropWhile isspace with
    | [] => 0
    | c :: rest =>
        if c = 45 then -digitsValue rest
        else if c = 43 then digitsValue rest
        else digitsValue (c :: rest)
  if value < -longMax - 1 then -longMax - 1
  else if longMax < value then longMax
  else value

/-- `atoi`: the result of `strtol` as an `int`. -/
def atoi (text : List Byte) : Int :=
  (strtol text).bmod 4294967296

/-- A decimal digit. -/
def IsDigit (c : Byte) : Prop :=
  48 ≤ c ∧ c ≤ 57

/-- The value of a text of digits. -/
def decimalValue (digits : List Byte) : Int :=
  digits.foldl (fun value c => 10 * value + (c.toNat - 48)) 0

/-- Behind the digits that a text starts with, nothing counts. -/
theorem digitsValue_append
    {digits : List Byte} (decimal : ∀ c ∈ digits, IsDigit c)
    {rest : List Byte} (ended : ∀ c ∈ rest.head?, ¬ IsDigit c) :
    digitsValue (digits ++ rest) = decimalValue digits := by
  have found : (digits ++ rest).takeWhile
      (fun c => 48 ≤ c && c ≤ 57) = digits := by
    rw [List.takeWhile_append_of_pos]
    · cases rest with
      | nil => rw [List.takeWhile_nil, List.append_nil]
      | cons c rest =>
          have other := ended c rfl
          rw [List.takeWhile_cons_of_neg, List.append_nil]
          simpa [IsDigit] using other
    · intro c member
      simpa [IsDigit] using decimal c member
  rw [digitsValue, found]
  rfl

theorem decimalValue_nonneg
    {digits : List Byte} (decimal : ∀ c ∈ digits, IsDigit c) :
    0 ≤ decimalValue digits := by
  induction digits using List.reverseRecOn with
  | nil => exact Int.le_refl 0
  | append_singleton digits last induction =>
      have earlier := induction fun c member =>
        decimal c (List.mem_append_left _ member)
      have digit := (decimal last (by simp)).1
      rw [UInt8.le_iff_toNat_le] at digit
      simp only [decimalValue, List.foldl_append, List.foldl_cons,
        List.foldl_nil] at earlier ⊢
      simp only [UInt8.reduceToNat] at digit
      omega

/-- `atoi` reads the number that a text starts with, if it is an `int`. -/
theorem atoi_append
    {digits : List Byte} (nonempty : digits ≠ [])
    (decimal : ∀ c ∈ digits, IsDigit c)
    {rest : List Byte} (ended : ∀ c ∈ rest.head?, ¬ IsDigit c)
    (small : decimalValue digits < 2147483648) :
    atoi (digits ++ rest) = decimalValue digits := by
  have read := digitsValue_append decimal ended
  have nonneg := decimalValue_nonneg decimal
  obtain ⟨c, later, text⟩ := List.exists_cons_of_ne_nil nonempty
  have digit := (decimal c (by simp [text])).1
  rw [UInt8.le_iff_toNat_le] at digit
  simp only [UInt8.reduceToNat] at digit
  have other : ∀ d : Byte, d.toNat < 48 → c ≠ d := by
    rintro d below rfl
    omega
  have printed : isspace c = false := by
    simp [isspace, other 32 (by decide), UInt8.le_iff_toNat_le]
    omega
  rw [text, List.cons_append] at read
  have number : strtol (digits ++ rest) = decimalValue digits := by
    rw [text] at nonneg small ⊢
    simp only [List.cons_append, strtol, longMax, List.dropWhile_cons,
      printed, Bool.false_eq_true, if_false, if_neg (other 45 (by decide)),
      if_neg (other 43 (by decide)), read]
    rw [if_neg (by omega), if_neg (by omega)]
  rw [atoi, number]
  apply Int.bmod_eq_of_le <;> omega

/-! ## The loops -/

/-- The bytes before the first blank, copied with a terminator. -/
def copyToBlank : Nat → List Byte → Option (List Byte)
  | _, [] => none
  | room, c :: rest =>
      if room = 0 then
        none
      else if c = 32 then
        some []
      else
        (copyToBlank (room - 1) rest).map (c :: ·)

/-- `getport`. -/
def getport (room : Nat) (go : List Byte) : Option Int :=
  (copyToBlank room go).map atoi

/--
The loop that reads the host and the port from the bytes at `i`; 80 is the
initial value of `por`.
-/
def hostLoop (word : Nat) :
    Nat → List Byte → Option (List Byte × Int)
  | _, [] => none
  | room, c :: rest =>
      if c = 32 ∨ c = 47 then
        some ([], 80)
      else if c = 58 then
        (getport word rest).map fun por => ([], por)
      else if room = 0 then
        none
      else
        (hostLoop word (room - 1) rest).map
          fun result => (c :: result.1, result.2)

/-- The bytes of `host` after the tests and stores behind the loop. -/
def endHost (room : Nat) (host : List Byte) : Option (List Byte) :=
  match host.getLast? with
  | none => none
  | some last =>
      if host.length < room then
        some (if last = 47 then host.dropLast else host)
      else
        none

/-- Store a blank in `count` places from `start` on. -/
def blankOut (start count : Nat) (data : List Byte) :
    Option (List Byte) :=
  if start + count ≤ data.length then
    some (data.take start ++ List.replicate count 32 ++
      data.drop (start + count))
  else
    none

/-- What `main` has read from a request, and the request it is left with. -/
structure Parsed where
  method : List Byte
  host : List Byte
  por : Int
  data : List Byte
  deriving DecidableEq

/-- The length of `http://`. -/
def schemeLength : Nat :=
  7

/-- The method, scheme and host loops of `main`. -/
def parse (rooms : Rooms) (data : List Byte) : Option Parsed := do
  let method ← copyToBlank rooms.method data
  let i := method.length + 1
  let data ← blankOut i schemeLength data
  let i := i + schemeLength
  let (host, por) ← hostLoop rooms.word rooms.host (data.drop i)
  let data ← blankOut i host.length data
  let host ← endHost rooms.host host
  some ⟨method, host, por, data⟩

/-- What the filter and the loops make of a request. -/
inductive Verdict where
  | blocked
  | passed (parsed : Parsed)
  deriving DecidableEq

/-- `"GET"`, the literal in the pattern of `sscanf`. -/
def literalGET : List Byte :=
  [71, 69, 84]

/--
The code between `getdata` and `gethostbyname`.  Of the calls of `printf`, the
one behind the loops can leave the request: the others print strings that
`sscanf` and `check` have read to their ends.
-/
def handle (rooms : Rooms) (offencive uri data : List Byte) :
    Option Verdict := do
  let uri ← sscanf literalGET data uri
  let bit ← check uri offencive
  if bit then
    some .blocked
  else
    let parsed ← parse rooms data
    let _ ← strlen parsed.data
    some (.passed parsed)

/-! ## Bytes behind a parsed request -/

theorem copyToBlank_append
    {room : Nat} {data copied : List Byte}
    (copy : copyToBlank room data = some copied)
    (behind : List Byte) :
    copyToBlank room (data ++ behind) = some copied := by
  induction data generalizing room copied with
  | nil => cases copy
  | cons c rest induction =>
      simp only [List.cons_append, copyToBlank] at copy ⊢
      split_ifs at copy ⊢ with full blank
      · exact copy
      · simp only [Option.map_eq_some_iff] at copy ⊢
        rcases copy with ⟨tail, copy, rfl⟩
        exact ⟨tail, induction copy, rfl⟩

theorem getport_append
    {room : Nat} {go : List Byte} {por : Int}
    (read : getport room go = some por) (behind : List Byte) :
    getport room (go ++ behind) = some por := by
  simp only [getport, Option.map_eq_some_iff] at read ⊢
  rcases read with ⟨word, copy, rfl⟩
  exact ⟨word, copyToBlank_append copy behind, rfl⟩

theorem hostLoop_append
    {word room : Nat} {data : List Byte} {result : List Byte × Int}
    (read : hostLoop word room data = some result)
    (behind : List Byte) :
    hostLoop word room (data ++ behind) = some result := by
  induction data generalizing room result with
  | nil => cases read
  | cons c rest induction =>
      simp only [List.cons_append, hostLoop] at read ⊢
      split_ifs at read ⊢ with ended port full
      · exact read
      · simp only [Option.map_eq_some_iff] at read ⊢
        rcases read with ⟨por, found, rfl⟩
        exact ⟨por, getport_append found behind, rfl⟩
      · simp only [Option.map_eq_some_iff] at read ⊢
        rcases read with ⟨tail, found, rfl⟩
        exact ⟨tail, induction found, rfl⟩

theorem blankOut_eq_some_iff
    (start count : Nat) (data blanked : List Byte) :
    blankOut start count data = some blanked ↔
      start + count ≤ data.length ∧
        data.take start ++ List.replicate count 32 ++
          data.drop (start + count) = blanked := by
  simp only [blankOut]
  split_ifs with inside <;> simp [inside]

theorem blankOut_length
    {start count : Nat} {data blanked : List Byte}
    (stored : blankOut start count data = some blanked) :
    blanked.length = data.length := by
  rcases (blankOut_eq_some_iff _ _ _ _).mp stored with ⟨inside, rfl⟩
  simp only [List.length_append, List.length_take, List.length_replicate,
    List.length_drop]
  omega

theorem blankOut_append
    {start count : Nat} {data blanked : List Byte}
    (stored : blankOut start count data = some blanked)
    (behind : List Byte) :
    blankOut start count (data ++ behind) = some (blanked ++ behind) := by
  rcases (blankOut_eq_some_iff _ _ _ _).mp stored with ⟨inside, rfl⟩
  rw [blankOut_eq_some_iff]
  constructor
  · rw [List.length_append]
    omega
  · rw [List.take_append_of_le_length (by omega),
      List.drop_append_of_le_length inside, List.append_assoc,
      List.append_assoc, List.append_assoc]

/-- The loops in order, with what each of them finds. -/
theorem parse_eq_some_iff
    (rooms : Rooms) (data : List Byte) (parsed : Parsed) :
    parse rooms data = some parsed ↔
      ∃ skipped host,
        copyToBlank rooms.method data = some parsed.method ∧
          blankOut (parsed.method.length + 1) schemeLength data =
            some skipped ∧
          hostLoop rooms.word rooms.host
              (skipped.drop (parsed.method.length + 1 + schemeLength)) =
            some (host, parsed.por) ∧
          blankOut (parsed.method.length + 1 + schemeLength) host.length
              skipped = some parsed.data ∧
          endHost rooms.host host = some parsed.host := by
  constructor
  · intro run
    simp only [parse, Option.bind_eq_bind, Option.bind_eq_some_iff]
      at run
    rcases run with ⟨method, copy, skipped, skip, ⟨host, por⟩, read,
      blanked, blank, stored, ended, equal⟩
    cases equal
    exact ⟨skipped, host, copy, skip, read, blank, ended⟩
  · rintro ⟨skipped, host, copy, skip, read, blank, ended⟩
    simp [parse, copy, skip, read, blank, ended]

/-- The loops keep the length of the request. -/
theorem parse_length
    {rooms : Rooms} {data : List Byte} {parsed : Parsed}
    (run : parse rooms data = some parsed) :
    parsed.data.length = data.length := by
  rcases (parse_eq_some_iff _ _ _).mp run with
    ⟨skipped, host, _, skip, _, blank, _⟩
  rw [blankOut_length blank, blankOut_length skip]

/-- Bytes behind a request that the loops have read stay as they are. -/
theorem parse_append
    {rooms : Rooms} {data : List Byte} {parsed : Parsed}
    (run : parse rooms data = some parsed) (behind : List Byte) :
    parse rooms (data ++ behind) =
      some { parsed with data := parsed.data ++ behind } := by
  rcases (parse_eq_some_iff _ _ _).mp run with
    ⟨skipped, host, copy, skip, read, blank, ended⟩
  rw [parse_eq_some_iff]
  refine ⟨skipped ++ behind, host, copyToBlank_append copy behind,
    blankOut_append skip behind, ?_, blankOut_append blank behind, ended⟩
  have inside := ((blankOut_eq_some_iff _ _ _ _).mp skip).1
  rw [← blankOut_length skip] at inside
  rw [List.drop_append_of_le_length inside]
  exact hostLoop_append read behind

/-! ## The steps of `handle` -/

theorem handle_eq_passed_iff
    (rooms : Rooms) (offencive uri data : List Byte) (parsed : Parsed) :
    handle rooms offencive uri data = some (.passed parsed) ↔
      ∃ target,
        sscanf literalGET data uri = some target ∧
          check target offencive = some false ∧
          parse rooms data = some parsed ∧ 0 ∈ parsed.data := by
  constructor
  · intro run
    simp only [handle, Option.bind_eq_bind, Option.bind_eq_some_iff]
      at run
    rcases run with ⟨target, stored, bit, checked, run⟩
    cases bit with
    | true => simp at run
    | false =>
        simp only [Bool.false_eq_true, if_false,
          Option.bind_eq_some_iff, Option.some.injEq,
          Verdict.passed.injEq] at run
        rcases run with ⟨found, parses, length, counted, rfl⟩
        exact ⟨target, stored, checked, parses,
          ((strlen_eq_some_iff _ _).mp counted).1⟩
  · rintro ⟨target, stored, checked, parses, ends⟩
    simp [handle, stored, checked, parses, strlen, ends]

end NetworkingLab.Proxy
