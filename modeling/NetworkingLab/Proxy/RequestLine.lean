import Mathlib.Data.Nat.Digits.Defs
import NetworkingLab.Proxy.Bounds

/-!
# The request line

What the loops make of a request with an absolute target: `http://`, a host, a
port and a path, of which the last two may be missing.

`parse_request` says that they find the method, the host and the port, and that
they blank the scheme and the host and nothing else.  A port stays in the line,
and where there is no path nothing takes its place.  Of a long request the
proxy receives and sends the first 1000 bytes.  `origin_form_iff` says for
which lines the line that is forwarded has the form servers expect.
-/

namespace NetworkingLab.Proxy

open NetworkingLab.Foundation.CString
open NetworkingLab.Foundation.Scan
open NetworkingLab.Foundation.Words

/-! ## Requests with an absolute target -/

/-- A target with its host, its port, if there is one, and its path. -/
structure AbsoluteTarget where
  host : List Byte
  port : Option (List Byte)
  path : List Byte
  host_plain : ∀ c ∈ host, c ≠ 32 ∧ c ≠ 47 ∧ c ≠ 58
  port_decimal : ∀ digits ∈ port,
    digits ≠ [] ∧ ∀ c ∈ digits, IsDigit c
  path_rooted : ∀ c ∈ path.head?, c = 47
  path_solid : ∀ c ∈ path, c ≠ 32

/-- `http://` -/
def scheme : List Byte :=
  [104, 116, 116, 112, 58, 47, 47]

namespace AbsoluteTarget

/-- The port with its colon, and the path. -/
def suffix (target : AbsoluteTarget) : List Byte :=
  target.port.elim [] (fun digits => 58 :: digits) ++ target.path

/-- A request: method, target and whatever follows the next blank. -/
def request (target : AbsoluteTarget) (method rest : List Byte) :
    List Byte :=
  method ++ 32 ::
    (scheme ++ (target.host ++ (target.suffix ++ 32 :: rest)))

/-- The request with blanks in the place of the scheme and the host. -/
def blanked (target : AbsoluteTarget) (method rest : List Byte) :
    List Byte :=
  method ++ 32 ::
    (List.replicate (schemeLength + target.host.length) 32 ++
      (target.suffix ++ 32 :: rest))

/-- The port that the loops find, in a word of this size. -/
def readPort (target : AbsoluteTarget) (word : Nat)
    (rest : List Byte) : Option Int :=
  target.port.elim (some 80) fun digits =>
    getport word (digits ++ target.path ++ 32 :: rest)

end AbsoluteTarget

/-! ## The loops on such a request -/

/-- A text without blanks is copied up to the blank behind it. -/
theorem copyToBlank_solid
    {text : List Byte} (solid : ∀ c ∈ text, c ≠ 32)
    (room : Nat) (rest : List Byte) :
    copyToBlank room (text ++ 32 :: rest) =
      if text.length < room then some text else none := by
  induction text generalizing room with
  | nil => cases room <;> simp [copyToBlank]
  | cons c text induction =>
      have printed := solid c List.mem_cons_self
      have later := induction
        (fun d member => solid d (List.mem_cons_of_mem _ member))
        (room - 1)
      cases room with
      | zero => simp [copyToBlank]
      | succ room =>
          simp only [Nat.add_sub_cancel] at later
          by_cases short : text.length < room
          · rw [if_pos short] at later
            simp [copyToBlank, printed, later, short]
          · rw [if_neg short] at later
            simp [copyToBlank, printed, later, short]

/-- The bytes of a host are read one after another. -/
theorem hostLoop_plain
    {host : List Byte} (plain : ∀ c ∈ host, c ≠ 32 ∧ c ≠ 47 ∧ c ≠ 58)
    (word room : Nat) (text : List Byte) :
    hostLoop word room (host ++ text) =
      if host.length ≤ room then
        (hostLoop word (room - host.length) text).map
          fun result => (host ++ result.1, result.2)
      else
        none := by
  induction host generalizing room with
  | nil => simp
  | cons c host induction =>
      rcases plain c List.mem_cons_self with ⟨blank, slash, colon⟩
      have later := induction
        (fun d member => plain d (List.mem_cons_of_mem _ member))
        (room - 1)
      cases room with
      | zero => simp [hostLoop, blank, slash, colon]
      | succ room =>
          simp only [Nat.add_sub_cancel] at later
          by_cases short : host.length ≤ room
          · rw [if_pos short] at later
            simp [hostLoop, blank, slash, colon, later, short,
              Function.comp_def]
          · rw [if_neg short] at later
            simp [hostLoop, blank, slash, colon, later, short]

/-- What the loop finds where the host has ended. -/
theorem hostLoop_suffix
    (target : AbsoluteTarget) (word room : Nat) (rest : List Byte) :
    hostLoop word room (target.suffix ++ 32 :: rest) =
      (target.readPort word rest).map fun por => ([], por) := by
  rw [AbsoluteTarget.suffix, AbsoluteTarget.readPort]
  cases target.port with
  | none =>
      cases path : target.path with
      | nil => simp [hostLoop]
      | cons c path' =>
          have slash : c = 47 :=
            target.path_rooted c (by rw [path]; rfl)
          simp [hostLoop, slash]
  | some digits => simp [hostLoop, List.append_assoc]

/-- Blanks are stored over the bytes between two others. -/
theorem blankOut_middle (front middle back : List Byte) :
    blankOut front.length middle.length (front ++ (middle ++ back)) =
      some (front ++ (List.replicate middle.length 32 ++ back)) := by
  rw [blankOut_eq_some_iff]
  constructor
  · simp only [List.length_append]
    omega
  · rw [List.take_left, ← List.append_assoc front, ← List.length_append,
      List.drop_left, List.append_assoc]

/-- A host without slashes is kept as it is. -/
theorem endHost_plain
    {host : List Byte} (plain : ∀ c ∈ host, c ≠ 32 ∧ c ≠ 47 ∧ c ≠ 58)
    (room : Nat) :
    endHost room host =
      if host ≠ [] ∧ host.length < room then some host else none := by
  cases host using List.reverseRecOn with
  | nil => simp [endHost]
  | append_singleton front last =>
      have slash := (plain last (by simp)).2.1
      simp [endHost, slash]

/-- The loops on a request with an absolute target. -/
theorem parse_request_iff
    (rooms : Rooms) (target : AbsoluteTarget)
    {method : List Byte} (solid : ∀ c ∈ method, c ≠ 32)
    (rest : List Byte) (parsed : Parsed) :
    parse rooms (target.request method rest) = some parsed ↔
      method.length < rooms.method ∧
        (target.host ≠ [] ∧ target.host.length < rooms.host) ∧
        ∃ por, target.readPort rooms.word rest = some por ∧
          ⟨method, target.host, por, target.blanked method rest⟩ =
            parsed := by
  have start : method.length + 1 = (method ++ [32]).length := by simp
  have skip : blankOut (method.length + 1) schemeLength
      (target.request method rest) =
        some (method ++ [32] ++ (List.replicate schemeLength 32 ++
          (target.host ++ (target.suffix ++ 32 :: rest)))) := by
    rw [AbsoluteTarget.request, List.append_cons, start]
    exact blankOut_middle (method ++ [32]) scheme _
  have front : method.length + 1 + schemeLength =
      (method ++ [32] ++ List.replicate schemeLength 32).length := by
    simp only [List.length_append, List.length_singleton,
      List.length_replicate]
  have blank : blankOut (method.length + 1 + schemeLength)
      target.host.length
      (method ++ [32] ++ (List.replicate schemeLength 32 ++
        (target.host ++ (target.suffix ++ 32 :: rest)))) =
        some (target.blanked method rest) := by
    rw [front, ← List.append_assoc (method ++ [32]), blankOut_middle,
      AbsoluteTarget.blanked, List.replicate_add]
    simp only [List.append_assoc, List.cons_append, List.nil_append]
  have behind : (method ++ [32] ++ (List.replicate schemeLength 32 ++
      (target.host ++ (target.suffix ++ 32 :: rest)))).drop
        (method.length + 1 + schemeLength) =
      target.host ++ (target.suffix ++ 32 :: rest) := by
    rw [front, ← List.append_assoc (method ++ [32]), List.drop_left]
  rw [parse_eq_some_iff]
  have copy := copyToBlank_solid solid rooms.method
    (scheme ++ (target.host ++ (target.suffix ++ 32 :: rest)))
  have read := hostLoop_plain target.host_plain rooms.word rooms.host
    (target.suffix ++ 32 :: rest)
  rw [hostLoop_suffix] at read
  have ended := endHost_plain target.host_plain rooms.host
  constructor
  · rintro ⟨skipped, host, copied, skipped_eq, loop, blanked_eq, last⟩
    rw [AbsoluteTarget.request, copy] at copied
    split_ifs at copied with methodFits
    rw [Option.some.injEq] at copied
    rw [← copied, skip, Option.some.injEq] at skipped_eq
    subst skipped_eq
    rw [← copied, behind, read] at loop
    split_ifs at loop with hostFits
    simp only [Option.map_map, Option.map_eq_some_iff,
      Function.comp_apply, Prod.mk.injEq, List.append_nil] at loop
    rcases loop with ⟨por, port, hostEq, porEq⟩
    rw [← copied, ← hostEq, blank, Option.some.injEq] at blanked_eq
    rw [← hostEq, ended] at last
    split_ifs at last with kept
    rw [Option.some.injEq] at last
    refine ⟨methodFits, kept, por, port, ?_⟩
    rw [blanked_eq, last, porEq, copied]
  · rintro ⟨methodFits, kept, por, port, rfl⟩
    rw [if_pos methodFits] at copy
    rw [if_pos (Nat.le_of_lt kept.2), port] at read
    rw [if_pos kept] at ended
    refine ⟨_, target.host, copy, skip, ?_, blank, ended⟩
    rw [behind, read]
    simp

/-! ## The method, the host and the port -/

/-- The number that decimal digits stand for. -/
def portNumber (digits : List Byte) : Nat :=
  Nat.ofDigits 10 (digits.reverse.map fun c => c.toNat - 48)

theorem decimalValue_eq_portNumber
    {digits : List Byte} (decimal : ∀ c ∈ digits, IsDigit c) :
    decimalValue digits = portNumber digits := by
  induction digits using List.reverseRecOn with
  | nil => rfl
  | append_singleton digits last induction =>
      have earlier := induction fun c member =>
        decimal c (List.mem_append_left _ member)
      have digit := (decimal last (by simp)).1
      rw [UInt8.le_iff_toNat_le] at digit
      simp only [UInt8.reduceToNat] at digit
      simp only [decimalValue] at earlier
      simp only [decimalValue, portNumber, List.foldl_append,
        List.foldl_cons, List.foldl_nil, List.reverse_append,
        List.reverse_singleton, List.singleton_append, List.map_cons,
        Nat.ofDigits_cons, earlier]
      push_cast [Nat.cast_sub digit]
      ring

/-- The buffers are large enough for what they are given. -/
structure Enough (rooms : Rooms) (target : AbsoluteTarget)
    (method : List Byte) : Prop where
  method : method.length < rooms.method
  host : target.host.length < rooms.host
  word : ∀ digits ∈ target.port,
    (digits ++ target.path).length < rooms.word

/-- A port is read although the path stands behind it. -/
theorem readPort_of_fits
    (target : AbsoluteTarget) {word : Nat}
    (fits : ∀ digits ∈ target.port,
      (digits ++ target.path).length < word)
    (range : ∀ digits ∈ target.port, portNumber digits ≤ 65535)
    (rest : List Byte) :
    target.readPort word rest =
      some (target.port.elim 80 fun digits =>
        (portNumber digits : Int)) := by
  rw [AbsoluteTarget.readPort]
  cases port : target.port with
  | none => rfl
  | some digits =>
      rcases target.port_decimal digits port with ⟨nonempty, decimal⟩
      have solid : ∀ c ∈ digits ++ target.path, c ≠ 32 := by
        intro c member
        rcases List.mem_append.mp member with digit | inPath
        · rintro rfl
          exact absurd (decimal 32 digit).1 (by decide)
        · exact target.path_solid c inPath
      have ended : ∀ c ∈ target.path.head?, ¬ IsDigit c := by
        rintro c first digit
        rw [target.path_rooted c first] at digit
        exact absurd digit.1 (by decide)
      have value := decimalValue_eq_portNumber decimal
      have bound := range digits port
      rw [Option.elim_some, getport, copyToBlank_solid solid,
        if_pos (fits digits port), Option.map_some,
        atoi_append nonempty decimal ended (by omega), value]
      rfl

/--
The loops find the method, the host and the port of every request with an
absolute target, and blank exactly the scheme and the host.
-/
theorem parse_request
    (rooms : Rooms) (target : AbsoluteTarget) (method rest : List Byte)
    (solid : ∀ c ∈ method, c ≠ 32) (named : target.host ≠ [])
    (range : ∀ digits ∈ target.port,
      1 ≤ portNumber digits ∧ portNumber digits ≤ 65535)
    (enough : Enough rooms target method) :
    parse rooms (target.request method rest) =
      some
        { method := method
          host := target.host
          por := target.port.elim 80 fun digits => portNumber digits
          data := target.blanked method rest } := by
  rw [parse_request_iff rooms target solid]
  refine ⟨enough.method, ⟨named, enough.host⟩, _, ?_, rfl⟩
  apply readPort_of_fits target enough.word
  intro digits member
  exact (range digits member).2

/-- The target `http://a:80/`. -/
def portTarget : AbsoluteTarget where
  host := [97]
  port := some [56, 48]
  path := [47]
  host_plain := by simp
  port_decimal := by
    rintro digits member
    cases member
    simp [IsDigit]
  path_rooted := by simp
  path_solid := by simp

/-- `GET http://a:80/ HTTP/1.0` is read. -/
theorem parse_request_port :
    parse Rooms.allocated
        (portTarget.request literalGET [72, 84, 84, 80, 47, 49, 46, 48]) =
      some
        { method := literalGET
          host := portTarget.host
          por := portTarget.port.elim 80 fun digits => portNumber digits
          data := portTarget.blanked literalGET
            [72, 84, 84, 80, 47, 49, 46, 48] } := by
  apply parse_request
  · simp [literalGET]
  · simp [portTarget]
  · rintro digits member
    cases member
    exact ⟨by decide, by decide⟩
  · constructor
    · decide
    · decide
    · rintro digits member
      cases member
      decide

/-! ## The forwarded line -/

/-- A request line with an absolute target. -/
structure AbsoluteLine extends AbsoluteTarget where
  method : List Byte
  version : List Byte
  method_ne : method ≠ []
  method_solid : ∀ c ∈ method, c ≠ 32
  version_ne : version ≠ []
  version_solid : ∀ c ∈ version, c ≠ 32
  unbroken : ∀ c ∈ method ++ (host ++ (path ++ version)),
    c ≠ 13 ∧ c ≠ 10

namespace AbsoluteLine

/-- The request of such a line with other bytes behind it. -/
def bytes (line : AbsoluteLine) (behind : List Byte) : List Byte :=
  line.request line.method (line.version ++ behind)

/-- The path that the server of the host is asked for. -/
def originPath (line : AbsoluteLine) : List Byte :=
  if line.path = [] then [47] else line.path

/-- The block of 1000 bytes that `getdata` fills from such a request. -/
def block (line : AbsoluteLine) (behind : List Byte) : List Byte :=
  (line.bytes behind).take 1000

/--
The request is dealt with inside the buffers, and if it is passed on, the line
that is sent has three tokens: the method, the path and the version.
-/
def OriginForm (rooms : Rooms) (offencive : Offencive)
    (uri : List Byte) (line : AbsoluteLine) (behind : List Byte) : Prop :=
  ∃ verdict,
    handle rooms offencive.array uri (line.block behind) = some verdict ∧
      ∀ parsed, verdict = .passed parsed →
        words (fun c => c == 32) (requestLine parsed.data) =
          [line.method, line.originPath, line.version]

/-- No line ends in what stands between the blanks. -/
theorem suffix_bytes
    (line : AbsoluteLine) {c : Byte} (member : c ∈ line.suffix) :
    c ≠ 32 ∧ c ≠ 13 ∧ c ≠ 10 := by
  rcases List.mem_append.mp member with inPort | inPath
  · cases port : line.port with
    | none => simp [port] at inPort
    | some digits =>
        rw [port, Option.elim_some, List.mem_cons] at inPort
        rcases inPort with rfl | digit
        · decide
        · have decimal := (line.port_decimal digits port).2 c digit
          refine ⟨?_, ?_, ?_⟩ <;> rintro rfl <;>
            exact absurd decimal.1 (by decide)
  · exact ⟨line.path_solid c inPath,
      line.unbroken c (by simp [inPath])⟩

/-- The bytes of the line that the loops leave, before its end. -/
def blankedLine (line : AbsoluteLine) : List Byte :=
  line.blanked line.method line.version

theorem blanked_eq (line : AbsoluteLine) (behind : List Byte) :
    line.blanked line.method (line.version ++ behind) =
      line.blankedLine ++ behind := by
  simp only [blankedLine, AbsoluteTarget.blanked, List.append_assoc,
    List.cons_append]

theorem bytes_eq (line : AbsoluteLine) (behind : List Byte) :
    line.bytes behind = line.bytes [] ++ behind := by
  simp only [bytes, AbsoluteTarget.request, List.append_assoc,
    List.cons_append, List.append_nil]

theorem length_blankedLine (line : AbsoluteLine) :
    line.blankedLine.length = (line.bytes []).length := by
  simp only [blankedLine, bytes, AbsoluteTarget.blanked,
    AbsoluteTarget.request, List.length_append, List.length_cons,
    List.length_replicate, List.append_nil]
  simp [scheme, schemeLength]
  omega

theorem unbroken_blankedLine (line : AbsoluteLine) :
    ∀ c ∈ line.blankedLine, (c != 13 && c != 10) = true := by
  intro c member
  have other : c ≠ 13 ∧ c ≠ 10 := by
    simp only [blankedLine, AbsoluteTarget.blanked, List.mem_append,
      List.mem_cons, List.mem_replicate] at member
    rcases member with inMethod | rfl | blank | inSuffix | rfl | last
    · exact line.unbroken c (by simp [inMethod])
    · decide
    · rw [blank.2]
      decide
    · exact (line.suffix_bytes inSuffix).2
    · decide
    · exact line.unbroken c (by simp [last])
  simpa using other

/-- The line of the forwarded request. -/
theorem requestLine_blanked
    (line : AbsoluteLine) {behind : List Byte}
    (ended : ∀ c ∈ behind.head?, c = 13 ∨ c = 10) :
    requestLine (line.blankedLine ++ behind) = line.blankedLine := by
  rw [requestLine,
    List.takeWhile_append_of_pos line.unbroken_blankedLine]
  cases behind with
  | nil => rw [List.takeWhile_nil, List.append_nil]
  | cons c behind =>
      rw [List.takeWhile_cons_of_neg, List.append_nil]
      rcases ended c rfl with rfl | rfl <;> decide

/-- Of that line the first 1000 bytes are sent. -/
theorem requestLine_sent
    (line : AbsoluteLine) {behind : List Byte}
    (ended : ∀ c ∈ behind.head?, c = 13 ∨ c = 10) :
    requestLine ((line.blankedLine ++ behind).take 1000) =
      line.blankedLine.take 1000 := by
  rw [requestLine, ← List.take_takeWhile]
  exact congrArg (List.take 1000) (line.requestLine_blanked ended)

/-- The tokens of that line. -/
theorem words_blanked (line : AbsoluteLine) :
    words (fun c => c == 32) line.blankedLine =
      if line.suffix = [] then
        [line.method, line.version]
      else
        [line.method, line.suffix, line.version] := by
  have solid : ∀ text : List Byte, (∀ c ∈ text, c ≠ 32) →
      Solid (fun c => c == 32) text := by
    intro text other c member
    simpa using other c member
  have version := words_solid (fun c => c == 32)
    (solid _ line.version_solid) line.version_ne
  rw [blankedLine, AbsoluteTarget.blanked,
    words_solid_append _ (solid _ line.method_solid) line.method_ne _ rfl,
    words_replicate_append _ _ _ rfl]
  split_ifs with empty
  · rw [empty, List.nil_append, words_cons_blank _ _ rfl, version]
  · rw [words_solid_append _
        (solid _ fun c member => (line.suffix_bytes member).1) empty _ rfl,
      version]

/-- What stands behind the host is the path exactly in this case. -/
theorem suffix_eq_originPath_iff (line : AbsoluteLine) :
    line.suffix = line.originPath ↔
      line.port = none ∧ line.path ≠ [] := by
  rw [AbsoluteTarget.suffix, originPath]
  cases line.port with
  | none =>
      by_cases empty : line.path = [] <;> simp [empty]
  | some digits =>
      split_ifs with empty
      · simp
      · simp only [Option.elim_some, false_and, iff_false]
        intro same
        have first : line.path.head? = some 58 := by
          rw [← same]
          rfl
        exact absurd (line.path_rooted 58 first) (by decide)

/-- The printed bytes of the line, in their order. -/
theorem filter_blankedLine (line : AbsoluteLine) :
    line.blankedLine.filter (fun c => !(c == 32)) =
      line.method ++ (line.suffix ++ line.version) := by
  have kept : ∀ text : List Byte, (∀ c ∈ text, c ≠ 32) →
      text.filter (fun c => !(c == 32)) = text := by
    intro text printed
    apply List.filter_eq_self.mpr
    intro c member
    simpa using printed c member
  simp only [blankedLine, AbsoluteTarget.blanked, List.filter_append,
    List.filter_cons, List.filter_replicate, beq_self_eq_true,
    Bool.not_true, Bool.false_eq_true, if_false, List.nil_append,
    kept _ line.method_solid, kept _ line.version_solid,
    kept _ fun c member => (line.suffix_bytes member).1]

/-- A line of which no printed byte is cut is short. -/
theorem short_of_filter_drop
    (line : AbsoluteLine)
    (printed : (line.blankedLine.drop 1000).filter
      (fun c => !(c == 32)) = []) :
    line.blankedLine.length ≤ 1000 := by
  by_contra long
  have last : line.blankedLine.getLast? = line.version.getLast? := by
    have split : line.blankedLine =
        (line.method ++ 32 ::
          (List.replicate (schemeLength + line.host.length) 32 ++
            (line.suffix ++ [32]))) ++ line.version := by
      simp only [blankedLine, AbsoluteTarget.blanked, List.append_assoc,
        List.cons_append, List.nil_append]
    rw [split, List.getLast?_append_of_ne_nil _ line.version_ne]
  have kept : line.version.getLast line.version_ne ∈
      line.blankedLine.drop 1000 := by
    apply List.mem_of_getLast?
    rw [List.getLast?_drop, if_neg (by omega), last,
      List.getLast?_eq_some_getLast]
  have blank := List.filter_eq_nil_iff.mp printed _ kept
  apply line.version_solid _ (List.getLast_mem line.version_ne)
  simpa using blank

/-- A path in front of the version was no port and not missing. -/
theorem form_of_tokens
    (line : AbsoluteLine) {cut : List Byte}
    (tokens : line.originPath ++ (line.version ++ cut) =
      line.suffix ++ line.version) :
    line.port = none ∧ line.path ≠ [] := by
  rw [AbsoluteTarget.suffix] at tokens
  cases port : line.port with
  | none =>
      refine ⟨rfl, ?_⟩
      intro missing
      have lengths := congrArg List.length tokens
      simp [originPath, missing, port] at lengths
      omega
  | some digits =>
      have first := congrArg List.head? tokens
      rw [port] at first
      rw [originPath] at first
      split_ifs at first with missing
      · simp at first
      · rw [List.head?_append_of_ne_nil _ missing] at first
        have rooted := line.path_rooted 58 (by rw [first]; rfl)
        exact absurd rooted (by decide)

/-- The tokens of the line that is sent. -/
theorem words_sent_iff (line : AbsoluteLine) :
    words (fun c => c == 32) (line.blankedLine.take 1000) =
        [line.method, line.originPath, line.version] ↔
      line.port = none ∧ line.path ≠ [] ∧
        (line.bytes []).length ≤ 1000 := by
  rw [← length_blankedLine]
  constructor
  · intro tokens
    have printed := words_flatten (fun c : Byte => c == 32)
      (line.blankedLine.take 1000)
    rw [tokens] at printed
    have whole := congrArg
      (List.filter fun c : Byte => !(c == 32))
      (List.take_append_drop 1000 line.blankedLine)
    rw [List.filter_append, ← printed, filter_blankedLine] at whole
    simp only [List.flatten_cons, List.flatten_nil, List.append_nil,
      List.append_assoc, List.append_cancel_left_eq] at whole
    have form := line.form_of_tokens whole
    have same := line.suffix_eq_originPath_iff.mpr form
    rw [same, List.append_cancel_left_eq, List.append_right_eq_self]
      at whole
    exact ⟨form.1, form.2, line.short_of_filter_drop whole⟩
  · rintro ⟨port, path, short⟩
    rw [List.take_of_length_le short, words_blanked]
    have same := line.suffix_eq_originPath_iff.mpr ⟨port, path⟩
    have other : line.suffix ≠ [] := by
      rw [same, originPath, if_neg path]
      exact path
    rw [if_neg other, same]

/-- What the loops leave of the block is what is sent. -/
theorem parse_block
    (line : AbsoluteLine) {rooms : Rooms} {behind : List Byte}
    {parsed : Parsed}
    (run : parse rooms (line.block behind) = some parsed) :
    (line.method.length < rooms.method ∧ line.host ≠ [] ∧
        line.host.length < rooms.host) ∧
      parsed.data = (line.blankedLine ++ behind).take 1000 := by
  have whole := parse_append run ((line.bytes behind).drop 1000)
  rw [block, List.take_append_drop] at whole
  rcases (parse_request_iff rooms _ line.method_solid _ _).mp whole with
    ⟨method, host, por, _, equal⟩
  have data := (Parsed.mk.inj equal).2.2.2
  rw [blanked_eq] at data
  refine ⟨⟨method, host⟩, ?_⟩
  have length := parse_length run
  rw [block, List.length_take] at length
  have rest : ((line.bytes behind).drop 1000).take
      (1000 - parsed.data.length) = [] := by
    rw [List.take_eq_nil_iff, List.drop_eq_nil_iff]
    omega
  rw [data, List.take_append, rest, List.append_nil,
    List.take_of_length_le (by omega)]

/-- The loops read a short line without a port. -/
theorem parse_short
    (line : AbsoluteLine) {rooms : Rooms}
    (method : line.method.length < rooms.method)
    (host : line.host ≠ [] ∧ line.host.length < rooms.host)
    (port : line.port = none)
    (short : (line.bytes []).length ≤ 1000) (behind : List Byte) :
    ∃ parsed, parse rooms (line.block behind) = some parsed := by
  have read : parse rooms (line.bytes []) =
      some ⟨line.method, line.host, 80, line.blanked line.method
        (line.version ++ [])⟩ := by
    refine (parse_request_iff rooms _ line.method_solid _ _).mpr
      ⟨method, host, 80, ?_, rfl⟩
    rw [AbsoluteTarget.readPort, port]
    rfl
  rw [block, bytes_eq, List.take_append, List.take_of_length_le short]
  exact ⟨_, parse_append read _⟩

/--
The lines that are passed on as they should be.  The block and the word read
from it have their terminators and room; and unless the filter finds its word
first, the method and the host fit, a terminator is left, the target has a
path and no port, and the line is inside the block.
-/
structure Forwardable (rooms : Rooms) (offencive : Offencive)
    (uri : List Byte) (line : AbsoluteLine) (behind : List Byte) :
    Prop where
  terminated : 0 ∈ line.block behind
  word : ∀ word, scanned literalGET (line.block behind) = some word →
    word.length < rooms.uri
  target : scanned literalGET (line.block behind) = none →
    0 ∈ uri ∨ offencive.word <:+: uri
  passed : ¬ offencive.word <:+: searched uri (line.block behind) →
    (line.method.length < rooms.method ∧ line.host ≠ [] ∧
        line.host.length < rooms.host) ∧
      0 ∈ (line.blankedLine ++ behind).take 1000 ∧
        line.port = none ∧ line.path ≠ [] ∧
          (line.bytes []).length ≤ 1000

/--
The forwarded line has the form that servers expect if and only if nothing
leaves its buffer and the line is blocked, or it lies in the block and its
target has a path and no port.
-/
theorem origin_form_iff
    (rooms : Rooms) (offencive : Offencive) (uri : List Byte)
    (line : AbsoluteLine) (behind : List Byte)
    (size : uri.length = rooms.uri)
    (ended : ∀ c ∈ behind.head?, c = 13 ∨ c = 10) :
    OriginForm rooms offencive uri line behind ↔
      Forwardable rooms offencive uri line behind := by
  constructor
  · rintro ⟨verdict, run, tokens⟩
    simp only [handle, Option.bind_eq_bind, Option.bind_eq_some_iff]
      at run
    rcases run with ⟨array, stored, bit, checked, loops⟩
    have inside := (sscanf_isSome_iff _ uri).mp
      (Option.isSome_of_mem stored)
    rw [size] at inside
    rcases (check_stored_iff offencive stored bit).mp checked with
      ⟨ends, rfl⟩
    refine ⟨inside.1, inside.2, ends, ?_⟩
    intro missed
    rw [decide_eq_false missed] at loops
    simp only [Bool.false_eq_true, if_false, Option.bind_eq_some_iff,
      Option.some.injEq] at loops
    rcases loops with ⟨parsed, parses, _, counted, rfl⟩
    rcases line.parse_block parses with ⟨fits, data⟩
    have three := tokens parsed rfl
    rw [data, line.requestLine_sent ended, words_sent_iff] at three
    have left := ((strlen_eq_some_iff _ _).mp counted).1
    rw [data] at left
    exact ⟨fits, left, three⟩
  · rintro ⟨terminated, word, target, passed⟩
    rw [← size] at word
    have stored := (sscanf_isSome_iff _ uri).mpr ⟨terminated, word⟩
    rcases Option.isSome_iff_exists.mp stored with ⟨array, stored⟩
    have checked := (check_stored_iff offencive stored _).mpr
      ⟨target, rfl⟩
    by_cases occurs : offencive.word <:+: searched uri (line.block behind)
    · refine ⟨.blocked, ?_, ?_⟩
      · simp [handle, stored, checked, occurs]
      · intro parsed same
        cases same
    · rcases passed occurs with ⟨⟨method, host⟩, left, port, path, short⟩
      rcases line.parse_short method host port short behind with
        ⟨parsed, parses⟩
      have data := (line.parse_block parses).2
      rw [← data] at left
      have counted := (strlen_eq_some_iff parsed.data _).mpr ⟨left, rfl⟩
      refine ⟨.passed parsed, ?_, ?_⟩
      · simp [handle, stored, checked, occurs, parses, counted]
      · rintro _ ⟨⟩
        rw [data, line.requestLine_sent ended]
        exact line.words_sent_iff.mpr ⟨port, path, short⟩

end AbsoluteLine

/-- `GET http://a:80/ HTTP/1.0` -/
def portLine : AbsoluteLine where
  toAbsoluteTarget := portTarget
  method := literalGET
  version := [72, 84, 84, 80, 47, 49, 46, 48]
  method_ne := by simp [literalGET]
  method_solid := by simp [literalGET]
  version_ne := by simp
  version_solid := by simp
  unbroken := by simp [literalGET, portTarget]

/-- `GET http://a/ HTTP/1.0` -/
def pathLine : AbsoluteLine where
  host := [97]
  port := none
  path := [47]
  host_plain := by simp
  port_decimal := by simp
  path_rooted := by simp
  path_solid := by simp
  method := literalGET
  version := [72, 84, 84, 80, 47, 49, 46, 48]
  method_ne := by simp [literalGET]
  method_solid := by simp [literalGET]
  version_ne := by simp
  version_solid := by simp
  unbroken := by simp [literalGET]

/-- An empty line and then zeros, up to the end of the block. -/
def emptyBehind : List Byte :=
  [13, 10, 13, 10] ++ List.replicate 974 0

theorem emptyBehind_ended :
    ∀ c ∈ emptyBehind.head?, c = 13 ∨ c = 10 := by
  rintro c ⟨⟩
  exact Or.inl rfl

/-- A line with a path and without a port is sent in this form. -/
theorem origin_form_path :
    AbsoluteLine.OriginForm Rooms.allocated wordW (List.replicate 50 0)
      pathLine emptyBehind := by
  apply (AbsoluteLine.origin_form_iff Rooms.allocated wordW _ pathLine
    emptyBehind List.length_replicate emptyBehind_ended).mpr
  have read : scanned literalGET (pathLine.block emptyBehind) =
      some (scheme ++ [97, 47]) := by
    decide +kernel
  constructor
  · decide +kernel
  · intro word found
    rw [read, Option.some.injEq] at found
    rw [← found]
    decide
  · intro missed
    rw [read] at missed
    cases missed
  · intro _
    decide +kernel

/-- The line that is forwarded asks for `:80/`. -/
theorem port_forwarded :
    ¬ ∀ (offencive : Offencive) (uri : List Byte) (line : AbsoluteLine)
        (behind : List Byte),
        uri.length = 50 → 1000 ≤ (line.bytes behind).length →
        (∀ c ∈ behind.head?, c = 13 ∨ c = 10) →
          line.OriginForm Rooms.allocated offencive uri behind := by
  intro claim
  rcases claim wordW (List.replicate 50 0) portLine emptyBehind
      List.length_replicate (by decide +kernel) emptyBehind_ended with
    ⟨verdict, run, tokens⟩
  cases verdict with
  | blocked =>
      have unseen : handle Rooms.allocated wordW.array
          (List.replicate 50 0) (portLine.block emptyBehind) ≠
            some .blocked := by
        decide +kernel
      exact unseen run
  | passed parsed =>
      rcases (handle_eq_passed_iff _ _ _ _ _).mp run with
        ⟨_, _, _, parses, _⟩
      have three := tokens parsed rfl
      rw [(portLine.parse_block parses).2,
        portLine.requestLine_sent emptyBehind_ended,
        portLine.words_sent_iff] at three
      cases three.1

end NetworkingLab.Proxy
