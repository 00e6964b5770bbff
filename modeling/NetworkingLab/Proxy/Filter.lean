import NetworkingLab.Proxy.Request

/-!
# Completeness of the word filter

The word is searched in the string that `sscanf` stores, and the request is
forwarded as the loops read it.  A request that does not match the pattern
leaves `uri` as `malloc` returned it and is forwarded all the same.

`filter_complete_iff` says for which requests the filter is complete.
-/

namespace NetworkingLab.Proxy

open NetworkingLab.Foundation.CString
open NetworkingLab.Foundation.Scan
open NetworkingLab.Foundation.Words

/--
The array `offencive` with a word that `scanf("%s")` has stored.  It is as
long as the word needs.
-/
structure Offencive where
  array : List Byte
  terminated : 0 ∈ array
  nonempty : cString array ≠ []
  solid : Solid isspace (cString array)

/-- The word itself. -/
def Offencive.word (offencive : Offencive) : List Byte :=
  cString offencive.array

/-- An IP address, `struct in_addr`. -/
abbrev InAddr := UInt32

/-- The answers of the resolver and of the servers behind the addresses. -/
structure Network where
  gethostbyname : List Byte → Option (List InAddr)
  connect : InAddr → UInt16 → Int

/-- A request passes the filter and its host is resolved: `connect` is next. -/
def Contacts (rooms : Rooms) (offencive : Offencive) (network : Network)
    (uri data : List Byte) : Prop :=
  ∃ parsed addresses,
    handle rooms offencive.array uri data = some (.passed parsed) ∧
      network.gethostbyname (cString parsed.host) = some addresses ∧
      addresses ≠ []

/-! ## The target -/

/-- The bytes of a request before its first line end. -/
def requestLine (request : List Byte) : List Byte :=
  request.takeWhile fun c => c != 13 && c != 10

/-- The second of the tokens between the blanks of the request line. -/
def target (request : List Byte) : List Byte :=
  (words (fun c => c == 32) (requestLine request))[1]?.getD []

/-- The bytes that no word read by `scanf` holds. -/
def separates (c : Byte) : Bool :=
  isspace c || c == 0

theorem solid_separates_iff (text : List Byte) :
    Solid separates text ↔ Solid isspace text ∧ NulFree text := by
  simp only [Solid, NulFree, separates, Bool.or_eq_false_iff,
    beq_eq_false_iff_ne]
  constructor
  · intro solid
    exact ⟨fun c member => (solid c member).1,
      fun c member => (solid c member).2⟩
  · rintro ⟨solid, free⟩ c member
    exact ⟨solid c member, free c member⟩

theorem Offencive.solid_separates (offencive : Offencive) :
    Solid separates offencive.word :=
  (solid_separates_iff _).mpr
    ⟨offencive.solid, nulFree_cString offencive.array⟩

/-- A part of a word that `scanf` can read is such a word. -/
def Offencive.of
    (run : List Byte) (solid : Solid separates run)
    (nonempty : run ≠ []) : Offencive where
  array := run ++ [0]
  terminated := by simp
  nonempty := by
    rw [cString_append_zero ((solid_separates_iff run).mp solid).2]
    exact nonempty
  solid := by
    rw [cString_append_zero ((solid_separates_iff run).mp solid).2]
    exact ((solid_separates_iff run).mp solid).1

theorem Offencive.word_of
    {run : List Byte} (solid : Solid separates run)
    (nonempty : run ≠ []) :
    (Offencive.of run solid nonempty).word = run :=
  cString_append_zero ((solid_separates_iff run).mp solid).2 []

/-! ## What the filter searches -/

/--
The reads and writes stay inside the buffers: the request has a terminator,
its word fits `uri`, and the loops leave a request with a terminator.
-/
structure Handled (rooms : Rooms) (data : List Byte) : Prop where
  terminated : 0 ∈ data
  fits : ∀ word, scanned literalGET data = some word →
    word.length < rooms.uri
  parses : ∃ parsed, parse rooms data = some parsed ∧ 0 ∈ parsed.data

/-- After a conversion the filter searches the word that was read. -/
theorem check_scanned
    {data word : List Byte} (found : scanned literalGET data = some word)
    (offencive : Offencive) (uri : List Byte) :
    check (overwrite (word ++ [0]) uri) offencive.array =
      some (decide (offencive.word <:+: word)) := by
  have ends : 0 ∈ overwrite (word ++ [0]) uri := by
    simp [overwrite]
  have spec := check_spec ends offencive.terminated offencive.nonempty
  rwa [cString_stored (scanned_nulFree found)] at spec

/-- Without one it searches what `malloc` returned. -/
theorem check_zeros
    (offencive : Offencive) {room : Nat} (room_pos : 0 < room) :
    check (List.replicate room 0) offencive.array = some false := by
  have ends : (0 : Byte) ∈ List.replicate room 0 := by
    simp [Nat.ne_of_gt room_pos]
  have empty : cString (List.replicate room 0) = [] := by
    rw [cString_eq_nil_iff ends]
    simp [room_pos]
  rw [check_spec ends offencive.terminated offencive.nonempty, empty]
  simp [offencive.nonempty]

/-- The network in which every host has an address. -/
def openNetwork : Network where
  gethostbyname _ := some [0]
  connect _ _ := 0

/-- A handled request is let through unless the word is in what was read. -/
theorem Handled.contacts
    {rooms : Rooms} {data : List Byte} (handled : Handled rooms data)
    {offencive : Offencive}
    (unseen : ∀ word, scanned literalGET data = some word →
      ¬ offencive.word <:+: word) :
    Contacts rooms offencive openNetwork
      (List.replicate rooms.uri 0) data := by
  rcases handled.parses with ⟨parsed, parses, ends⟩
  refine ⟨parsed, [0], ?_, rfl, by simp⟩
  rw [handle_eq_passed_iff]
  cases found : scanned literalGET data with
  | none =>
      exact ⟨_, sscanf_of_scanned_none handled.terminated found _,
        check_zeros offencive rooms.uri_pos, parses, ends⟩
  | some word =>
      have fits : word.length < (List.replicate rooms.uri (0 : Byte)).length := by
        simpa using handled.fits word found
      refine ⟨_, sscanf_of_scanned handled.terminated found fits, ?_,
        parses, ends⟩
      rw [check_scanned found]
      simp [unseen word found]

/--
A request that is dealt with inside the buffers for every word and content of
`uri` is handled, and a word is read from it.
-/
theorem handled_of_isSome
    {rooms : Rooms} {data : List Byte}
    (inside : ∀ (offencive : Offencive) (uri : List Byte),
      uri.length = rooms.uri →
        (handle rooms offencive.array uri data).isSome) :
    Handled rooms data ∧ (scanned literalGET data).isSome := by
  have solid : ∀ count, Solid separates (List.replicate count 1) := by
    intro count c member
    rw [List.eq_of_mem_replicate member]
    rfl
  have full : (List.replicate rooms.uri (2 : Byte)).length = rooms.uri :=
    List.length_replicate
  -- `uri` holds no terminator, and no run of ones as long as `longer` is read
  let longer := (scanned literalGET data).getD []
  let offencive := Offencive.of (List.replicate (longer.length + 1) 1)
    (solid _) (by simp)
  have word : offencive.word = List.replicate (longer.length + 1) 1 :=
    Offencive.word_of _ _
  rcases Option.isSome_iff_exists.mp (inside offencive _ full) with
    ⟨verdict, run⟩
  simp only [handle, Option.bind_eq_bind, Option.bind_eq_some_iff] at run
  rcases run with ⟨array, stored, bit, checked, loops⟩
  have fits := (sscanf_isSome_iff data _).mp (Option.isSome_of_mem stored)
  rw [full] at fits
  cases found : scanned literalGET data with
  | none =>
      rw [sscanf_of_scanned_none fits.1 found] at stored
      cases stored
      rcases ((check_eq_some_iff offencive.terminated offencive.nonempty
        bit).mp checked).1 with ends | occurs
      · simp at ends
      · have member : (1 : Byte) ∈ List.replicate rooms.uri 2 := by
          apply occurs.subset
          rw [← Offencive.word, word]
          simp
        simp at member
  | some stem =>
      have same : longer = stem := by simp [longer, found]
      rw [sscanf_of_scanned fits.1 found
        (by rw [full]; exact fits.2 stem found)] at stored
      cases stored
      rw [check_scanned found, Option.some.injEq, word, same] at checked
      have missed : ¬ List.replicate (stem.length + 1) 1 <:+: stem := by
        intro occurs
        have short := occurs.length_le
        rw [List.length_replicate] at short
        omega
      rw [decide_eq_false missed] at checked
      subst checked
      simp only [Bool.false_eq_true, if_false, Option.bind_eq_some_iff]
        at loops
      rcases loops with ⟨parsed, parses, length, counted, _⟩
      exact
        ⟨⟨fits.1, fits.2, parsed, parses,
          ((strlen_eq_some_iff _ _).mp counted).1⟩, rfl⟩

/-- A handled request whose word was read is dealt with, whatever `uri` holds. -/
theorem Handled.isSome
    {rooms : Rooms} {data word : List Byte}
    (handled : Handled rooms data)
    (found : scanned literalGET data = some word)
    (offencive : Offencive) {uri : List Byte}
    (size : uri.length = rooms.uri) :
    (handle rooms offencive.array uri data).isSome := by
  rcases handled.parses with ⟨parsed, parses, ends⟩
  have fits : word.length < uri.length := by
    rw [size]
    exact handled.fits word found
  have stored := sscanf_of_scanned handled.terminated found fits
  have checked := check_scanned found offencive uri
  have counted := (strlen_eq_some_iff parsed.data _).mpr ⟨ends, rfl⟩
  by_cases occurs : offencive.word <:+: word
  · simp [handle, stored, checked, occurs]
  · simp [handle, stored, checked, occurs, parses, counted]

/--
What the filter is for: the request is dealt with inside the buffers, and if
it is passed on, the word is not in its target.
-/
def Filters (rooms : Rooms) (offencive : Offencive) (network : Network)
    (uri request behind : List Byte) : Prop :=
  (handle rooms offencive.array uri (request ++ behind)).isSome ∧
    (Contacts rooms offencive network uri (request ++ behind) →
      ¬ offencive.word <:+: target request)

/--
The filter does its work for every word, network and content of `uri` if and
only if the request can be handled inside the buffers, a word is read behind
`GET`, and every run of the target, up to white space and NUL, stands in that
word.
-/
theorem filter_complete_iff
    (rooms : Rooms) (request behind : List Byte) :
    (∀ (offencive : Offencive) (network : Network) (uri : List Byte),
        uri.length = rooms.uri →
          Filters rooms offencive network uri request behind) ↔
      Handled rooms (request ++ behind) ∧
        ∃ word, scanned literalGET (request ++ behind) = some word ∧
          ∀ run ∈ words separates (target request), run <:+: word := by
  constructor
  · intro complete
    rcases handled_of_isSome fun offencive uri size =>
        (complete offencive openNetwork uri size).1 with
      ⟨handled, read⟩
    rcases Option.isSome_iff_exists.mp read with ⟨word, found⟩
    refine ⟨handled, word, found, ?_⟩
    intro run member
    rcases solid_of_mem_words separates member with
      ⟨solid, nonempty, part⟩
    by_contra missed
    apply (complete (Offencive.of run solid nonempty) openNetwork
      (List.replicate rooms.uri 0) List.length_replicate).2
    · apply handled.contacts
      intro other read
      rw [found, Option.some.injEq] at read
      rw [Offencive.word_of, ← read]
      exact missed
    · rw [Offencive.word_of]
      exact part
  · rintro ⟨handled, word, found, covered⟩ offencive network uri size
    refine ⟨handled.isSome found offencive size, ?_⟩
    intro contacts occurs
    rcases exists_word_of_infix separates offencive.solid_separates
        offencive.nonempty occurs with ⟨run, member, inRun⟩
    rcases contacts with ⟨parsed, _, passed, _⟩
    rcases (handle_eq_passed_iff _ _ _ _ _).mp passed with
      ⟨stored, conversion, checked, _⟩
    have fits : word.length < uri.length := by
      rw [size]
      exact handled.fits word found
    rw [sscanf_of_scanned handled.terminated found fits] at conversion
    cases conversion
    rw [check_scanned found, Option.some.injEq, decide_eq_false_iff_not]
      at checked
    exact checked (inRun.trans (covered run member))

/-- `POST http://a/w HTTP/1.0` with an empty line behind it. -/
def postRequest : List Byte :=
  [80, 79, 83, 84, 32, 104, 116, 116, 112, 58, 47, 47, 97, 47,
    119, 32, 72, 84, 84, 80, 47, 49, 46, 48, 13, 10, 13, 10]

/-- What the loops make of it. -/
def postParsed : Parsed where
  method := [80, 79, 83, 84]
  host := [97]
  por := 80
  data := postRequest.take 5 ++ List.replicate 8 32 ++
    postRequest.drop 13

/-- The word `w` is in the target of a `POST` that is passed on. -/
theorem post_passes_filter :
    ¬ ∀ (request behind : List Byte) (offencive : Offencive)
        (network : Network) (uri : List Byte),
        request.length ≤ 1000 →
        request.length + behind.length = 1000 →
        uri.length = Rooms.allocated.uri →
        Contacts Rooms.allocated offencive network uri
            (request ++ behind) →
          ¬ offencive.word <:+: target request := by
  intro claim
  have parses : parse Rooms.allocated postRequest = some postParsed := by
    decide
  have string : cString (postRequest ++ List.replicate 972 0) =
      postRequest :=
    cString_append_zero (by decide) (List.replicate 971 0)
  have missed : scanned literalGET
      (postRequest ++ List.replicate 972 0) = none := by
    rw [scanned, string]
    decide
  have zero : ∀ front : List Byte,
      0 ∈ front ++ List.replicate 972 0 := fun front =>
    List.mem_append_right front
      (List.mem_replicate.mpr ⟨by decide, rfl⟩)
  have handled : Handled Rooms.allocated
      (postRequest ++ List.replicate 972 0) := by
    refine ⟨zero _, ?_, _, parse_append parses _, zero _⟩
    intro word found
    rw [missed] at found
    cases found
  have solid : Solid separates [119] := by decide
  have unseen : ∀ word,
      scanned literalGET (postRequest ++ List.replicate 972 0) =
          some word →
        ¬ (Offencive.of [119] solid (by decide)).word <:+: word := by
    intro word found
    rw [missed] at found
    cases found
  apply claim postRequest (List.replicate 972 0) _ openNetwork _
    (by decide) (by rw [List.length_replicate]; decide)
    List.length_replicate (handled.contacts unseen)
  rw [Offencive.word_of]
  decide

end NetworkingLab.Proxy
