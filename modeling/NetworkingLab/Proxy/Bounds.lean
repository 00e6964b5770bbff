import NetworkingLab.Proxy.Forwarding

/-!
# The buffers behind a request

Every loop over a request ends at a byte it looks for, and no loop counts what
it stores.  The buffers have fixed sizes: 1000 bytes for the request, 50 for
`uri`, 10 for `method`, 30 for `host` and 4 for the word of `getport`.

`inside_buffers_iff` says for which requests all reads and writes between
`getdata` and the host stay inside: the conditions are bounds on the distances
between the bytes that the loops look for.
-/

namespace NetworkingLab.Proxy

open NetworkingLab.Foundation.CString
open NetworkingLab.Foundation.Scan
open NetworkingLab.Foundation.Words

/--
`sscanf`, `check` and, unless the word is found and the process exits, the
loops have read and written inside the buffers.
-/
def InsideBuffers (rooms : Rooms) (offencive uri data : List Byte) : Prop :=
  ∃ target bit,
    sscanf literalGET data uri = some target ∧
      check target offencive = some bit ∧
      (bit = false → (parse rooms data).isSome)

/-! ## The loops -/

/-- The bytes before the first blank. -/
def beforeBlank (text : List Byte) : List Byte :=
  text.takeWhile (· != 32)

/-- The bytes before the first blank, slash or colon. -/
def hostRun (text : List Byte) : List Byte :=
  text.takeWhile fun c => c != 32 && c != 47 && c != 58

/-- A loop up to a blank stays inside if what is before it is short. -/
theorem copyToBlank_isSome_iff (room : Nat) (text : List Byte) :
    (copyToBlank room text).isSome ↔
      (beforeBlank text).length < room ∧
        (beforeBlank text).length < text.length := by
  induction text generalizing room with
  | nil => simp [copyToBlank]
  | cons c rest induction =>
      cases room with
      | zero => simp [copyToBlank]
      | succ room =>
          by_cases blank : c = 32
          · simp [copyToBlank, beforeBlank, blank]
          · have step := induction room
            simp only [beforeBlank] at step
            simp [copyToBlank, beforeBlank, blank, step]

/-- It copies what is before the blank. -/
theorem copyToBlank_eq
    {room : Nat} {text copied : List Byte}
    (copy : copyToBlank room text = some copied) :
    copied = beforeBlank text := by
  induction text generalizing room copied with
  | nil => cases copy
  | cons c rest induction =>
      simp only [copyToBlank] at copy
      split_ifs at copy with full blank
      · cases copy
        simp [beforeBlank, blank]
      · simp only [Option.map_eq_some_iff] at copy
        rcases copy with ⟨tail, copy, rfl⟩
        have step := induction copy
        simp only [beforeBlank] at step
        simp [beforeBlank, blank, step]

/-- A port stays inside the word if a blank comes soon. -/
def PortFits (word : Nat) (text : List Byte) : Prop :=
  text[(hostRun text).length]? = some 58 →
    (getport word (text.drop ((hostRun text).length + 1))).isSome

/-- At a byte that ends it the loop has found no host. -/
theorem hostRun_cons_of_end
    {c : Byte} (ends : c = 32 ∨ c = 47 ∨ c = 58) (rest : List Byte) :
    hostRun (c :: rest) = [] := by
  rcases ends with rfl | rfl | rfl <;> rfl

theorem hostRun_cons
    {c : Byte} (blank : ¬ (c = 32 ∨ c = 47)) (port : c ≠ 58)
    (rest : List Byte) :
    hostRun (c :: rest) = c :: hostRun rest := by
  rw [not_or] at blank
  simp [hostRun, blank.1, blank.2, port]

/-- The loop over the host stays inside in these cases. -/
theorem hostLoop_isSome_iff (word room : Nat) (text : List Byte) :
    (hostLoop word room text).isSome ↔
      (hostRun text).length ≤ room ∧
        (hostRun text).length < text.length ∧ PortFits word text := by
  induction text generalizing room with
  | nil => simp [hostLoop]
  | cons c rest induction =>
      by_cases ended : c = 32 ∨ c = 47
      · have other : c ≠ 58 := by
          rcases ended with rfl | rfl <;> decide
        have empty := hostRun_cons_of_end
          (ended.imp_right Or.inl) rest
        simp [hostLoop, ended, PortFits, empty, other]
      · by_cases port : c = 58
        · subst port
          have empty : hostRun (58 :: rest) = [] := rfl
          simp [hostLoop, PortFits, empty]
        · have longer := hostRun_cons ended port rest
          have later : PortFits word (c :: rest) ↔ PortFits word rest := by
            simp [PortFits, longer]
          rw [later, longer]
          cases room with
          | zero => simp [hostLoop, ended, port]
          | succ room =>
              have step := induction room
              simp [hostLoop, ended, port, step]

/-- The host that is read is what is before the byte that ends it. -/
theorem hostLoop_eq
    {word room : Nat} {text : List Byte} {result : List Byte × Int}
    (read : hostLoop word room text = some result) :
    result.1 = hostRun text := by
  induction text generalizing room result with
  | nil => cases read
  | cons c rest induction =>
      simp only [hostLoop] at read
      split_ifs at read with ended port full
      · cases read
        exact (hostRun_cons_of_end (ended.imp_right Or.inl) rest).symm
      · simp only [Option.map_eq_some_iff] at read
        rcases read with ⟨por, _, rfl⟩
        exact (hostRun_cons_of_end (Or.inr (Or.inr port)) rest).symm
      · simp only [Option.map_eq_some_iff] at read
        rcases read with ⟨tail, read, rfl⟩
        rw [hostRun_cons ended port, induction read]

/-- Behind the blanked bytes the request is as it was. -/
theorem blankOut_drop
    {start count : Nat} {data blanked : List Byte}
    (stored : blankOut start count data = some blanked) :
    blanked.drop (start + count) = data.drop (start + count) := by
  rcases (blankOut_eq_some_iff _ _ _ _).mp stored with ⟨inside, rfl⟩
  have front : (data.take start ++ List.replicate count 32).length =
      start + count := by
    rw [List.length_append, List.length_take, List.length_replicate]
    omega
  rw [← front, List.drop_left]

theorem endHost_isSome_iff (room : Nat) (host : List Byte) :
    (endHost room host).isSome ↔ 0 < host.length ∧ host.length < room := by
  cases host using List.reverseRecOn with
  | nil => simp [endHost]
  | append_singleton front last => simp [endHost]

/-! ## The request -/

/-- What stands behind the method, its blank and the scheme. -/
def afterScheme (data : List Byte) : List Byte :=
  data.drop ((beforeBlank data).length + 1 + schemeLength)

/-- The loops find the bytes that end them before the buffers are full. -/
structure Roomy (rooms : Rooms) (data : List Byte) : Prop where
  method : (beforeBlank data).length < rooms.method
  host_pos : 0 < (hostRun (afterScheme data)).length
  host : (hostRun (afterScheme data)).length < rooms.host
  port : (afterScheme data)[(hostRun (afterScheme data)).length]? =
      some 58 →
    (beforeBlank ((afterScheme data).drop
      ((hostRun (afterScheme data)).length + 1))).length < rooms.word

/-- Requests that the loops have read leave room. -/
theorem roomy_of_parse
    {rooms : Rooms} {data : List Byte} {parsed : Parsed}
    (run : parse rooms data = some parsed) :
    Roomy rooms data := by
  rcases (parse_eq_some_iff _ _ _).mp run with
    ⟨skipped, host, copy, skip, read, _, ended⟩
  have method := (copyToBlank_isSome_iff _ _).mp
    (Option.isSome_of_mem copy)
  rw [copyToBlank_eq copy] at skip read
  rw [blankOut_drop skip] at read
  have found := (hostLoop_isSome_iff _ _ _).mp
    (Option.isSome_of_mem read)
  have same : host = hostRun (afterScheme data) := hostLoop_eq read
  have last := (endHost_isSome_iff _ _).mp (Option.isSome_of_mem ended)
  rw [same] at last
  refine ⟨method.1, last.1, last.2, ?_⟩
  intro colon
  have port := found.2.2 colon
  rw [getport, Option.isSome_map] at port
  exact ((copyToBlank_isSome_iff _ _).mp port).1

/-- A request with room is read, if the block goes on behind it. -/
theorem Roomy.parse
    {rooms : Rooms} {data : List Byte} (roomy : Roomy rooms data)
    (wide : rooms.method + schemeLength + rooms.host + rooms.word + 1 ≤
      data.length) :
    ∃ parsed, parse rooms data = some parsed := by
  have textLength : (afterScheme data).length =
      data.length - ((beforeBlank data).length + 1 + schemeLength) :=
    List.length_drop
  have method := roomy.method
  have hostRoom := roomy.host
  have copied : (copyToBlank rooms.method data).isSome :=
    (copyToBlank_isSome_iff _ _).mpr ⟨method, by omega⟩
  rcases Option.isSome_iff_exists.mp copied with ⟨copied, copy⟩
  have skipRoom : (beforeBlank data).length + 1 + schemeLength ≤
      data.length := by
    omega
  have skip := (blankOut_eq_some_iff _ _ _ _).mpr ⟨skipRoom, rfl⟩
  have port : PortFits rooms.word (afterScheme data) := by
    intro colon
    rw [getport, Option.isSome_map, copyToBlank_isSome_iff]
    have short := roomy.port colon
    refine ⟨short, ?_⟩
    rw [List.length_drop]
    omega
  have read : (hostLoop rooms.word rooms.host (afterScheme data)).isSome :=
    (hostLoop_isSome_iff _ _ _).mpr ⟨by omega, by omega, port⟩
  rcases Option.isSome_iff_exists.mp read with ⟨⟨host, por⟩, read⟩
  have same : host = hostRun (afterScheme data) := hostLoop_eq read
  have ended : (endHost rooms.host host).isSome := by
    rw [endHost_isSome_iff, same]
    exact ⟨roomy.host_pos, hostRoom⟩
  rcases Option.isSome_iff_exists.mp ended with ⟨last, ended⟩
  have blankRoom : (beforeBlank data).length + 1 + schemeLength +
      host.length ≤ data.length := by
    rw [same]
    omega
  rw [← blankOut_length skip] at blankRoom
  have blank := (blankOut_eq_some_iff _ _ _ _).mpr ⟨blankRoom, rfl⟩
  rw [afterScheme, ← blankOut_drop skip] at read
  rw [← copyToBlank_eq copy] at skip read blank
  exact ⟨⟨copied, last, por, _⟩,
    (parse_eq_some_iff _ _ _).mpr
      ⟨_, host, copy, skip, read, blank, ended⟩⟩

/-- In a wide block the loops stay inside exactly for such requests. -/
theorem parse_isSome_iff
    {rooms : Rooms} {data : List Byte}
    (wide : rooms.method + schemeLength + rooms.host + rooms.word + 1 ≤
      data.length) :
    (parse rooms data).isSome ↔ Roomy rooms data := by
  rw [Option.isSome_iff_exists]
  constructor
  · rintro ⟨parsed, run⟩
    exact roomy_of_parse run
  · intro roomy
    exact roomy.parse wide

/-! ## The filter -/

/-- What the filter searches: the word behind `GET`, or what is in `uri`. -/
def searched (uri data : List Byte) : List Byte :=
  (scanned literalGET data).getD (cString uri)

/--
The requests that stay inside the buffers: the request and the target have
their terminators, unless the filter finds its word first, and a request that
is not blocked leaves room.
-/
structure Fits (rooms : Rooms) (offencive : Offencive)
    (uri data : List Byte) : Prop where
  terminated : 0 ∈ data
  word : ∀ word, scanned literalGET data = some word →
    word.length < rooms.uri
  target : scanned literalGET data = none →
    0 ∈ uri ∨ offencive.word <:+: uri
  loops : ¬ offencive.word <:+: searched uri data → Roomy rooms data

/-- The filter stays inside and finds out whether its word was read. -/
theorem check_stored_iff
    (offencive : Offencive) {uri data target : List Byte}
    (stored : sscanf literalGET data uri = some target) (bit : Bool) :
    check target offencive.array = some bit ↔
      (scanned literalGET data = none →
          0 ∈ uri ∨ offencive.word <:+: uri) ∧
        bit = decide (offencive.word <:+: searched uri data) := by
  have inside := (sscanf_isSome_iff data uri).mp
    (Option.isSome_of_mem stored)
  cases found : scanned literalGET data with
  | none =>
      rw [sscanf_of_scanned_none inside.1 found] at stored
      cases stored
      rw [check_eq_some_iff offencive.terminated offencive.nonempty]
      simp [searched, found, Offencive.word]
  | some word =>
      rw [sscanf_of_scanned inside.1 found (inside.2 word found)]
        at stored
      cases stored
      rw [check_scanned found, Option.some.injEq]
      simp [searched, found, eq_comm]

/--
Reading a request of at most 1000 bytes, with any bytes behind it in its
block, stays inside the buffers if and only if its fields fit them.
-/
theorem inside_buffers_iff
    (offencive : Offencive) (uri request behind : List Byte)
    (size : uri.length = Rooms.allocated.uri)
    (block : request.length + behind.length = 1000) :
    InsideBuffers Rooms.allocated offencive.array uri
        (request ++ behind) ↔
      Fits Rooms.allocated offencive uri (request ++ behind) := by
  have wide : Rooms.allocated.method + schemeLength +
      Rooms.allocated.host + Rooms.allocated.word + 1 ≤
        (request ++ behind).length := by
    rw [List.length_append, block]
    decide
  rw [InsideBuffers]
  constructor
  · rintro ⟨target, bit, stored, checked, loops⟩
    have inside := (sscanf_isSome_iff (request ++ behind) uri).mp
      (Option.isSome_of_mem stored)
    rw [size] at inside
    rcases (check_stored_iff offencive stored bit).mp checked with
      ⟨ends, rfl⟩
    refine ⟨inside.1, inside.2, ends, ?_⟩
    intro missed
    exact (parse_isSome_iff wide).mp (loops (decide_eq_false missed))
  · rintro ⟨terminated, word, target, loops⟩
    rw [← size] at word
    have stored := (sscanf_isSome_iff (request ++ behind) uri).mpr
      ⟨terminated, word⟩
    rcases Option.isSome_iff_exists.mp stored with ⟨array, stored⟩
    refine ⟨array, _, stored,
      (check_stored_iff offencive stored _).mpr ⟨target, rfl⟩, ?_⟩
    intro missed
    exact (parse_isSome_iff wide).mpr
      (loops (of_decide_eq_false missed))

theorem solid_w : Solid separates [119] := by
  decide

theorem nonempty_w : ([119] : List Byte) ≠ [] :=
  List.cons_ne_nil 119 []

/-- The offensive word `w`. -/
def wordW : Offencive :=
  Offencive.of [119] solid_w nonempty_w

/-- A request for the host `a` in a block of zeros stays inside. -/
theorem inside_buffers_short :
    InsideBuffers Rooms.allocated wordW.array (List.replicate 50 0)
      (shortRequest ++ List.replicate 974 0) := by
  apply (inside_buffers_iff wordW _ _ _ List.length_replicate
    (by rw [List.length_replicate]; rfl)).mpr
  have read :
      scanned literalGET (shortRequest ++ List.replicate 974 0) =
        some ((shortRequest.drop 4).take 9) := by
    decide +kernel
  constructor
  · exact List.mem_append_right _
      (List.mem_replicate.mpr ⟨by decide, rfl⟩)
  · intro word found
    rw [read, Option.some.injEq] at found
    rw [← found]
    decide
  · intro missed
    rw [read] at missed
    cases missed
  · intro _
    constructor <;> decide +kernel

/-- `GET http://a:8080/ HTTP/1.0` with an empty line behind it. -/
def portRequest : List Byte :=
  [71, 69, 84, 32, 104, 116, 116, 112, 58, 47, 47, 97, 58, 56,
    48, 56, 48, 47, 32, 72, 84, 84, 80, 47, 49, 46, 48, 13, 10,
    13, 10]

/-- The port 8080 does not fit the word of `getport`. -/
theorem port_leaves_word :
    ¬ ∀ (offencive : Offencive) (uri request behind : List Byte),
        uri.length = 50 → request.length ≤ 1000 →
        request.length + behind.length = 1000 →
          InsideBuffers Rooms.allocated offencive.array uri
            (request ++ behind) := by
  intro claim
  rcases claim wordW (List.replicate 50 0) portRequest
      (List.replicate 969 0) List.length_replicate (by decide)
      (by rw [List.length_replicate]; rfl) with
    ⟨target, bit, stored, checked, loops⟩
  have missed :
      (sscanf literalGET (portRequest ++ List.replicate 969 0)
        (List.replicate 50 0)).bind (check · wordW.array) =
        some false := by
    decide +kernel
  have outside : (parse Rooms.allocated
      (portRequest ++ List.replicate 969 0)).isSome = false := by
    decide +kernel
  rw [stored, Option.bind_some, checked, Option.some.injEq] at missed
  rw [loops missed] at outside
  cases outside

end NetworkingLab.Proxy
