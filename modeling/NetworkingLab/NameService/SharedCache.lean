import NetworkingLab.Foundation.Runs
import NetworkingLab.NameService.Processes

/-!
# Two programs on one cache file

`mods` is a caching server that asks `gethostbyname` instead of a top-level
server.  It uses the same file `DNS` and the same search, but it writes the
line end behind a record where the caching server writes it in front.

`shared_cache_iff` says which sequences of appends leave a file that both
programs read as all its pairs: `mods` must never find a file whose last byte
belongs to a word.
-/

namespace NetworkingLab.NameService

open NetworkingLab.Foundation.CString
open NetworkingLab.Foundation.CachingResolver
open NetworkingLab.Foundation.Runs
open NetworkingLab.Foundation.Scan
open NetworkingLab.Foundation.Words

/-! ## The program `mods` -/

/-- The variables of `mods`; `dns` is the file `DNS`. -/
structure Mods where
  dns : List Byte
  hostname : List Byte
  hostbuf : List Byte
  ipbuf : List Byte

/-- `char msg[30] = "no domain found"`. -/
def noDomainMsg : List Byte :=
  [110, 111, 32, 100, 111, 109, 97, 105, 110, 32, 102, 111, 117, 110,
    100] ++ List.replicate 15 0

/-- The text that `mods` writes at the end of `DNS`. -/
def modsRecordText (hostname ip : List Byte) : List Byte :=
  cString hostname ++ [32] ++ cString ip ++ [10]

/--
A name is received and answered.  `gethostbyname` gives the memory that holds
the address as a string, of which 30 bytes are sent.
-/
def Mods.receive (gethostbyname : List Byte → Option (List Byte))
    (mods : Mods) (datagram : Datagram) : Option (Mods × Datagram) :=
  let hostname := recvfrom 30 datagram.bytes mods.hostname
  (search hostname (mods.dns.length + 1) mods.hostbuf mods.ipbuf
      mods.dns).map fun result =>
    let mods :=
      { mods with
        hostname := hostname
        hostbuf := result.hostbuf
        ipbuf := result.ipbuf }
    if result.found then
      (mods, ⟨.server, datagram.source, result.ipbuf⟩)
    else
      match gethostbyname (cString hostname) with
      | none => (mods, ⟨.server, datagram.source, noDomainMsg⟩)
      | some ip =>
          ({ mods with dns := mods.dns ++ modsRecordText hostname ip },
            ⟨.server, datagram.source, ip.take 30⟩)

/-- The arrays of `mods` have 30 bytes. -/
structure Mods.Sized (mods : Mods) : Prop where
  hostname : mods.hostname.length = 30
  hostbuf : mods.hostbuf.length = 30
  ipbuf : mods.ipbuf.length = 30

/-! ## Appends -/

/-- The two programs that write the file. -/
inductive Program where
  | server
  | mods
  deriving DecidableEq

/-- A program appends a pair. -/
structure Append where
  program : Program
  name : Token
  ip : Token

/-- The file, and the pairs that have been recorded in it. -/
structure SharedFile where
  file : List Byte
  pairs : List (Token × Token)

/-- The file reads as the pairs. -/
def SharedFile.Reads (state : SharedFile) : Prop :=
  Lists state.file state.pairs

/-- The text a program appends for a pair. -/
def Append.text (append : Append) : List Byte :=
  match append.program with
  | .server => recordText append.name.text append.ip.text
  | .mods => modsRecordText append.name.text append.ip.text

/--
One of the programs opens the file, looks a name up, does not find it and
appends the address that it is given for it.
-/
inductive SharedStep (gethostbyname : List Byte → Option (List Byte)) :
    SharedFile → Append → SharedFile → Prop where
  | server
      {state : SharedFile} {name ip : Token}
      {server asking next : NameServer}
      {request answer : Datagram} {question sent : List Datagram}
      (sized : server.Sized) (opened : server.dns = state.file)
      (phase : server.phase = .name)
      (requested : request.Carries name.text)
      (asks : server.receive request = some (asking, question))
      (missed : asking.phase = .reply)
      (answered : answer.Carries ip.text)
      (records : asking.receive answer = some (next, sent)) :
      SharedStep gethostbyname state ⟨.server, name, ip⟩
        ⟨next.dns, state.pairs ++ [(name, ip)]⟩
  | mods
      {state : SharedFile} {name ip : Token} {mods next : Mods}
      {request reply : Datagram} {bytes : List Byte}
      (sized : mods.Sized) (opened : mods.dns = state.file)
      (requested : request.Carries name.text)
      (resolved : gethostbyname name.text = some bytes)
      (address : cString bytes = ip.text)
      (received : mods.receive gethostbyname request =
        some (next, reply))
      (missed : next.dns ≠ mods.dns) :
      SharedStep gethostbyname state ⟨.mods, name, ip⟩
        ⟨next.dns, state.pairs ++ [(name, ip)]⟩

/-- A search of either program finds this address for the name. -/
def Found (file : List Byte) (name ip : Token) : Prop :=
  ∀ hostname hostbuf ipbuf : List Byte,
    cString hostname = name.text → hostbuf.length = 30 →
      ipbuf.length = 30 →
        ∃ result,
          search hostname (file.length + 1) hostbuf ipbuf file =
              some result ∧
            result.found = true ∧ cString result.ipbuf = ip.text

/--
The file reads as all earlier pairs and the new one, and every recorded name is
found.
-/
def Agreed (record : Record SharedFile Append) : Prop :=
  Lists record.after.file
      (record.before.pairs ++ [(record.label.name, record.label.ip)]) ∧
    ∀ name ip,
      find record.before.pairs name = some ip ∨
          (name, ip) = (record.label.name, record.label.ip) →
        Found record.after.file name ip

/-- Where `mods` appends, no word is open. -/
def NoOpenWord (record : Record SharedFile Append) : Prop :=
  record.label.program = .mods → EndsBlank isspace record.before.file

/-! ## What is appended -/

theorem cString_token (token : Token) : cString token.text = token.text :=
  cString_of_nulFree token.nulFree

/-- A search that finds nothing has looked for a name that is not listed. -/
theorem find_of_search
    {file hostname hostbuf ipbuf : List Byte} {result : Search}
    {pairs : List (Token × Token)} {name : Token}
    (lists : Lists file pairs) (asked : cString hostname = name.text)
    (hostSize : hostbuf.length = 30) (ipSize : ipbuf.length = 30)
    (searched : search hostname (file.length + 1) hostbuf ipbuf file =
      some result)
    (missed : result.found = false) : find pairs name = none := by
  rcases search_finds asked (file.length + 1) (Nat.lt_succ_self _)
    hostSize ipSize lists with ⟨other, same, finds⟩
  rw [searched] at same
  cases same
  cases listed : find pairs name with
  | none => rfl
  | some ip =>
      have found := (finds.hit ip listed).1
      rw [missed] at found
      cases found

/-- Inversion of a step: the name was missing and its text is appended. -/
theorem SharedStep.appends
    {gethostbyname : List Byte → Option (List Byte)}
    {before after : SharedFile} {append : Append}
    (step : SharedStep gethostbyname before append after)
    (lists : Lists before.file before.pairs) :
    find before.pairs append.name = none ∧
      after.file = before.file ++ append.text ∧
      after.pairs = before.pairs ++ [(append.name, append.ip)] := by
  cases step with
  | @server name ip server _ _ request answer _ _ sized opened phase
      requested asks missed answered records =>
      rw [← opened] at lists
      rcases NameServer.receive_name_cases phase asks with
        ⟨result, searched, rfl, _⟩
      have filled := recvfrom_full requested.size sized.hostname
      have stored := recvfrom_full answered.size sized.ip
      rw [filled] at searched
      have absent : result.found = false := by
        simpa using missed
      refine
        ⟨find_of_search lists requested.text sized.hostbuf sized.ipbuf
          searched absent, ?_, rfl⟩
      rcases NameServer.receive_reply_cases missed records with ⟨rfl, _⟩
      simp [filled, stored, ip.ne_notFound, opened, Append.text,
        recordText, requested.text, answered.text, cString_token]
  | @mods name ip mods _ request _ bytes sized opened requested
      resolved address received missed =>
      rw [← opened] at lists
      simp only [Mods.receive, Option.map_eq_some_iff] at received
      rcases received with ⟨result, searched, outcome⟩
      have filled := recvfrom_full requested.size sized.hostname
      rw [filled] at searched outcome
      have text : cString request.bytes = name.text := requested.text
      rw [text, resolved] at outcome
      split_ifs at outcome with found
      · cases outcome
        exact absurd rfl missed
      · cases outcome
        refine
          ⟨find_of_search lists requested.text sized.hostbuf sized.ipbuf
            searched (by simpa using found), ?_, rfl⟩
        simp [opened, Append.text, modsRecordText, text, address,
          cString_token]

/-- An array of 30 bytes with a token in front. -/
def Token.array (token : Token) : List Byte :=
  overwrite (token.text ++ [0]) (List.replicate 30 0)

theorem Token.carries (token : Token) (source target : Address) :
    Datagram.Carries ⟨source, target, token.array⟩ token.text :=
  ⟨token.stored_length (List.length_replicate ..),
    cString_stored token.nulFree _⟩

/-- `mods` appends the address of a name that is missing and resolves. -/
theorem Mods.receive_miss
    {gethostbyname : List Byte → Option (List Byte)} {mods : Mods}
    {datagram : Datagram} {pairs : List (Token × Token)} {name : Token}
    {bytes : List Byte} (sized : mods.Sized)
    (lists : Lists mods.dns pairs) (carries : datagram.Carries name.text)
    (missing : find pairs name = none)
    (resolved : gethostbyname name.text = some bytes) :
    ∃ next reply,
      mods.receive gethostbyname datagram = some (next, reply) ∧
        next.dns = mods.dns ++ modsRecordText datagram.bytes bytes := by
  have filled := recvfrom_full carries.size sized.hostname
  have text : cString datagram.bytes = name.text := carries.text
  rcases search_finds text (mods.dns.length + 1) (Nat.lt_succ_self _)
    sized.hostbuf sized.ipbuf lists with ⟨result, searched, finds⟩
  have absent := finds.miss missing
  refine
    ⟨⟨mods.dns ++ modsRecordText datagram.bytes bytes, datagram.bytes,
        result.hostbuf, result.ipbuf⟩,
      ⟨.server, datagram.source, bytes.take 30⟩, ?_, rfl⟩
  simp [Mods.receive, filled, searched, absent, text, resolved]

/-- Each program can append what is missing, `mods` if it resolves. -/
theorem SharedStep.of_missing
    {gethostbyname : List Byte → Option (List Byte)}
    {state : SharedFile} (reads : state.Reads) (append : Append)
    (missing : find state.pairs append.name = none)
    (resolves : append.program = .mods →
      ∃ bytes, gethostbyname append.name.text = some bytes ∧
        cString bytes = append.ip.text) :
    SharedStep gethostbyname state append
      ⟨state.file ++ append.text,
        state.pairs ++ [(append.name, append.ip)]⟩ := by
  have possible : ∃ after, SharedStep gethostbyname state append after := by
    rcases append with ⟨program, name, ip⟩
    cases program with
    | server =>
        let server : NameServer :=
          ⟨.name, state.file, List.replicate 30 0, List.replicate 30 0,
            List.replicate 30 0, List.replicate 30 0, .client 0, .tld⟩
        have sized : server.Sized := ⟨rfl, rfl, rfl, rfl⟩
        have serves : server.Serves state.pairs := ⟨sized, reads, rfl⟩
        rcases NameServer.receive_miss serves rfl
            (name.carries (.client 0) .server) missing with
          ⟨asking, asks, later, phase, hostname, _⟩
        rcases NameServer.receive_fetched later phase hostname
            (ip.carries .tld .server) rfl with ⟨next, records, _, _⟩
        exact
          ⟨_, .server sized rfl rfl (name.carries _ _) asks phase
            (ip.carries _ _) records⟩
    | mods =>
        rcases resolves rfl with ⟨bytes, resolved, address⟩
        let mods : Mods :=
          ⟨state.file, List.replicate 30 0, List.replicate 30 0,
            List.replicate 30 0⟩
        have sized : mods.Sized := ⟨rfl, rfl, rfl⟩
        rcases Mods.receive_miss sized reads
            (name.carries (.client 0) .server) missing resolved with
          ⟨next, reply, received, grown⟩
        refine
          ⟨_, .mods sized rfl (name.carries _ _) resolved address
            received ?_⟩
        rw [grown]
        simp [modsRecordText]
  rcases possible with ⟨⟨file, pairs⟩, step⟩
  rcases step.appends reads with ⟨_, rfl, rfl⟩
  exact step

/-! ## What is read back -/

theorem pairWords_length (pairs : List (Token × Token)) :
    (pairWords pairs).length = 2 * pairs.length := by
  simp [pairWords, List.length_flatMap, Nat.mul_comm]

/-- The words behind a record of `mods`. -/
theorem words_modsRecord (file : List Byte) (name ip : Token) :
    words isspace (file ++ modsRecordText name.text ip.text) =
      words isspace (file ++ name.text) ++ [ip.text] := by
  have blank : isspace 32 = true := by decide
  have newline : isspace 10 = true := by decide
  have shape : file ++ modsRecordText name.text ip.text =
      (file ++ name.text) ++ 32 :: (ip.text ++ 10 :: []) := by
    simp [modsRecordText, cString_token]
  rw [shape, words_append_blank isspace _ _ blank,
    words_solid_append isspace ip.solid ip.nonempty [] newline,
    words_nil]

/-- A record behind an open word makes no pair. -/
theorem lists_modsRecord_iff
    {file : List Byte} {pairs : List (Token × Token)}
    (lists : Lists file pairs) (name ip : Token) :
    Lists (file ++ modsRecordText name.text ip.text)
        (pairs ++ [(name, ip)]) ↔
      EndsBlank isspace file := by
  rw [Lists, words_modsRecord]
  constructor
  · intro reads
    by_contra open_word
    have count := congrArg List.length reads
    have merged := words_append_length isspace open_word name.solid
    rw [List.length_append, merged, lists, pairWords_length,
      pairWords_length] at count
    simp only [List.length_append, List.length_singleton] at count
    omega
  · intro ends
    rw [words_append_of_endsBlank isspace ends,
      words_solid isspace name.solid name.nonempty, lists,
      pairWords_append, List.append_assoc]
    rfl

/-- What decides whether an append leaves all pairs readable. -/
theorem lists_append_iff
    {file : List Byte} {pairs : List (Token × Token)}
    (lists : Lists file pairs) (append : Append) :
    Lists (file ++ append.text)
        (pairs ++ [(append.name, append.ip)]) ↔
      (append.program = .mods → EndsBlank isspace file) := by
  rcases append with ⟨program, name, ip⟩
  cases program with
  | server =>
      have reads := NameServer.lists_record lists (cString_token name)
        (cString_token ip)
      simpa [Append.text] using reads
  | mods => simpa [Append.text] using lists_modsRecord_iff lists name ip

/-- Listed pairs are found. -/
theorem found_of_lists
    {file : List Byte} {pairs : List (Token × Token)} {name ip : Token}
    (lists : Lists file pairs) (listed : find pairs name = some ip) :
    Found file name ip := by
  intro hostname hostbuf ipbuf asked hostSize ipSize
  rcases search_finds asked (file.length + 1) (Nat.lt_succ_self _)
    hostSize ipSize lists with ⟨result, searched, finds⟩
  exact ⟨result, searched, finds.hit ip listed⟩

theorem agreed_iff_noOpenWord
    {gethostbyname : List Byte → Option (List Byte)}
    {before after : SharedFile} {append : Append}
    (step : SharedStep gethostbyname before append after)
    (lists : Lists before.file before.pairs) :
    Agreed ⟨before, append, after⟩ ↔
      NoOpenWord ⟨before, append, after⟩ := by
  rcases step.appends lists with ⟨missing, file, _⟩
  have decides := lists_append_iff lists append
  rw [← file] at decides
  rw [Agreed, NoOpenWord, ← decides]
  constructor
  · exact And.left
  · intro reads
    refine ⟨reads, ?_⟩
    intro name ip recorded
    apply found_of_lists reads
    rw [find_append]
    rcases recorded with earlier | new
    · rw [earlier]
      rfl
    · cases new
      rw [missing, Option.none_or, find_cons, if_pos rfl]

/--
For every file of pairs and every sequence of appends by the two programs: all
appends leave a file that reads as its pairs exactly if `mods` never appended
to an open word.
-/
theorem shared_cache_iff
    (gethostbyname : List Byte → Option (List Byte))
    (file : List Byte) (pairs : List (Token × Token))
    (lists : Lists file pairs)
    (records : List (Record SharedFile Append)) (final : SharedFile)
    (run : Run (SharedStep gethostbyname) ⟨file, pairs⟩ records final) :
    (∀ record ∈ records, Agreed record) ↔
      ∀ record ∈ records, NoOpenWord record := by
  have initial : SharedFile.Reads ⟨file, pairs⟩ := lists
  refine (run.forall_good_iff initial ?_ ?_).1
  · intro current append next reads step
    exact agreed_iff_noOpenWord step reads
  · intro current append next reads step guarded
    have agreed := (agreed_iff_noOpenWord step reads).mpr guarded
    rw [SharedFile.Reads, (step.appends reads).2.2]
    exact agreed.1

/-! ## Two appends -/

/-- Every name resolves to "2". -/
def twoByName (_ : List Byte) : Option (List Byte) :=
  some (50 :: List.replicate 29 0)

/-- The pair of two letters. -/
abbrev pairA1 : Token × Token :=
  (letterA, digitOne)

/-- From "a 1" and a line end, `mods` appends b and the server c. -/
theorem shared_cache_mods_then_server :
    ∃ records final,
      Run (SharedStep twoByName) ⟨[97, 32, 49, 10], [pairA1]⟩
          records final ∧
        final.file =
          [97, 32, 49, 10, 98, 32, 50, 10, 10, 99, 32, 51] ∧
        ∀ record ∈ records, Agreed record := by
  let start : SharedFile := ⟨[97, 32, 49, 10], [pairA1]⟩
  let first : Append :=
    ⟨.mods, letter 98 (by decide), letter 50 (by decide)⟩
  let second : Append :=
    ⟨.server, letter 99 (by decide), letter 51 (by decide)⟩
  let middle : SharedFile :=
    ⟨start.file ++ first.text, start.pairs ++ [(first.name, first.ip)]⟩
  have lists : Lists start.file start.pairs := by decide
  have reads : Lists middle.file middle.pairs := by decide
  have one : SharedStep twoByName start first middle :=
    .of_missing lists first (by decide)
      fun _ => ⟨_, rfl, by decide⟩
  have two : SharedStep twoByName middle second _ :=
    .of_missing reads second (by decide) (by simp [second])
  have run : Run (SharedStep twoByName) start _ _ :=
    .snoc (.snoc .nil one) two
  refine ⟨_, _, run, by decide, ?_⟩
  apply
    (shared_cache_iff twoByName start.file start.pairs lists _ _ run).mpr
  intro record member
  simp only [List.nil_append, List.cons_append, List.mem_cons,
    List.not_mem_nil, or_false] at member
  rcases member with rfl | rfl
  · intro _ last ending
    have newline : 10 = last := Option.some.inj ending
    rw [← newline]
    decide
  · intro other
    cases other

/--
From the same file the server appends b and `mods` c.  The server's record has
no line end, so the file reads as "a 1", "b 2c" and an odd word.
-/
theorem mods_prolongs_address :
    ¬ ∀ (gethostbyname : List Byte → Option (List Byte))
        (file : List Byte) (pairs : List (Token × Token)),
        Lists file pairs →
        ∀ (records : List (Record SharedFile Append))
          (final : SharedFile),
          Run (SharedStep gethostbyname) ⟨file, pairs⟩ records final →
            ∀ record ∈ records, Agreed record := by
  intro claim
  let start : SharedFile := ⟨[97, 32, 49, 10], [pairA1]⟩
  let first : Append :=
    ⟨.server, letter 98 (by decide), letter 50 (by decide)⟩
  let second : Append :=
    ⟨.mods, letter 99 (by decide), letter 50 (by decide)⟩
  let middle : SharedFile :=
    ⟨start.file ++ first.text, start.pairs ++ [(first.name, first.ip)]⟩
  have lists : Lists start.file start.pairs := by decide
  have reads : Lists middle.file middle.pairs := by decide
  have one : SharedStep twoByName start first middle :=
    .of_missing lists first (by decide) (by simp [first])
  have two : SharedStep twoByName middle second _ :=
    .of_missing reads second (by decide)
      fun _ => ⟨_, rfl, by decide⟩
  have run : Run (SharedStep twoByName) start _ _ :=
    .snoc (.snoc .nil one) two
  have agreed := claim twoByName start.file start.pairs lists _ _ run
    _ (List.mem_append_right _ (List.mem_singleton.mpr rfl))
  exact absurd agreed.1 (by decide)

end NetworkingLab.NameService
