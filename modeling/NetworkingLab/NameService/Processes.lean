import NetworkingLab.NameService.Table

/-!
# The processes of the name service

The caching server and the top-level server take datagrams one at a time, in
whatever order their sockets hold them: `receive` continues a process from the
`recvfrom` it waits at to the next one.  A request is two datagrams, a marker
of one byte and a name of 30 bytes.

`recvfrom` overwrites the address variable it is given, so a reply goes to
whoever sent the last datagram that was received into it.  All arrays keep the
bytes behind the part that is written.
-/

namespace NetworkingLab.NameService

open NetworkingLab.Foundation.CString

/-- The processes that own a socket. -/
inductive Address where
  | client (port : Nat)
  | server
  | tld
  deriving DecidableEq

/-- A datagram on its way. -/
structure Datagram where
  source : Address
  target : Address
  bytes : List Byte
  deriving DecidableEq

/-- `recvfrom` with room for `size` bytes. -/
def recvfrom (size : Nat) (bytes array : List Byte) : List Byte :=
  overwrite (bytes.take size) array

/-- The text "not found". -/
def notFound : List Byte :=
  [110, 111, 116, 32, 102, 111, 117, 110, 100]

/-- `char msg[30] = "not found"`. -/
def notFoundMsg : List Byte :=
  notFound ++ List.replicate 21 0

/-- The byte '1' in front of every request. -/
def cbit : List Byte :=
  [49]

/-! ## The caching server -/

/-- The `recvfrom` at which the server waits. -/
inductive ServerPhase where
  | marker
  | name
  | reply
  deriving DecidableEq

/-- The variables of the caching server; `dns` is the file `DNS`. -/
structure NameServer where
  phase : ServerPhase
  dns : List Byte
  hostname : List Byte
  hostbuf : List Byte
  ipbuf : List Byte
  ip : List Byte
  clientadr : Address
  tldadr : Address

/-- `sendto` from the server's socket. -/
def NameServer.sendto (target : Address) (bytes : List Byte) : Datagram :=
  ⟨.server, target, bytes⟩

/-- The text that records a pair at the end of `DNS`. -/
def recordText (hostname ip : List Byte) : List Byte :=
  [10] ++ cString hostname ++ [32] ++ cString ip

/-- From one `recvfrom` of the caching server to the next. -/
def NameServer.receive (server : NameServer) (datagram : Datagram) :
    Option (NameServer × List Datagram) :=
  match server.phase with
  | .marker =>
      some ({ server with phase := .name, clientadr := datagram.source },
        [])
  | .name =>
      let hostname := recvfrom 30 datagram.bytes server.hostname
      let server :=
        { server with hostname, clientadr := datagram.source }
      (search hostname (server.dns.length + 1) server.hostbuf
          server.ipbuf server.dns).map fun result =>
        let server :=
          { server with
            hostbuf := result.hostbuf
            ipbuf := result.ipbuf }
        if result.found then
          ({ server with phase := .marker },
            [NameServer.sendto server.clientadr result.ipbuf])
        else
          ({ server with phase := .reply },
            [NameServer.sendto server.tldadr cbit,
              NameServer.sendto server.tldadr hostname])
  | .reply =>
      let ip := recvfrom 30 datagram.bytes server.ip
      let server :=
        { server with
          phase := .marker
          ip
          tldadr := datagram.source }
      if cString ip = notFound then
        some (server,
          [NameServer.sendto server.clientadr notFoundMsg])
      else
        some
          ({ server with
              dns := server.dns ++ recordText server.hostname ip },
            [NameServer.sendto server.clientadr ip])

/-! ## The top-level server -/

/-- The `recvfrom` at which the top-level server waits. -/
inductive TldPhase where
  | marker
  | name
  deriving DecidableEq

/-- The variables of the top-level server; `hdns` is the file `HDNS`. -/
structure TldServer where
  phase : TldPhase
  hdns : List Byte
  hostname : List Byte
  hostbuf : List Byte
  ipbuf : List Byte
  clientadr : Address

/-- `sendto` from the top-level server's socket. -/
def TldServer.sendto (target : Address) (bytes : List Byte) : Datagram :=
  ⟨.tld, target, bytes⟩

/-- From one `recvfrom` of the top-level server to the next. -/
def TldServer.receive (tld : TldServer) (datagram : Datagram) :
    Option (TldServer × List Datagram) :=
  match tld.phase with
  | .marker =>
      some ({ tld with phase := .name, clientadr := datagram.source }, [])
  | .name =>
      let hostname := recvfrom 30 datagram.bytes tld.hostname
      let tld := { tld with hostname, clientadr := datagram.source }
      (search hostname (tld.hdns.length + 1) tld.hostbuf tld.ipbuf
          tld.hdns).map fun result =>
        let tld :=
          { tld with
            phase := .marker
            hostbuf := result.hostbuf
            ipbuf := result.ipbuf }
        if result.found then
          (tld, [TldServer.sendto tld.clientadr result.ipbuf])
        else
          (tld, [TldServer.sendto tld.clientadr notFoundMsg])

/-! ## The client -/

/-- The variables of a client, and what it has printed. -/
structure NsClient where
  port : Nat
  hostname : List Byte
  ip : List Byte
  printed : List (List Byte)

/-- `sendto` from the client's socket. -/
def NsClient.sendto (client : NsClient) (bytes : List Byte) : Datagram :=
  ⟨.client client.port, .server, bytes⟩

/-- The command `nslookup`, up to the client's `recvfrom`. -/
def NsClient.nslookup (client : NsClient) (word : List Byte) :
    NsClient × List Datagram :=
  let hostname := overwrite (word ++ [0]) client.hostname
  ({ client with hostname },
    [client.sendto cbit, client.sendto hostname])

/-- The reply is printed. -/
def NsClient.receive (client : NsClient) (datagram : Datagram) :
    NsClient :=
  let ip := recvfrom 30 datagram.bytes client.ip
  { client with ip, printed := client.printed ++ [cString ip] }

/-! ## One step of each process -/

/-- A datagram of the size of an array fills it. -/
theorem recvfrom_full
    {size : Nat} {bytes array : List Byte}
    (whole : bytes.length = size) (room : array.length = size) :
    recvfrom size bytes array = bytes := by
  have taken : bytes.take size = bytes := by
    rw [← whole, List.take_length]
  rw [recvfrom, taken, overwrite, List.drop_of_length_le]
  · exact List.append_nil _
  · rw [whole, room]

/-- An array keeps its size when at most its size is received. -/
theorem recvfrom_length
    {size : Nat} {bytes array : List Byte} (room : array.length = size) :
    (recvfrom size bytes array).length = size := by
  have fits : (bytes.take size).length ≤ array.length := by
    rw [room]
    exact List.length_take_le _ _
  rw [recvfrom, length_overwrite fits, room]

/-- The arrays of a server have 30 bytes. -/
structure NameServer.Sized (server : NameServer) : Prop where
  hostname : server.hostname.length = 30
  hostbuf : server.hostbuf.length = 30
  ipbuf : server.ipbuf.length = 30
  ip : server.ip.length = 30

/-- The arrays of the top-level server have 30 bytes. -/
structure TldServer.Sized (tld : TldServer) : Prop where
  hostname : tld.hostname.length = 30
  hostbuf : tld.hostbuf.length = 30
  ipbuf : tld.ipbuf.length = 30

open NetworkingLab.Foundation.CachingResolver
open NetworkingLab.Foundation.Scan
open NetworkingLab.Foundation.Words

/-- The datagram fills an array of 30 bytes with this text. -/
structure Datagram.Carries (datagram : Datagram) (text : List Byte) :
    Prop where
  size : datagram.bytes.length = 30
  text : cString datagram.bytes = text

/-- The text of an answer. -/
def answerText : Option Token → List Byte
  | some ip => ip.text
  | none => notFound

theorem Token.ne_notFound (token : Token) : token.text ≠ notFound := by
  intro same
  have solid := token.solid 32 (by
    rw [same]
    decide)
  exact absurd solid (by decide)

/-- The caching server holds these pairs and knows whom to ask. -/
structure NameServer.Serves (server : NameServer)
    (cache : List (Token × Token)) : Prop where
  sized : server.Sized
  lists : Lists server.dns cache
  upstream : server.tldadr = .tld

/-- The top-level server holds these pairs. -/
structure TldServer.Serves (tld : TldServer)
    (zone : List (Token × Token)) : Prop where
  sized : tld.Sized
  lists : Lists tld.hdns zone

namespace NameServer

variable
    {server : NameServer} {cache : List (Token × Token)}
    {datagram : Datagram} {name : Token}

theorem receive_marker (phase : server.phase = .marker) :
    server.receive datagram =
      some ({ server with phase := .name, clientadr := datagram.source },
        []) := by
  simp [receive, phase]

/-- What the server does with a datagram it takes for a name. -/
theorem receive_name_cases
    {next : NameServer} {sent : List Datagram}
    (phase : server.phase = .name)
    (received : server.receive datagram = some (next, sent)) :
    ∃ result,
      search (recvfrom 30 datagram.bytes server.hostname)
          (server.dns.length + 1) server.hostbuf server.ipbuf
          server.dns = some result ∧
        next =
          { server with
            phase := if result.found then .marker else .reply
            hostname := recvfrom 30 datagram.bytes server.hostname
            hostbuf := result.hostbuf
            ipbuf := result.ipbuf
            clientadr := datagram.source } ∧
        sent =
          if result.found then
            [⟨.server, datagram.source, result.ipbuf⟩]
          else
            [⟨.server, server.tldadr, cbit⟩,
              ⟨.server, server.tldadr,
                recvfrom 30 datagram.bytes server.hostname⟩] := by
  simp only [receive, phase, Option.map_eq_some_iff] at received
  rcases received with ⟨result, searched, outcome⟩
  refine ⟨result, searched, ?_⟩
  split_ifs at outcome with found <;>
    · cases outcome
      simp [found, sendto]

/-- What the server does with a datagram it takes for a reply. -/
theorem receive_reply_cases
    {next : NameServer} {sent : List Datagram}
    (phase : server.phase = .reply)
    (received : server.receive datagram = some (next, sent)) :
    next =
        { server with
          phase := .marker
          ip := recvfrom 30 datagram.bytes server.ip
          tldadr := datagram.source
          dns :=
            if cString (recvfrom 30 datagram.bytes server.ip) =
                notFound then
              server.dns
            else
              server.dns ++ recordText server.hostname
                (recvfrom 30 datagram.bytes server.ip) } ∧
      sent =
        [⟨.server, server.clientadr,
          if cString (recvfrom 30 datagram.bytes server.ip) =
              notFound then
            notFoundMsg
          else
            recvfrom 30 datagram.bytes server.ip⟩] := by
  simp only [receive, phase] at received
  split_ifs at received with unknown <;>
    · cases received
      simp [unknown, sendto]

/-- What is appended is the pair in the two arrays, if anything is. -/
theorem receive_reply_dns
    {next : NameServer} {sent : List Datagram}
    (phase : server.phase = .reply)
    (received : server.receive datagram = some (next, sent)) :
    next.dns = server.dns ∨
      next.dns = server.dns ++ recordText next.hostname next.ip := by
  rcases receive_reply_cases phase received with ⟨rfl, _⟩
  by_cases unknown :
      cString (recvfrom 30 datagram.bytes server.ip) = notFound
  · exact Or.inl (if_pos unknown)
  · exact Or.inr (if_neg unknown)

/-- The search for a name leaves a server that serves. -/
theorem exists_search
    (serves : server.Serves cache) (carries : datagram.Carries name.text) :
    ∃ result,
      search datagram.bytes (server.dns.length + 1) server.hostbuf
          server.ipbuf server.dns = some result ∧
        Finds cache name result ∧
        ∀ phase, NameServer.Serves
          { server with
            phase := phase
            hostname := datagram.bytes
            hostbuf := result.hostbuf
            ipbuf := result.ipbuf
            clientadr := datagram.source } cache := by
  have asked : cString datagram.bytes = name.text := carries.text
  rcases search_finds asked
      (server.dns.length + 1) (Nat.lt_succ_self _) serves.sized.hostbuf
      serves.sized.ipbuf serves.lists with
    ⟨result, searched, finds⟩
  refine ⟨result, searched, finds, fun phase => ?_⟩
  exact
    ⟨⟨carries.size, finds.hostbuf, finds.ipbuf, serves.sized.ip⟩,
      serves.lists, serves.upstream⟩

/-- A cached name is answered at once. -/
theorem receive_hit
    (serves : server.Serves cache) (phase : server.phase = .name)
    (carries : datagram.Carries name.text)
    {ip : Token} (hit : find cache name = some ip) :
    ∃ next bytes,
      server.receive datagram =
          some (next, [⟨.server, datagram.source, bytes⟩]) ∧
        next.Serves cache ∧ next.phase = .marker ∧
        bytes.length = 30 ∧ cString bytes = ip.text := by
  have filled := recvfrom_full carries.size serves.sized.hostname
  rcases exists_search serves carries with
    ⟨result, searched, finds, kept⟩
  rcases finds.hit ip hit with ⟨found, text⟩
  refine
    ⟨{ server with
        phase := .marker
        hostname := datagram.bytes
        hostbuf := result.hostbuf
        ipbuf := result.ipbuf
        clientadr := datagram.source }, result.ipbuf, ?_, kept _, rfl,
      finds.ipbuf, text⟩
  simp [receive, phase, filled, searched, found, sendto]

/-- A name that is not cached is passed on to the top-level server. -/
theorem receive_miss
    (serves : server.Serves cache) (phase : server.phase = .name)
    (carries : datagram.Carries name.text)
    (miss : find cache name = none) :
    ∃ next,
      server.receive datagram =
          some (next,
            [⟨.server, .tld, cbit⟩, ⟨.server, .tld, datagram.bytes⟩]) ∧
        next.Serves cache ∧ next.phase = .reply ∧
        cString next.hostname = name.text ∧
        next.clientadr = datagram.source := by
  have filled := recvfrom_full carries.size serves.sized.hostname
  rcases exists_search serves carries with
    ⟨result, searched, finds, kept⟩
  have absent := finds.miss miss
  refine
    ⟨{ server with
        phase := .reply
        hostname := datagram.bytes
        hostbuf := result.hostbuf
        ipbuf := result.ipbuf
        clientadr := datagram.source }, ?_, kept _, rfl, carries.text, rfl⟩
  simp [receive, phase, filled, searched, absent, sendto, serves.upstream]

/-- The text that is appended for a pair reads back as that pair. -/
theorem lists_record
    {dns hostname ip : List Byte} {host address : Token}
    (lists : Lists dns cache)
    (hostText : cString hostname = host.text)
    (ipText : cString ip = address.text) :
    Lists (dns ++ recordText hostname ip) (cache ++ [(host, address)]) := by
  have blank : isspace 32 = true := by decide
  have newline : isspace 10 = true := by decide
  have shape : dns ++ recordText hostname ip =
      dns ++ 10 :: (host.text ++ 32 :: address.text) := by
    simp [recordText, hostText, ipText]
  rw [Lists, shape, words_append_blank isspace _ _ newline,
    words_solid_append isspace host.solid host.nonempty _ blank,
    words_solid isspace address.solid address.nonempty,
    pairWords_append, lists]
  rfl

/-- A fetched address is recorded and passed on. -/
theorem receive_fetched
    (serves : server.Serves cache) (phase : server.phase = .reply)
    (waiting : cString server.hostname = name.text)
    {ip : Token} (carries : datagram.Carries ip.text)
    (source : datagram.source = .tld) :
    ∃ next,
      server.receive datagram =
          some (next, [⟨.server, server.clientadr, datagram.bytes⟩]) ∧
        next.Serves (cache ++ [(name, ip)]) ∧ next.phase = .marker := by
  have filled := recvfrom_full carries.size serves.sized.ip
  have known : cString datagram.bytes ≠ notFound := by
    rw [carries.text]
    exact ip.ne_notFound
  refine
    ⟨{ server with
        phase := .marker
        ip := datagram.bytes
        tldadr := datagram.source
        dns := server.dns ++ recordText server.hostname datagram.bytes },
      ?_, ?_, rfl⟩
  · simp [receive, phase, filled, known, sendto]
  · refine
      ⟨⟨serves.sized.hostname, serves.sized.hostbuf,
          serves.sized.ipbuf, carries.size⟩, ?_, source⟩
    exact lists_record serves.lists waiting carries.text

/-- An unknown name leaves the file as it is. -/
theorem receive_unknown
    (serves : server.Serves cache) (phase : server.phase = .reply)
    (carries : datagram.Carries notFound)
    (source : datagram.source = .tld) :
    ∃ next,
      server.receive datagram =
          some (next, [⟨.server, server.clientadr, notFoundMsg⟩]) ∧
        next.Serves cache ∧ next.phase = .marker := by
  have filled := recvfrom_full carries.size serves.sized.ip
  refine
    ⟨{ server with
        phase := .marker
        ip := datagram.bytes
        tldadr := datagram.source }, ?_, ?_, rfl⟩
  · simp [receive, phase, filled, carries.text, sendto]
  · exact
      ⟨⟨serves.sized.hostname, serves.sized.hostbuf,
          serves.sized.ipbuf, carries.size⟩, serves.lists, source⟩

/-- An answer is passed on, and recorded if it is an address. -/
theorem receive_answer
    {next : NameServer} {sent : List Datagram}
    (lists : Lists server.dns cache) (phase : server.phase = .reply)
    (waiting : cString server.hostname = name.text)
    {answer : Option Token}
    (text : cString (recvfrom 30 datagram.bytes server.ip) =
      answerText answer)
    (received : server.receive datagram = some (next, sent)) :
    next.phase = .marker ∧
      Lists next.dns
        (cache ++ answer.toList.map fun ip => (name, ip)) ∧
      ∃ bytes, sent = [⟨.server, server.clientadr, bytes⟩] ∧
        cString bytes = answerText answer := by
  rcases receive_reply_cases phase received with ⟨rfl, rfl⟩
  refine ⟨rfl, ?_, _, rfl, ?_⟩
  · cases answer with
    | some ip =>
        have known : cString (recvfrom 30 datagram.bytes server.ip) ≠
            notFound := by
          rw [text]
          exact ip.ne_notFound
        simp only [known, if_false]
        exact lists_record lists waiting text
    | none =>
        simp only [text, answerText, if_true]
        simpa using lists
  · split_ifs with unknown
    · rw [← text, unknown]
      decide
    · exact text

end NameServer

namespace TldServer

variable
    {tld : TldServer} {zone : List (Token × Token)}
    {datagram : Datagram} {name : Token}

theorem receive_marker (phase : tld.phase = .marker) :
    tld.receive datagram =
      some ({ tld with phase := .name, clientadr := datagram.source },
        []) := by
  simp [receive, phase]

/-- What the top-level server does with a datagram it takes for a name. -/
theorem receive_name_cases
    {next : TldServer} {sent : List Datagram}
    (sized : tld.Sized) (phase : tld.phase = .name)
    (received : tld.receive datagram = some (next, sent)) :
    ∃ bytes,
      next.Sized ∧ next.phase = .marker ∧ next.hdns = tld.hdns ∧
        next.hostname = recvfrom 30 datagram.bytes tld.hostname ∧
        bytes.length = 30 ∧
        sent = [⟨.tld, datagram.source, bytes⟩] := by
  simp only [receive, phase, Option.map_eq_some_iff] at received
  rcases received with ⟨result, searched, outcome⟩
  rcases search_length searched with ⟨hostbuf, ipbuf⟩
  have hostname :
      (recvfrom 30 datagram.bytes tld.hostname).length = 30 :=
    recvfrom_length sized.hostname
  rw [sized.hostbuf] at hostbuf
  rw [sized.ipbuf] at ipbuf
  split_ifs at outcome
  · cases outcome
    exact ⟨_, ⟨hostname, hostbuf, ipbuf⟩, rfl, rfl, rfl, ipbuf, rfl⟩
  · cases outcome
    exact ⟨_, ⟨hostname, hostbuf, ipbuf⟩, rfl, rfl, rfl, by decide, rfl⟩

/-- The top-level server answers every name. -/
theorem receive_name
    (serves : tld.Serves zone) (phase : tld.phase = .name)
    (carries : datagram.Carries name.text) :
    ∃ next bytes,
      tld.receive datagram =
          some (next, [⟨.tld, datagram.source, bytes⟩]) ∧
        next.Serves zone ∧ next.phase = .marker ∧
        bytes.length = 30 ∧
        cString bytes = answerText (find zone name) := by
  have filled := recvfrom_full carries.size serves.sized.hostname
  have asked : cString datagram.bytes = name.text := carries.text
  rcases search_finds asked
      (tld.hdns.length + 1) (Nat.lt_succ_self _) serves.sized.hostbuf
      serves.sized.ipbuf serves.lists with
    ⟨result, searched, finds⟩
  have later : TldServer.Serves
      { tld with
        phase := .marker
        hostname := datagram.bytes
        clientadr := datagram.source
        hostbuf := result.hostbuf
        ipbuf := result.ipbuf } zone :=
    ⟨⟨carries.size, finds.hostbuf, finds.ipbuf⟩, serves.lists⟩
  cases answer : find zone name with
  | some ip =>
      rcases finds.hit ip answer with ⟨found, text⟩
      refine ⟨_, result.ipbuf, ?_, later, rfl, finds.ipbuf, text⟩
      simp [receive, phase, filled, searched, found, sendto]
  | none =>
      have absent := finds.miss answer
      refine ⟨_, notFoundMsg, ?_, later, rfl, by decide, by decide⟩
      simp [receive, phase, filled, searched, absent, sendto]

end TldServer

/-- The client behind its request. -/
theorem NsClient.request_size
    {client : NsClient} (size : client.hostname.length = 30)
    (name : Token) :
    (client.nslookup name.text).1.hostname.length = 30 :=
  name.stored_length size

/-- The name datagram carries the name. -/
theorem NsClient.request_carries
    {client : NsClient} (size : client.hostname.length = 30)
    (name : Token) :
    Datagram.Carries
      ⟨.client client.port, .server,
        overwrite (name.text ++ [0]) client.hostname⟩ name.text where
  size := name.stored_length size
  text := cString_stored name.nulFree client.hostname

end NetworkingLab.NameService
