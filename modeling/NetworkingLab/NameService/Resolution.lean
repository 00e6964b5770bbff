import NetworkingLab.NameService.Processes

/-!
# Lookups through the name service

A client, the caching server and the top-level server, with the datagrams in
flight in the order they were sent.  Each lookup runs until nothing is in
flight and the next one starts after it.

`lookups_refine` relates the processes to the resolver they implement: the
file `DNS` holds the pairs of its cache, `HDNS` those of its zone, the client
prints its answers and the top-level server receives its questions.
-/

namespace NetworkingLab.NameService

open NetworkingLab.Foundation.CString
open NetworkingLab.Foundation.CachingResolver
open NetworkingLab.Foundation.Scan
open NetworkingLab.Foundation.Words

/-- The three processes and the datagrams between them. -/
structure Lab where
  client : NsClient
  server : NameServer
  tld : TldServer
  flight : List Datagram
  delivered : List Datagram

/-- The first datagram in flight is received. -/
def Lab.deliver (lab : Lab) : Option Lab :=
  match lab.flight with
  | [] => some lab
  | datagram :: rest =>
      let lab :=
        { lab with
          flight := rest
          delivered := lab.delivered ++ [datagram] }
      match datagram.target with
      | .client _ =>
          some { lab with client := lab.client.receive datagram }
      | .server =>
          (lab.server.receive datagram).map fun result =>
            { lab with server := result.1, flight := rest ++ result.2 }
      | .tld =>
          (lab.tld.receive datagram).map fun result =>
            { lab with tld := result.1, flight := rest ++ result.2 }

/-- Deliver until nothing is in flight, at most this many datagrams. -/
def Lab.settle : Nat → Lab → Option Lab
  | 0, lab => if lab.flight = [] then some lab else none
  | deliveries + 1, lab =>
      match lab.deliver with
      | none => none
      | some next => Lab.settle deliveries next

/-- One lookup.  Six deliveries are the longest way to the answer. -/
def Lab.lookup (lab : Lab) (word : List Byte) : Option Lab :=
  let request := lab.client.nslookup word
  Lab.settle 6
    { lab with client := request.1, flight := request.2 }

/-- Lookups one after another. -/
def Lab.lookups : List Token → Lab → Option Lab
  | [], lab => some lab
  | name :: names, lab =>
      match lab.lookup name.text with
      | none => none
      | some next => Lab.lookups names next

/-- What the top-level server has received, as texts. -/
def Lab.asked (lab : Lab) : List (List Byte) :=
  (lab.delivered.filter fun datagram => datagram.target = .tld).map
    fun datagram => cString datagram.bytes

/-- The texts of a question: the marker, then the name. -/
def questionTexts (names : List Token) : List (List Byte) :=
  names.flatMap fun name => [cbit, name.text]

/-- Idle processes that hold the pairs of a resolver. -/
structure Represents (lab : Lab) (resolver : Resolver Token Token) :
    Prop where
  hostname : lab.client.hostname.length = 30
  ip : lab.client.ip.length = 30
  server : lab.server.Serves resolver.cache
  serverIdle : lab.server.phase = .marker
  tld : lab.tld.Serves resolver.zone
  tldIdle : lab.tld.phase = .marker
  silent : lab.flight = []

/-! ## Single deliveries -/

section Deliveries

variable
    {client : NsClient} {server : NameServer} {tld : TldServer}
    {datagram : Datagram} {rest delivered sent : List Datagram}
    (deliveries : Nat)

theorem settle_server
    {next : NameServer}
    (target : datagram.target = .server)
    (call : server.receive datagram = some (next, sent)) :
    Lab.settle (deliveries + 1)
        ⟨client, server, tld, datagram :: rest, delivered⟩ =
      Lab.settle deliveries
        ⟨client, next, tld, rest ++ sent, delivered ++ [datagram]⟩ := by
  simp [Lab.settle, Lab.deliver, target, call]

theorem settle_tld
    {next : TldServer}
    (target : datagram.target = .tld)
    (call : tld.receive datagram = some (next, sent)) :
    Lab.settle (deliveries + 1)
        ⟨client, server, tld, datagram :: rest, delivered⟩ =
      Lab.settle deliveries
        ⟨client, server, next, rest ++ sent, delivered ++ [datagram]⟩ := by
  simp [Lab.settle, Lab.deliver, target, call]

theorem settle_silent :
    Lab.settle deliveries ⟨client, server, tld, [], delivered⟩ =
      some ⟨client, server, tld, [], delivered⟩ := by
  induction deliveries with
  | zero => rfl
  | succ deliveries induction => exact induction

/-- An answer reaches the client and is printed. -/
theorem settle_answer
    {port : Nat} {bytes : List Byte}
    (size : bytes.length = 30) (room : client.ip.length = 30) :
    Lab.settle (deliveries + 1)
        ⟨client, server, tld, [⟨.server, .client port, bytes⟩],
          delivered⟩ =
      some
        ⟨{ client with
            ip := bytes
            printed := client.printed ++ [cString bytes] },
          server, tld, [],
          delivered ++ [⟨.server, .client port, bytes⟩]⟩ := by
  rw [Lab.settle]
  simp only [Lab.deliver]
  rw [settle_silent]
  simp [NsClient.receive, recvfrom_full size room]

end Deliveries

/-! ## One lookup -/

/-- The outcome of one lookup. -/
structure Resolved (lab final : Lab)
    (resolver : Resolver Token Token) (name : Token) : Prop where
  represents : Represents final (resolver.resolve name)
  printed : final.client.printed =
    lab.client.printed ++ [answerText (resolver.answer name)]
  asked : final.asked =
    lab.asked ++ questionTexts (resolver.questions [name])

section Lookup

variable
    {lab : Lab} {resolver : Resolver Token Token} {name : Token}

/-- The marker datagram of a client. -/
abbrev NsClient.markerDatagram (client : NsClient) : Datagram :=
  ⟨.client client.port, .server, cbit⟩

/-- The name datagram of a client. -/
abbrev NsClient.nameDatagram (client : NsClient) (name : Token) :
    Datagram :=
  ⟨.client client.port, .server,
    overwrite (name.text ++ [0]) client.hostname⟩

/-- The client behind a request for a name. -/
abbrev NsClient.requesting (client : NsClient) (name : Token) :
    NsClient :=
  (client.nslookup name.text).1

/-- The client behind an answer. -/
abbrev NsClient.answered (client : NsClient) (name : Token)
    (bytes : List Byte) : NsClient :=
  { client.requesting name with
    ip := bytes
    printed := client.printed ++ [cString bytes] }

/-- The server when it has received a marker from the client. -/
abbrev Lab.marked (lab : Lab) : NameServer :=
  { lab.server with
    phase := .name
    clientadr := .client lab.client.port }

/-- The datagrams of a request. -/
abbrev Lab.requested (lab : Lab) (name : Token) : List Datagram :=
  lab.delivered ++
    [lab.client.markerDatagram, lab.client.nameDatagram name]

/-- The datagrams of a request and of the question it leads to. -/
abbrev Lab.passedOn (lab : Lab) (name : Token) : List Datagram :=
  lab.requested name ++
    [⟨.server, .tld, cbit⟩,
      ⟨.server, .tld, (lab.client.nameDatagram name).bytes⟩]

theorem Represents.marked_serves
    (represents : Represents lab resolver) :
    lab.marked.Serves resolver.cache :=
  ⟨⟨represents.server.sized.hostname, represents.server.sized.hostbuf,
      represents.server.sized.ipbuf, represents.server.sized.ip⟩,
    represents.server.lists, represents.server.upstream⟩

/-- The marker of a request has been received. -/
theorem lookup_marked (represents : Represents lab resolver) :
    lab.lookup name.text =
      Lab.settle 5
        ⟨lab.client.requesting name, lab.marked, lab.tld,
          [lab.client.nameDatagram name],
          lab.delivered ++ [lab.client.markerDatagram]⟩ :=
  settle_server 5 rfl
    (NameServer.receive_marker represents.serverIdle)

/-- A name in the cache. -/
theorem lookup_hit
    (represents : Represents lab resolver)
    {ip : Token} (hit : find resolver.cache name = some ip) :
    ∃ final, lab.lookup name.text = some final ∧
      Resolved lab final resolver name := by
  have carries := NsClient.request_carries represents.hostname name
  rcases NameServer.receive_hit represents.marked_serves rfl carries hit
    with ⟨server, bytes, call, serves, idle, size, text⟩
  refine
    ⟨⟨lab.client.answered name bytes, server, lab.tld, [],
      lab.requested name ++
        [⟨.server, .client lab.client.port, bytes⟩]⟩, ?_, ?_⟩
  · rw [lookup_marked represents, settle_server 4 rfl call,
      List.append_assoc]
    exact settle_answer 3 size represents.ip
  · have kept : resolver.resolve name = resolver := by
      simp [Resolver.resolve, resolver.learned_of_hit hit]
    constructor
    · rw [kept]
      exact
        ⟨NsClient.request_size represents.hostname name, size, serves,
          idle, represents.tld, represents.tldIdle, rfl⟩
    · simp [text, Resolver.answer, hit, answerText]
    · simp [Lab.asked, Resolver.questions, hit, questionTexts]

/-- The answer of the top-level server is in flight. -/
theorem lookup_passed_on
    (represents : Represents lab resolver)
    (miss : find resolver.cache name = none) :
    ∃ server tld bytes,
      lab.lookup name.text =
          Lab.settle 2
            ⟨lab.client.requesting name, server, tld,
              [⟨.tld, .server, bytes⟩], lab.passedOn name⟩ ∧
        server.Serves resolver.cache ∧ server.phase = .reply ∧
        cString server.hostname = name.text ∧
        server.clientadr = .client lab.client.port ∧
        tld.Serves resolver.zone ∧ tld.phase = .marker ∧
        bytes.length = 30 ∧
        cString bytes = answerText (find resolver.zone name) := by
  have carries := NsClient.request_carries represents.hostname name
  rcases NameServer.receive_miss represents.marked_serves rfl carries
    miss with ⟨server, call, serves, waits, hostname, client⟩
  have zone : TldServer.Serves
      { lab.tld with phase := .name, clientadr := .server }
      resolver.zone :=
    ⟨⟨represents.tld.sized.hostname, represents.tld.sized.hostbuf,
      represents.tld.sized.ipbuf⟩, represents.tld.lists⟩
  have question : Datagram.Carries
      ⟨.server, .tld, (lab.client.nameDatagram name).bytes⟩ name.text :=
    ⟨carries.size, carries.text⟩
  rcases TldServer.receive_name zone rfl question with
    ⟨tld, bytes, answer, later, idle, size, text⟩
  refine
    ⟨server, tld, bytes, ?_, serves, waits, hostname, client, later,
      idle, size, text⟩
  rw [lookup_marked represents, settle_server 4 rfl call]
  simp only [List.nil_append]
  rw [settle_tld 3 rfl (TldServer.receive_marker represents.tldIdle)]
  simp only [List.append_nil]
  rw [settle_tld 2 rfl answer]
  simp

/-- The texts of the question that a request leads to. -/
theorem asked_passed_on
    (represents : Represents lab resolver)
    (miss : find resolver.cache name = none)
    (client : NsClient) (server : NameServer) (tld : TldServer)
    (answer reply : Datagram)
    (answerTarget : answer.target ≠ .tld)
    (replyTarget : reply.target ≠ .tld) :
    (Lab.asked ⟨client, server, tld, [],
        lab.passedOn name ++ [answer] ++ [reply]⟩) =
      lab.asked ++ questionTexts (resolver.questions [name]) := by
  have named := (NsClient.request_carries represents.hostname name).text
  have marker : cString cbit = cbit := by decide
  simp only [Lab.asked, List.filter_append, List.map_append]
  simp [Resolver.questions, miss, questionTexts, marker, answerTarget,
    replyTarget]
  exact named

/-- A name that only the top-level server knows. -/
theorem lookup_fetched
    (represents : Represents lab resolver)
    (miss : find resolver.cache name = none)
    {ip : Token} (fetched : find resolver.zone name = some ip) :
    ∃ final, lab.lookup name.text = some final ∧
      Resolved lab final resolver name := by
  rcases lookup_passed_on represents miss with
    ⟨server, tld, bytes, passed, serves, waits, hostname, client, zone,
      idle, size, text⟩
  rw [fetched] at text
  have carries : Datagram.Carries ⟨.tld, .server, bytes⟩ ip.text :=
    ⟨size, text⟩
  rcases NameServer.receive_fetched serves waits hostname carries rfl
    with ⟨next, call, learned, later⟩
  rw [client] at call
  refine
    ⟨⟨lab.client.answered name bytes, next, tld, [],
      lab.passedOn name ++ [⟨.tld, .server, bytes⟩] ++
        [⟨.server, .client lab.client.port, bytes⟩]⟩, ?_, ?_⟩
  · rw [passed, settle_server 1 rfl call]
    exact settle_answer 0 size represents.ip
  · have grown : resolver.resolve name =
        ⟨resolver.cache ++ [(name, ip)], resolver.zone⟩ := by
      simp [Resolver.resolve, resolver.learned_of_fetch miss fetched]
    constructor
    · rw [grown]
      exact
        ⟨NsClient.request_size represents.hostname name, size, learned,
          later, zone, idle, rfl⟩
    · simp [text, Resolver.answer, miss, fetched]
    · exact asked_passed_on represents miss _ _ _ _ _ (by simp)
        (by simp)

/-- A name that nobody knows. -/
theorem lookup_unknown
    (represents : Represents lab resolver)
    (miss : find resolver.cache name = none)
    (unknown : find resolver.zone name = none) :
    ∃ final, lab.lookup name.text = some final ∧
      Resolved lab final resolver name := by
  rcases lookup_passed_on represents miss with
    ⟨server, tld, bytes, passed, serves, waits, hostname, client, zone,
      idle, size, text⟩
  rw [unknown] at text
  have carries : Datagram.Carries ⟨.tld, .server, bytes⟩ notFound :=
    ⟨size, text⟩
  rcases NameServer.receive_unknown serves waits carries rfl with
    ⟨next, call, same, later⟩
  rw [client] at call
  have length : notFoundMsg.length = 30 := by decide
  refine
    ⟨⟨lab.client.answered name notFoundMsg, next, tld, [],
      lab.passedOn name ++ [⟨.tld, .server, bytes⟩] ++
        [⟨.server, .client lab.client.port, notFoundMsg⟩]⟩, ?_, ?_⟩
  · rw [passed, settle_server 1 rfl call]
    exact settle_answer 0 length represents.ip
  · have kept : resolver.resolve name = resolver := by
      simp [Resolver.resolve, resolver.learned_of_unknown unknown]
    have message : cString notFoundMsg = notFound := by decide
    constructor
    · rw [kept]
      exact
        ⟨NsClient.request_size represents.hostname name, length, same,
          later, zone, idle, rfl⟩
    · simp [message, Resolver.answer, miss, unknown, answerText]
    · exact asked_passed_on represents miss _ _ _ _ _ (by simp)
        (by simp)

/-- Step lemma: a lookup is one step of the resolver. -/
theorem lookup_refines
    (represents : Represents lab resolver) (name : Token) :
    ∃ final, lab.lookup name.text = some final ∧
      Resolved lab final resolver name := by
  cases cached : find resolver.cache name with
  | some ip => exact lookup_hit represents cached
  | none =>
      cases known : find resolver.zone name with
      | some ip => exact lookup_fetched represents cached known
      | none => exact lookup_unknown represents cached known

end Lookup

/-! ## Sequences of lookups -/

/-- Run lemma: a sequence of lookups is a run of the resolver. -/
theorem lookups_represents
    {lab : Lab} {resolver : Resolver Token Token}
    (represents : Represents lab resolver) (names : List Token) :
    ∃ final, Lab.lookups names lab = some final ∧
      Represents final (resolver.run names) ∧
      final.client.printed = lab.client.printed ++
        (resolver.answers names).map answerText ∧
      final.asked = lab.asked ++
        questionTexts (resolver.questions names) := by
  induction names generalizing lab resolver with
  | nil =>
      refine ⟨lab, rfl, represents, ?_, ?_⟩
      · simp [Resolver.answers]
      · simp [Resolver.questions, questionTexts]
  | cons name names induction =>
      rcases lookup_refines represents name with
        ⟨middle, first, resolved⟩
      rcases induction resolved.represents with
        ⟨final, later, holds, printed, asked⟩
      refine ⟨final, ?_, holds, ?_, ?_⟩
      · rw [Lab.lookups, first]
        exact later
      · rw [printed, resolved.printed, List.append_assoc]
        rfl
      · rw [asked, resolved.asked, List.append_assoc]
        congr 1
        cases cached : find resolver.cache name <;>
          simp [Resolver.questions, cached, questionTexts]

/--
Idle processes on a `DNS` and an `HDNS` file, with anything in their arrays.
-/
structure Fresh (lab : Lab) (dns hdns : List Byte) : Prop where
  hostname : lab.client.hostname.length = 30
  ip : lab.client.ip.length = 30
  server : lab.server.Sized
  serverIdle : lab.server.phase = .marker
  upstream : lab.server.tldadr = .tld
  cached : lab.server.dns = dns
  tld : lab.tld.Sized
  tldIdle : lab.tld.phase = .marker
  zone : lab.tld.hdns = hdns
  silent : lab.flight = []
  unprinted : lab.client.printed = []
  undelivered : lab.delivered = []

/--
The name service refines the resolver whose cache and zone its files list.
Each lookup prints the resolver's answer from the file as it is then, the
top-level server is asked exactly the resolver's questions, and `DNS` ends up
with its first pairs followed by one pair for each name that was fetched, in
the order of the first lookups.
-/
theorem name_service_refines
    (dns hdns : List Byte) (cache zone : List (Token × Token))
    (dnsLists : Lists dns cache) (hdnsLists : Lists hdns zone)
    (lab : Lab) (fresh : Fresh lab dns hdns) (names : List Token) :
    ∃ final, Lab.lookups names lab = some final ∧
      final.client.printed =
        (Resolver.answers ⟨cache, zone⟩ names).map answerText ∧
      final.asked =
        questionTexts (Resolver.questions ⟨cache, zone⟩ names) ∧
      Lists final.server.dns
        (cache ++ names.eraseDups.flatMap
          (Resolver.learned ⟨cache, zone⟩)) := by
  have represents : Represents lab ⟨cache, zone⟩ :=
    ⟨fresh.hostname, fresh.ip,
      ⟨fresh.server, fresh.cached ▸ dnsLists, fresh.upstream⟩,
      fresh.serverIdle, ⟨fresh.tld, fresh.zone ▸ hdnsLists⟩,
      fresh.tldIdle, fresh.silent⟩
  rcases lookups_represents represents names with
    ⟨final, ran, holds, printed, asked⟩
  refine ⟨final, ran, ?_, ?_, ?_⟩
  · rw [printed, fresh.unprinted, List.nil_append]
  · have nothing : lab.asked = [] := by
      simp [Lab.asked, fresh.undelivered]
    rw [asked, nothing, List.nil_append]
  · have lists := holds.server.lists
    rw [Resolver.run_cache] at lists
    exact lists

/-- Idle processes with zeroed arrays. -/
def zeroLab (dns hdns : List Byte) : Lab where
  client := ⟨1111, List.replicate 30 0, List.replicate 30 0, []⟩
  server :=
    ⟨.marker, dns, List.replicate 30 0, List.replicate 30 0,
      List.replicate 30 0, List.replicate 30 0, .client 1111, .tld⟩
  tld :=
    ⟨.marker, hdns, List.replicate 30 0, List.replicate 30 0,
      List.replicate 30 0, .server⟩
  flight := []
  delivered := []

theorem zeroLab_fresh (dns hdns : List Byte) :
    Fresh (zeroLab dns hdns) dns hdns :=
  ⟨rfl, rfl, ⟨rfl, rfl, rfl, rfl⟩, rfl, rfl, rfl, ⟨rfl, rfl, rfl⟩, rfl,
    rfl, rfl, rfl, rfl⟩

/-- With "a 1" in `DNS` and "b 2" in `HDNS`: lookups of b, a, b and c. -/
theorem name_service_refines_abc :
    ∃ final,
      Lab.lookups
          [letter 98 (by decide), letter 97 (by decide),
            letter 98 (by decide), letter 99 (by decide)]
          (zeroLab [97, 32, 49] [98, 32, 50, 10]) = some final ∧
        final.client.printed = [[50], [49], [50], notFound] ∧
        Lists final.server.dns
          [(letter 97 (by decide), letter 49 (by decide)),
            (letter 98 (by decide), letter 50 (by decide))] := by
  rcases name_service_refines [97, 32, 49] [98, 32, 50, 10]
      [(letter 97 (by decide), letter 49 (by decide))]
      [(letter 98 (by decide), letter 50 (by decide))]
      (by decide) (by decide) (zeroLab [97, 32, 49] [98, 32, 50, 10])
      (zeroLab_fresh _ _)
      [letter 98 (by decide), letter 97 (by decide),
        letter 98 (by decide), letter 99 (by decide)] with
    ⟨final, ran, printed, _, lists⟩
  exact ⟨final, ran, printed, lists⟩

end NetworkingLab.NameService
