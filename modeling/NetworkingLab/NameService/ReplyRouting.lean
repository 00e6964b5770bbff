import NetworkingLab.NameService.CacheIntegrity

/-!
# Who gets the replies

A request is two datagrams, and each `recvfrom` of the caching server overwrites
`clientadr`.  When the datagrams of two clients alternate, a marker is taken for
a name and a name for an answer.

As long as the datagrams come in turn, each request is followed from the client
to the server and back (`Stage`), and every reply is the resolver's answer to a
name its client has asked for.
-/

namespace NetworkingLab.NameService

open NetworkingLab.Foundation.CString
open NetworkingLab.Foundation.CachingResolver
open NetworkingLab.Foundation.Channels
open NetworkingLab.Foundation.Runs

/-- What the caching server sends in a step. -/
def ExchangeEvent.sentByServer : ExchangeEvent → List Datagram
  | .serve _ sent => sent
  | _ => []

/-- What the server sends to a client answers a name the client asked for. -/
def Answered (resolver : Resolver Token Token)
    (record : Record Exchange ExchangeEvent) : Prop :=
  ∀ reply ∈ record.label.sentByServer, ∀ port,
    reply.target = .client port →
      ∃ name ∈ record.before.asked port,
        cString reply.bytes = answerText (resolver.answer name)

/--
The second datagram of a request comes from the sender of the first, and what
ends the wait for an answer comes from the top-level server.
-/
def InTurn (record : Record Exchange ExchangeEvent) : Prop :=
  match record.label with
  | .serve datagram _ =>
      match record.before.server.phase with
      | .marker => True
      | .name => datagram.source = record.before.server.clientadr
      | .reply => datagram.source = .tld
  | _ => True

theorem InTurn.fromTld
    {record : Record Exchange ExchangeEvent} (inTurn : InTurn record) :
    FromTld record := by
  rcases record with ⟨before, label, after⟩
  cases label with
  | serve datagram sent =>
      intro phase
      simp only at phase
      simpa [InTurn, phase] using inTurn
  | ask | resolve | print => trivial

/-- The server is busy with the request of this client. -/
def Attended (state : Exchange) (port : Nat) : Prop :=
  state.server.phase ≠ .marker ∧ state.server.clientadr = .client port

/-- How far the request of a client has come. -/
inductive Stage (state : Exchange) (port : Nat) : Prop where
  | idle
      (waits : state.waiting port = false)
      (requests : state.between (.client port) .server = [])
      (replies : state.between .server (.client port) = [])
      (free : ¬ Attended state port)
  | asking (name : Token) (bytes : List Byte)
      (waits : state.waiting port = true)
      (requests : state.between (.client port) .server =
        [⟨.client port, .server, cbit⟩,
          ⟨.client port, .server, bytes⟩])
      (replies : state.between .server (.client port) = [])
      (free : ¬ Attended state port)
      (known : name ∈ state.asked port)
      (carries : Datagram.Carries
        ⟨.client port, .server, bytes⟩ name.text)
  | marked (name : Token) (bytes : List Byte)
      (waits : state.waiting port = true)
      (requests : state.between (.client port) .server =
        [⟨.client port, .server, bytes⟩])
      (replies : state.between .server (.client port) = [])
      (phase : state.server.phase = .name)
      (client : state.server.clientadr = .client port)
      (known : name ∈ state.asked port)
      (carries : Datagram.Carries
        ⟨.client port, .server, bytes⟩ name.text)
  | passed (name : Token)
      (waits : state.waiting port = true)
      (requests : state.between (.client port) .server = [])
      (replies : state.between .server (.client port) = [])
      (phase : state.server.phase = .reply)
      (client : state.server.clientadr = .client port)
      (known : name ∈ state.asked port)
      (hostname : cString state.server.hostname = name.text)
  | answered (bytes : List Byte)
      (waits : state.waiting port = true)
      (requests : state.between (.client port) .server = [])
      (replies : state.between .server (.client port) =
        [⟨.server, .client port, bytes⟩])
      (free : ¬ Attended state port)

/-- The invariant of runs in which the datagrams come in turn. -/
structure Routing (resolver : Resolver Token Token) (state : Exchange) :
    Prop where
  upstream : Upstream state
  cache : ∃ names,
    Lists state.server.dns (resolver.run names).cache ∧
      (state.server.phase = .reply →
        ∀ name : Token, cString state.server.hostname = name.text →
          find (resolver.run names).cache name = none)
  zone : Lists state.tld.hdns resolver.zone
  truthful : ∀ pair ∈ state.replied, ∀ name : Token,
    pair.1 = name.text → pair.2 = answerText (find resolver.zone name)
  ports : ∀ port, (state.clients port).port = port
  hostnames : ∀ port, (state.clients port).hostname.length = 30
  stage : ∀ port, Stage state port
  attended : state.server.phase ≠ .marker →
    ∃ port, state.server.clientadr = .client port
  inbound : ∀ datagram ∈ state.flight,
    datagram.target = .server → datagram.source ≠ .server
  outbound : ∀ datagram ∈ state.flight, ∀ port,
    datagram.target = .client port → datagram.source = .server

/-- A step that leaves the request of a client where it is. -/
theorem Stage.frame
    {state next : Exchange} {port : Nat} (stage : Stage state port)
    (waiting : next.waiting port = state.waiting port)
    (asked : next.asked port = state.asked port)
    (requests : next.between (.client port) .server =
      state.between (.client port) .server)
    (replies : next.between .server (.client port) =
      state.between .server (.client port))
    (server : next.server = state.server ∨
      ¬ Attended state port ∧ ¬ Attended next port) :
    Stage next port := by
  have free : ¬ Attended state port → ¬ Attended next port := by
    rcases server with same | ⟨_, free⟩
    · simp [Attended, same]
    · exact fun _ => free
  cases stage with
  | idle waits out back unattended =>
      exact .idle (waiting.trans waits) (requests.trans out)
        (replies.trans back) (free unattended)
  | asking name bytes waits out back unattended known carries =>
      rw [← asked] at known
      exact .asking name bytes (waiting.trans waits) (requests.trans out)
        (replies.trans back) (free unattended) known carries
  | marked name bytes waits out back phase client known carries =>
      rcases server with same | ⟨unattended, _⟩
      · rw [← same] at phase client
        rw [← asked] at known
        exact .marked name bytes (waiting.trans waits)
          (requests.trans out) (replies.trans back) phase client known
          carries
      · exact absurd ⟨by simp [phase], client⟩ unattended
  | passed name waits out back phase client known hostname =>
      rcases server with same | ⟨unattended, _⟩
      · rw [← same] at phase client hostname
        rw [← asked] at known
        exact .passed name (waiting.trans waits) (requests.trans out)
          (replies.trans back) phase client known hostname
      · exact absurd ⟨by simp [phase], client⟩ unattended
  | answered bytes waits out back unattended =>
      exact .answered bytes (waiting.trans waits) (requests.trans out)
        (replies.trans back) (free unattended)

theorem Exchange.Fresh.routing_holds
    {state : Exchange} (fresh : state.Fresh)
    {cache zone : List (Token × Token)}
    (dns : Lists state.server.dns cache)
    (hdns : Lists state.tld.hdns zone) :
    Routing ⟨cache, zone⟩ state where
  upstream := fresh.upstream_holds
  cache := ⟨[], dns, by simp [fresh.serverIdle]⟩
  zone := hdns
  truthful := by simp [fresh.unreplied]
  ports := fresh.ports
  hostnames := fresh.hostnames
  stage port := by
    apply Stage.idle
    · exact fresh.idle port
    · simp [Exchange.between, fresh.silent]
    · simp [Exchange.between, fresh.silent]
    · simp [Attended, fresh.serverIdle]
  attended := fun busy => absurd fresh.serverIdle busy
  inbound := by simp [fresh.silent]
  outbound := by simp [fresh.silent]

/-! ## Steps of the clients -/

section Steps

variable
    {resolver : Resolver Token Token} {state : Exchange}

/-- The two datagrams of a request are added. -/
theorem Exchange.ask_flight
    {port : Nat} (own : (state.clients port).port = port)
    (name : Token) :
    (state.ask port name).flight =
      state.flight ++
        [⟨.client port, .server, cbit⟩,
          ⟨.client port, .server,
            overwrite (name.text ++ [0])
              (state.clients port).hostname⟩] := by
  simp [Exchange.ask, NsClient.nslookup, NsClient.sendto, own]

/-- The client that asks has its request on the way. -/
theorem Routing.stage_asked
    (inv : Routing resolver state) {port : Nat}
    (idle : state.waiting port = false) (name : Token) :
    Stage (state.ask port name) port := by
  have sent := Exchange.ask_flight (inv.ports port) name
  cases inv.stage port with
  | idle _ requests replies free =>
      apply Stage.asking name
        (overwrite (name.text ++ [0]) (state.clients port).hostname)
      · simp [Exchange.ask]
      · simp [Exchange.between, sent, requests, queue_cons,
          Datagram.channel]
      · simp [Exchange.between, sent, replies, queue_cons,
          Datagram.channel]
      · exact free
      · simp [Exchange.ask]
      · exact
          ⟨name.stored_length (inv.hostnames port),
            Foundation.Scan.cString_stored name.nulFree _⟩
  | asking _ _ waits | marked _ _ waits | passed _ waits
  | answered _ waits =>
      rw [idle] at waits
      cases waits

theorem Routing.ask
    (inv : Routing resolver state) {port : Nat}
    (idle : state.waiting port = false) (name : Token) :
    Routing resolver (state.ask port name) := by
  have own := inv.ports port
  have sent := Exchange.ask_flight own name
  have requested : ∀ datagram ∈ (state.ask port name).flight,
      datagram ∈ state.flight ∨
        datagram.source = .client port ∧ datagram.target = .server := by
    intro datagram member
    rw [sent, List.mem_append] at member
    rcases member with before | new
    · exact Or.inl before
    · simp only [List.mem_cons, List.not_mem_nil, or_false] at new
      rcases new with rfl | rfl <;> exact Or.inr ⟨rfl, rfl⟩
  refine
    { upstream := inv.upstream.ask port name
      cache := inv.cache
      zone := inv.zone
      truthful := inv.truthful
      ports := ?_
      hostnames := ?_
      stage := ?_
      attended := inv.attended
      inbound := ?_
      outbound := ?_ }
  · intro other
    by_cases same : other = port
    · subst same
      simpa [Exchange.ask, NsClient.nslookup] using own
    · simpa [Exchange.ask, same] using inv.ports other
  · intro other
    by_cases same : other = port
    · subst same
      simpa [Exchange.ask] using
        NsClient.request_size (inv.hostnames other) name
    · simpa [Exchange.ask, same] using inv.hostnames other
  · intro other
    by_cases same : other = port
    · subst same
      exact inv.stage_asked idle name
    · apply (inv.stage other).frame
      · simp [Exchange.ask, same]
      · simp [Exchange.ask, same]
      · simp [Exchange.between, sent, queue_cons, Datagram.channel,
          Ne.symm same]
      · simp [Exchange.between, sent, queue_cons, Datagram.channel]
      · exact Or.inl rfl
  · intro datagram member target
    rcases requested datagram member with before | ⟨source, _⟩
    · exact inv.inbound datagram before target
    · simp [source]
  · intro datagram member other target
    rcases requested datagram member with before | ⟨_, there⟩
    · exact inv.outbound datagram before other target
    · rw [there] at target
      cases target

theorem Routing.print
    (inv : Routing resolver state)
    {port : Nat} {datagram : Datagram} {rest : List Datagram}
    (arrives : Arrives Datagram.channel state.flight datagram rest)
    (target : datagram.target = .client port) :
    Routing resolver (state.print port datagram rest) := by
  have source := inv.outbound datagram arrives.mem port target
  have arrived := between_of_arrived arrives source target
  refine
    { upstream := inv.upstream.print arrives target
      cache := inv.cache
      zone := inv.zone
      truthful := inv.truthful
      ports := ?_
      hostnames := ?_
      stage := ?_
      attended := inv.attended
      inbound := fun other member =>
        inv.inbound other (arrives.mem_of_mem_rest member)
      outbound := fun other member =>
        inv.outbound other (arrives.mem_of_mem_rest member) }
  · intro other
    by_cases same : other = port
    · subst same
      simpa [Exchange.print, NsClient.receive] using inv.ports other
    · simpa [Exchange.print, same] using inv.ports other
  · intro other
    by_cases same : other = port
    · subst same
      simpa [Exchange.print, NsClient.receive] using
        inv.hostnames other
    · simpa [Exchange.print, same] using inv.hostnames other
  · intro other
    have requests := between_of_arrives arrives (.client other) .server
      (Or.inl (by simp [source]))
    by_cases same : other = port
    · subst same
      cases inv.stage other with
      | answered bytes _ gone replies free =>
          rw [replies, List.cons.injEq] at arrived
          exact .idle (by simp [Exchange.print])
            (requests.trans gone) arrived.2.symm free
      | idle _ _ replies | asking _ _ _ _ replies
      | marked _ _ _ _ replies | passed _ _ _ replies =>
          rw [replies] at arrived
          cases arrived
    · apply (inv.stage other).frame
      · simp [Exchange.print, same]
      · rfl
      · exact requests
      · exact between_of_arrives arrives .server (.client other)
          (Or.inr (by simp [target, Ne.symm same]))
      · exact Or.inl rfl

/-! ## Steps of the servers -/

/-- What the top-level server replies is true. -/
theorem Routing.reply_true
    (inv : Routing resolver state)
    {datagram : Datagram} {rest sent : List Datagram} {tld : TldServer}
    (arrives : Arrives Datagram.channel state.flight datagram rest)
    (target : datagram.target = .tld)
    (received : state.tld.receive datagram = some (tld, sent)) :
    tld.hdns = state.tld.hdns ∧
      ∀ reply ∈ sent, reply.source = .tld ∧ reply.target = .server ∧
        ∀ name : Token, cString tld.hostname = name.text →
          cString reply.bytes =
            answerText (find resolver.zone name) := by
  have source := inv.upstream.asks datagram arrives.mem target
  have arrived := between_of_arrived arrives source target
  cases inv.upstream.question with
  | none _ _ toTld | answered _ _ _ toTld =>
      rw [toTld] at arrived
      cases arrived
  | posed _ idle =>
      rw [TldServer.receive_marker idle] at received
      cases received
      simp
  | marked _ waits toTld =>
      rw [toTld, List.cons.injEq] at arrived
      rcases arrived with ⟨rfl, _⟩
      rcases TldServer.receive_name_cases inv.upstream.tld waits
        received with ⟨bytes, _, _, hdns, hostname, _, rfl⟩
      have size := inv.upstream.server.hostname
      rw [recvfrom_full size inv.upstream.tld.hostname] at hostname
      refine ⟨hdns, ?_⟩
      simp only [List.mem_singleton, forall_eq, true_and]
      intro name asked
      rw [hostname] at asked
      rcases TldServer.receive_name ⟨inv.upstream.tld, inv.zone⟩ waits
          (⟨size, asked⟩ : Datagram.Carries
            ⟨.server, .tld, state.server.hostname⟩ name.text) with
        ⟨_, _, call, _, _, _, text⟩
      rw [call] at received
      cases received
      exact text

theorem Routing.resolve
    (inv : Routing resolver state)
    {datagram : Datagram} {rest sent : List Datagram} {tld : TldServer}
    (arrives : Arrives Datagram.channel state.flight datagram rest)
    (target : datagram.target = .tld)
    (received : state.tld.receive datagram = some (tld, sent)) :
    Routing resolver (state.resolve tld rest sent) := by
  have source := inv.upstream.asks datagram arrives.mem target
  rcases inv.reply_true arrives target received with ⟨hdns, replies⟩
  have unsent : ∀ here there, here ≠ .tld →
      queue Datagram.channel (here, there) sent = [] := by
    intro here there other
    apply queue_eq_nil
    intro message member
    simp [(replies message member).1, Ne.symm other]
  refine
    { upstream := inv.upstream.resolve arrives target received
      cache := inv.cache
      zone := hdns ▸ inv.zone
      truthful := ?_
      ports := inv.ports
      hostnames := inv.hostnames
      stage := ?_
      attended := inv.attended
      inbound := ?_
      outbound := ?_ }
  · intro pair member name asked
    rcases List.mem_append.mp member with before | new
    · exact inv.truthful pair before name asked
    · rcases List.mem_map.mp new with ⟨message, sentHere, rfl⟩
      exact (replies message sentHere).2.2 name asked
  · intro port
    refine (inv.stage port).frame rfl rfl ?_ ?_ (Or.inl rfl)
    · rw [Exchange.between, Exchange.resolve, queue_append,
        unsent _ _ (by simp), List.append_nil]
      exact between_of_arrives arrives _ _ (Or.inl (by simp [source]))
    · rw [Exchange.between, Exchange.resolve, queue_append,
        unsent _ _ (by simp), List.append_nil]
      exact between_of_arrives arrives _ _ (Or.inr (by simp [target]))
  · intro other member there
    rcases List.mem_append.mp member with before | new
    · exact inv.inbound other (arrives.mem_of_mem_rest before) there
    · simp [(replies other new).1]
  · intro other member port there
    rcases List.mem_append.mp member with before | new
    · exact inv.outbound other (arrives.mem_of_mem_rest before) port there
    · rw [(replies other new).2.1] at there
      cases there

section Serve

variable
    {datagram : Datagram} {rest sent : List Datagram}
    {server : NameServer}

/-- The server adds nothing to what clients have sent. -/
theorem serve_requests
    (received : state.server.receive datagram = some (server, sent))
    (port : Nat) :
    (state.serve server rest sent).between (.client port) .server =
      queue Datagram.channel (.client port, .server) rest := by
  have unsent :
      queue Datagram.channel (.client port, .server) sent = [] := by
    apply queue_eq_nil
    intro reply member
    simp [NameServer.source_of_mem received member]
  rw [Exchange.between, Exchange.serve, queue_append, unsent,
    List.append_nil]

/-- What the server sends comes behind what it has sent before. -/
theorem serve_replies
    (arrives : Arrives Datagram.channel state.flight datagram rest)
    (target : datagram.target = .server) (port : Nat) :
    (state.serve server rest sent).between .server (.client port) =
      state.between .server (.client port) ++
        queue Datagram.channel (.server, .client port) sent := by
  rw [Exchange.between, Exchange.serve, queue_append]
  congr 1
  exact between_of_arrives arrives _ _ (Or.inr (by simp [target]))

/-- The parts of the invariant that no step of the server touches. -/
theorem Routing.serve
    (inv : Routing resolver state)
    (arrives : Arrives Datagram.channel state.flight datagram rest)
    (received : state.server.receive datagram = some (server, sent))
    (upstream : Upstream (state.serve server rest sent))
    (cache : ∃ names,
      Lists server.dns (resolver.run names).cache ∧
        (server.phase = .reply →
          ∀ name : Token, cString server.hostname = name.text →
            find (resolver.run names).cache name = none))
    (stage : ∀ port, Stage (state.serve server rest sent) port)
    (attended : server.phase ≠ .marker →
      ∃ port, server.clientadr = .client port)
    (elsewhere : ∀ reply ∈ sent, reply.target ≠ .server) :
    Routing resolver (state.serve server rest sent) where
  upstream := upstream
  cache := cache
  zone := inv.zone
  truthful := inv.truthful
  ports := inv.ports
  hostnames := inv.hostnames
  stage := stage
  attended := attended
  inbound := by
    intro other member there
    rcases List.mem_append.mp member with before | new
    · exact inv.inbound other (arrives.mem_of_mem_rest before) there
    · exact absurd there (elsewhere other new)
  outbound := by
    intro other member port there
    rcases List.mem_append.mp member with before | new
    · exact inv.outbound other (arrives.mem_of_mem_rest before) port there
    · exact NameServer.source_of_mem received new

/-- While no answer is expected, all that arrives comes from clients. -/
theorem Routing.exists_client
    (inv : Routing resolver state)
    (arrives : Arrives Datagram.channel state.flight datagram rest)
    (target : datagram.target = .server)
    (phase : state.server.phase ≠ .reply) :
    ∃ port, datagram.source = .client port := by
  cases source : datagram.source with
  | client port => exact ⟨port, rfl⟩
  | server =>
      exact absurd source (inv.inbound datagram arrives.mem target)
  | tld =>
      cases inv.upstream.question with
      | none _ _ _ fromTld =>
          exact absurd source
            (source_ne_of_silent arrives target fromTld)
      | posed busy | marked busy | answered _ busy =>
          exact absurd busy phase

/-- A step of the server for one client, seen from another. -/
theorem Stage.serve_other
    {port : Nat} (stage : Stage state port)
    (arrives : Arrives Datagram.channel state.flight datagram rest)
    (target : datagram.target = .server)
    (received : state.server.receive datagram = some (server, sent))
    (source : datagram.source ≠ .client port)
    (elsewhere : ∀ reply ∈ sent, reply.target ≠ .client port)
    (before : ¬ Attended state port)
    (after : ¬ Attended (state.serve server rest sent) port) :
    Stage (state.serve server rest sent) port := by
  refine stage.frame rfl rfl ?_ ?_ (Or.inr ⟨before, after⟩)
  · rw [serve_requests received]
    exact between_of_arrives arrives _ _ (Or.inl source)
  · rw [serve_replies arrives target,
      queue_eq_nil fun reply member => Or.inr (elsewhere reply member),
      List.append_nil]

theorem Routing.serve_marker
    (inv : Routing resolver state)
    (arrives : Arrives Datagram.channel state.flight datagram rest)
    (target : datagram.target = .server)
    (phase : state.server.phase = .marker)
    (received : state.server.receive datagram = some (server, sent)) :
    Routing resolver (state.serve server rest sent) ∧ sent = [] := by
  rcases inv.exists_client arrives target (by simp [phase]) with
    ⟨port, source⟩
  have arrived := between_of_arrived arrives source target
  have upstream :=
    (inv.upstream.serve_marker arrives target phase received).1
  have call := received
  rw [NameServer.receive_marker phase] at call
  cases call
  refine ⟨?_, rfl⟩
  rcases inv.cache with ⟨names, lists, _⟩
  refine inv.serve arrives received upstream
    ⟨names, lists, by simp⟩ ?_ (fun _ => ⟨port, source⟩) (by simp)
  intro other
  by_cases same : other = port
  · subst same
    cases inv.stage other with
    | asking name bytes waits requests replies _ known carries =>
        rw [requests, List.cons.injEq] at arrived
        apply Stage.marked name bytes
        · exact waits
        · rw [serve_requests received]
          exact arrived.2.symm
        · rw [serve_replies arrives target, replies]
          rfl
        · rfl
        · exact source
        · exact known
        · exact carries
    | idle _ requests | passed _ _ requests
    | answered _ _ requests =>
        rw [requests] at arrived
        cases arrived
    | marked _ _ _ _ _ busy =>
        rw [phase] at busy
        cases busy
  · apply (inv.stage other).serve_other arrives target received
    · simp [source, Ne.symm same]
    · simp
    · simp [Attended, phase]
    · simp [Attended, Exchange.serve, source, Ne.symm same]

/-- The server has received the name of a request behind its marker. -/
structure NameArrived (state : Exchange) (datagram : Datagram)
    (rest : List Datagram) (port : Nat) (name : Token) : Prop where
  phase : state.server.phase = .name
  client : state.server.clientadr = .client port
  source : datagram.source = .client port
  known : name ∈ state.asked port
  waits : state.waiting port = true
  replies : state.between .server (.client port) = []
  last : queue Datagram.channel (.client port, .server) rest = []
  carries : datagram.Carries name.text

theorem NameArrived.unattended
    {port : Nat} {name : Token}
    (named : NameArrived state datagram rest port name)
    {other : Nat} (apart : other ≠ port) : ¬ Attended state other := by
  rintro ⟨_, client⟩
  rw [named.client] at client
  cases client
  exact apart rfl

/-- Such a name is that of the client whose marker came last. -/
theorem Routing.name_arrived
    (inv : Routing resolver state)
    (arrives : Arrives Datagram.channel state.flight datagram rest)
    (target : datagram.target = .server)
    (phase : state.server.phase = .name)
    (source : datagram.source = state.server.clientadr) :
    ∃ port name, NameArrived state datagram rest port name := by
  rcases inv.attended (by simp [phase]) with ⟨port, client⟩
  have arrived :=
    between_of_arrived arrives (source.trans client) target
  cases inv.stage port with
  | marked name bytes waits requests replies _ _ known carries =>
      rw [requests, List.cons.injEq] at arrived
      rcases arrived with ⟨rfl, last⟩
      exact
        ⟨port, name, phase, client, rfl, known, waits, replies,
          last.symm, carries⟩
  | idle _ _ _ free | asking _ _ _ _ _ free | answered _ _ _ _ free =>
      exact absurd ⟨by simp [phase], client⟩ free
  | passed _ _ _ _ busy =>
      rw [phase] at busy
      cases busy

theorem Routing.serves
    (inv : Routing resolver state) {names : List Token}
    (lists : Lists state.server.dns (resolver.run names).cache) :
    state.server.Serves (resolver.run names).cache :=
  ⟨inv.upstream.server, lists, inv.upstream.upstream⟩

/-- A cached name is answered to its client. -/
theorem Routing.serve_hit
    (inv : Routing resolver state)
    (arrives : Arrives Datagram.channel state.flight datagram rest)
    (target : datagram.target = .server)
    {port : Nat} {name ip : Token}
    (named : NameArrived state datagram rest port name)
    {names : List Token}
    (lists : Lists state.server.dns (resolver.run names).cache)
    (cached : find (resolver.run names).cache name = some ip)
    (received : state.server.receive datagram = some (server, sent)) :
    Routing resolver (state.serve server rest sent) ∧
      ∃ bytes, sent = [⟨.server, .client port, bytes⟩] ∧
        cString bytes = answerText (resolver.answer name) := by
  have upstream :=
    (inv.upstream.serve_name arrives target named.phase received).1
  rcases NameServer.receive_hit (inv.serves lists) named.phase
      named.carries cached with ⟨next, bytes, call, later, idle, _, text⟩
  rw [named.source] at call
  have outcome := received
  rw [call] at outcome
  cases outcome
  constructor
  · refine inv.serve arrives received upstream
      ⟨names, later.lists, by simp [idle]⟩ ?_
      (fun busy => absurd idle busy) (by simp)
    intro other
    by_cases same : other = port
    · subst same
      apply Stage.answered bytes
      · exact named.waits
      · rw [serve_requests received]
        exact named.last
      · rw [serve_replies arrives target, named.replies]
        simp [queue_cons, Datagram.channel]
      · simp [Attended, Exchange.serve, idle]
    · apply (inv.stage other).serve_other arrives target received
      · simp [named.source, Ne.symm same]
      · simp [Ne.symm same]
      · exact named.unattended same
      · simp [Attended, Exchange.serve, idle]
  · have answer : (resolver.run names).answer name = some ip := by
      simp [Resolver.answer, cached]
    refine ⟨bytes, rfl, ?_⟩
    rw [text, ← resolver.run_answer names, answer]
    rfl

/-- A name that is not cached is passed on. -/
theorem Routing.serve_miss
    (inv : Routing resolver state)
    (arrives : Arrives Datagram.channel state.flight datagram rest)
    (target : datagram.target = .server)
    {port : Nat} {name : Token}
    (named : NameArrived state datagram rest port name)
    {names : List Token}
    (lists : Lists state.server.dns (resolver.run names).cache)
    (missed : find (resolver.run names).cache name = none)
    (received : state.server.receive datagram = some (server, sent)) :
    Routing resolver (state.serve server rest sent) ∧
      ∀ message ∈ sent, message.target = .tld := by
  have upstream :=
    (inv.upstream.serve_name arrives target named.phase received).1
  rcases NameServer.receive_miss (inv.serves lists) named.phase
      named.carries missed with
    ⟨next, call, later, waiting, hostname, asker⟩
  have outcome := received
  rw [call] at outcome
  cases outcome
  rw [named.source] at asker
  constructor
  · refine inv.serve arrives received upstream ⟨names, later.lists, ?_⟩
      ?_ (fun _ => ⟨port, asker⟩) (by simp)
    · intro _ other text
      rw [Token.ext_text (text.symm.trans hostname)]
      exact missed
    · intro other
      by_cases same : other = port
      · subst same
        apply Stage.passed name
        · exact named.waits
        · rw [serve_requests received]
          exact named.last
        · rw [serve_replies arrives target, named.replies]
          simp [queue_cons, Datagram.channel]
        · exact waiting
        · exact asker
        · exact named.known
        · exact hostname
      · apply (inv.stage other).serve_other arrives target received
        · simp [named.source, Ne.symm same]
        · simp
        · exact named.unattended same
        · simp [Attended, Exchange.serve, asker, Ne.symm same]
  · simp

theorem Routing.serve_name
    (inv : Routing resolver state)
    (arrives : Arrives Datagram.channel state.flight datagram rest)
    (target : datagram.target = .server)
    (phase : state.server.phase = .name)
    (source : datagram.source = state.server.clientadr)
    (received : state.server.receive datagram = some (server, sent)) :
    Routing resolver (state.serve server rest sent) ∧
      ∀ reply ∈ sent, ∀ port, reply.target = .client port →
        ∃ name ∈ state.asked port,
          cString reply.bytes = answerText (resolver.answer name) := by
  rcases inv.name_arrived arrives target phase source with
    ⟨port, name, named⟩
  rcases inv.cache with ⟨names, lists, _⟩
  cases cached : find (resolver.run names).cache name with
  | some ip =>
      rcases inv.serve_hit arrives target named lists cached received
        with ⟨kept, bytes, rfl, text⟩
      refine ⟨kept, ?_⟩
      simp only [List.mem_singleton, forall_eq, Address.client.injEq]
      rintro other rfl
      exact ⟨name, named.known, text⟩
  | none =>
      rcases inv.serve_miss arrives target named lists cached received
        with ⟨kept, upward⟩
      refine ⟨kept, ?_⟩
      intro message member other client
      rw [upward message member] at client
      cases client

/-- The answer of the top-level server reaches the client it is for. -/
theorem Routing.serve_reply
    (inv : Routing resolver state)
    (arrives : Arrives Datagram.channel state.flight datagram rest)
    (target : datagram.target = .server)
    (phase : state.server.phase = .reply)
    (source : datagram.source = .tld)
    (received : state.server.receive datagram = some (server, sent)) :
    Routing resolver (state.serve server rest sent) ∧
      ∀ reply ∈ sent, ∀ port, reply.target = .client port →
        ∃ name ∈ state.asked port,
          cString reply.bytes = answerText (resolver.answer name) := by
  rcases inv.upstream.serve_reply arrives target phase source received
    with ⟨upstream, genuine⟩
  rcases inv.attended (by simp [phase]) with ⟨port, client⟩
  rcases inv.cache with ⟨names, lists, unlisted⟩
  have free : ∀ other, other ≠ port → ¬ Attended state other := by
    rintro other apart ⟨_, asker⟩
    rw [client] at asker
    cases asker
    exact apart rfl
  cases inv.stage port with
  | passed name waits requests replies _ _ known hostname =>
      have missed := unlisted phase name hostname
      have text : cString (recvfrom 30 datagram.bytes state.server.ip) =
          answerText (find resolver.zone name) := by
        rcases NameServer.receive_reply_cases phase received with
          ⟨rfl, _⟩
        exact inv.truthful _ genuine name hostname
      rcases NameServer.receive_answer lists phase hostname text received
        with ⟨idle, recorded, bytes, shape, answer⟩
      rw [client] at shape
      subst shape
      have grown : (resolver.run (names ++ [name])).cache =
          (resolver.run names).cache ++
            (find resolver.zone name).toList.map fun ip =>
              (name, ip) := by
        have learned := (resolver.run names).learned_of_miss missed
        rw [resolver.run_zone] at learned
        rw [resolver.run_append, ← learned]
        rfl
      constructor
      · refine inv.serve arrives received upstream
          ⟨names ++ [name], grown ▸ recorded, by simp [idle]⟩ ?_
          (fun busy => absurd idle busy) (by simp)
        intro other
        by_cases same : other = port
        · subst same
          apply Stage.answered bytes
          · exact waits
          · rw [serve_requests received,
              between_of_arrives arrives _ _ (Or.inl (by simp [source]))]
            exact requests
          · rw [serve_replies arrives target, replies]
            simp [queue_cons, Datagram.channel]
          · simp [Attended, Exchange.serve, idle]
        · apply (inv.stage other).serve_other arrives target received
          · simp [source]
          · simp [Ne.symm same]
          · exact free other same
          · simp [Attended, Exchange.serve, idle]
      · simp only [List.mem_singleton, forall_eq,
          Address.client.injEq]
        rintro other rfl
        refine ⟨name, known, ?_⟩
        have fetched := (resolver.run names).answer_of_miss missed
        rw [resolver.run_answer, resolver.run_zone] at fetched
        rw [answer, fetched]
  | idle _ _ _ unattended | asking _ _ _ _ _ unattended
  | answered _ _ _ _ unattended =>
      exact absurd ⟨by simp [phase], client⟩ unattended
  | marked _ _ _ _ _ busy =>
      rw [phase] at busy
      cases busy

end Serve

end Steps

/-- Step lemma: a step in turn sends true replies and keeps the invariant. -/
theorem Routing.step
    {resolver : Resolver Token Token} {current next : Exchange}
    {label : ExchangeEvent} (inv : Routing resolver current)
    (step : ExchangeStep current label next)
    (inTurn : InTurn ⟨current, label, next⟩) :
    Answered resolver ⟨current, label, next⟩ ∧ Routing resolver next := by
  cases step with
  | ask idle =>
      exact ⟨by simp [Answered, ExchangeEvent.sentByServer],
        inv.ask idle _⟩
  | print arrives target =>
      exact ⟨by simp [Answered, ExchangeEvent.sentByServer],
        inv.print arrives target⟩
  | resolve arrives target _ received =>
      exact ⟨by simp [Answered, ExchangeEvent.sentByServer],
        inv.resolve arrives target received⟩
  | serve arrives target _ received =>
      cases phase : current.server.phase with
      | marker =>
          rcases inv.serve_marker arrives target phase received with
            ⟨kept, rfl⟩
          exact ⟨by simp [Answered, ExchangeEvent.sentByServer], kept⟩
      | name =>
          simp only [InTurn, phase] at inTurn
          exact
            (inv.serve_name arrives target phase inTurn received).symm
      | reply =>
          have source := inTurn.fromTld phase
          exact
            (inv.serve_reply arrives target phase source received).symm

/--
In every interleaving of requests whose datagrams come in turn, each reply to a
client is the resolver's answer to a name this client has asked for.
-/
theorem replies_reach_askers
    (cache zone : List (Token × Token))
    (start : Exchange) (fresh : start.Fresh)
    (dns : Lists start.server.dns cache)
    (hdns : Lists start.tld.hdns zone)
    (records : List (Record Exchange ExchangeEvent)) (final : Exchange)
    (run : Run ExchangeStep start records final)
    (inTurn : ∀ record ∈ records, InTurn record) :
    ∀ record ∈ records, Answered ⟨cache, zone⟩ record := by
  have initial : Routing ⟨cache, zone⟩ start :=
    fresh.routing_holds dns hdns
  exact
    (run.forall_good initial
      (fun _ _ _ inv step => inv.step step) inTurn).1

instance (record : Record Exchange ExchangeEvent) :
    Decidable (InTurn record) :=
  match record with
  | ⟨⟨_, _, _, ⟨.marker, _, _, _, _, _, _, _⟩, _, _, _⟩, .serve _ _, _⟩ =>
      inferInstanceAs (Decidable True)
  | ⟨⟨_, _, _, ⟨.name, _, _, _, _, _, _, _⟩, _, _, _⟩, .serve _ _, _⟩ =>
      inferInstanceAs (Decidable (_ = _))
  | ⟨⟨_, _, _, ⟨.reply, _, _, _, _, _, _, _⟩, _, _, _⟩, .serve _ _, _⟩ =>
      inferInstanceAs (Decidable (_ = _))
  | ⟨_, .ask _ _, _⟩ => inferInstanceAs (Decidable True)
  | ⟨_, .resolve _ _, _⟩ => inferInstanceAs (Decidable True)
  | ⟨_, .print _ _, _⟩ => inferInstanceAs (Decidable True)

/-- Two clients have asked; the request of the second is served first. -/
def inTurnLookups : List ExchangeInput :=
  [.ask 1 letterB, .ask 2 letterA,
    .deliver (.client 2) .server, .deliver (.client 2) .server,
    .deliver (.client 1) .server, .deliver (.client 1) .server,
    .deliver .server .tld, .deliver .server (.client 2),
    .deliver .server .tld, .deliver .tld .server,
    .deliver .server (.client 1)]

/-- With "a 1" in `DNS` and "b 2" in `HDNS`. -/
theorem replies_reach_two_askers :
    ∃ records final,
      exchanged [97, 32, 49] [98, 32, 50] inTurnLookups =
          some (records, final) ∧
        (final.clients 1).printed = [[50]] ∧
        (final.clients 2).printed = [[49]] ∧
        ∀ record ∈ records,
          Answered
            ⟨[(letter 97 (by decide), letter 49 (by decide))],
              [(letter 98 (by decide), letter 50 (by decide))]⟩
            record := by
  rcases Option.isSome_iff_exists.mp
      (show (exchanged [97, 32, 49] [98, 32, 50]
        inTurnLookups).isSome = true by decide) with
    ⟨⟨records, final⟩, computed⟩
  have checked :
      (exchanged [97, 32, 49] [98, 32, 50] inTurnLookups).map
        (fun result =>
          ((result.2.clients 1).printed, (result.2.clients 2).printed,
            result.1.all fun record => decide (InTurn record))) =
        some ([[50]], [[49]], true) := by
    decide
  simp only [computed, Option.map_some, Option.some.injEq,
    Prod.mk.injEq, List.all_eq_true, decide_eq_true_eq] at checked
  rcases checked with ⟨first, second, inTurn⟩
  exact
    ⟨records, final, computed, first, second,
      replies_reach_askers _ _ (zeroExchange [97, 32, 49] [98, 32, 50])
        (zeroExchange_fresh _ _) (by decide) (by decide) records final
        (execute_run Exchange.perform_sound computed) inTurn⟩

/--
The markers of clients 1 and 2 arrive one behind the other.  The second is
looked up as the name "1", and client 2 is told that c is unknown although
"c 3" is in `HDNS`.
-/
theorem marker_answered_as_name :
    ¬ ∀ (cache zone : List (Token × Token)) (start : Exchange),
      start.Fresh → Lists start.server.dns cache →
      Lists start.tld.hdns zone →
        ∀ (records : List (Record Exchange ExchangeEvent))
          (final : Exchange),
          Run ExchangeStep start records final →
            ∀ record ∈ records, Answered ⟨cache, zone⟩ record := by
  intro claim
  let inputs : List ExchangeInput :=
    [.ask 1 (letter 98 (by decide)), .ask 2 (letter 99 (by decide)),
      .deliver (.client 1) .server, .deliver (.client 2) .server,
      .deliver .server .tld, .deliver .server .tld,
      .deliver .tld .server]
  rcases Option.isSome_iff_exists.mp
      (show (exchanged [] [99, 32, 51] inputs).isSome = true
        by decide) with
    ⟨⟨records, final⟩, computed⟩
  have misled :
      (exchanged [] [99, 32, 51] inputs).map
        (fun result =>
          result.1.any fun record =>
            record.label.sentByServer.any fun reply =>
              decide
                (reply.target = .client 2 ∧
                  cString reply.bytes = notFound ∧
                  record.before.asked 2 =
                    [letter 99 (by decide)])) =
        some true := by
    decide
  simp only [computed, Option.map_some, Option.some.injEq,
    List.any_eq_true, decide_eq_true_eq] at misled
  rcases misled with
    ⟨record, recorded, reply, sent, target, text, asked⟩
  rcases claim [] [(letter 99 (by decide), letter 51 (by decide))]
      (zeroExchange [] [99, 32, 51]) (zeroExchange_fresh _ _)
      (by decide) (by decide) records final
      (execute_run Exchange.perform_sound computed) record recorded
      reply sent 2 target with
    ⟨name, known, answer⟩
  rw [asked, List.mem_singleton] at known
  subst known
  rw [text] at answer
  exact absurd answer (by decide)

end NetworkingLab.NameService
