import NetworkingLab.NameService.Clients

/-!
# Where recorded pairs come from

The caching server waits for the top-level server's answer on the socket that
its clients write to.  It appends whatever comes next to `DNS`, with the name
it was asked last.

As long as the answer is what comes next, the question to the top-level server
is the only one and the pair that is appended is one it has replied.
-/

namespace NetworkingLab.NameService

open NetworkingLab.Foundation.CString
open NetworkingLab.Foundation.Channels
open NetworkingLab.Foundation.Runs

/--
The step appends nothing to `DNS`, or the text of a pair that the top-level
server has replied.
-/
def Genuine (record : Record Exchange ExchangeEvent) : Prop :=
  record.after.server.dns = record.before.server.dns ∨
    record.after.server.dns =
        record.before.server.dns ++
          recordText record.after.server.hostname
            record.after.server.ip ∧
      (cString record.after.server.hostname,
          cString record.after.server.ip) ∈
        record.after.replied

/-- What ends the wait for an answer comes from the top-level server. -/
def FromTld (record : Record Exchange ExchangeEvent) : Prop :=
  match record.label with
  | .serve datagram _ =>
      record.before.server.phase = .reply → datagram.source = .tld
  | _ => True

/-- How far the question to the top-level server has come. -/
inductive Question (state : Exchange) : Prop where
  | none
      (phase : state.server.phase ≠ .reply)
      (idle : state.tld.phase = .marker)
      (toTld : state.between .server .tld = [])
      (fromTld : state.between .tld .server = [])
  | posed
      (phase : state.server.phase = .reply)
      (idle : state.tld.phase = .marker)
      (toTld : state.between .server .tld =
        [⟨.server, .tld, cbit⟩,
          ⟨.server, .tld, state.server.hostname⟩])
      (fromTld : state.between .tld .server = [])
  | marked
      (phase : state.server.phase = .reply)
      (waits : state.tld.phase = .name)
      (toTld : state.between .server .tld =
        [⟨.server, .tld, state.server.hostname⟩])
      (fromTld : state.between .tld .server = [])
  | answered (bytes : List Byte)
      (phase : state.server.phase = .reply)
      (idle : state.tld.phase = .marker)
      (toTld : state.between .server .tld = [])
      (fromTld : state.between .tld .server = [⟨.tld, .server, bytes⟩])
      (size : bytes.length = 30)
      (genuine : (cString state.server.hostname, cString bytes) ∈
        state.replied)

/-- The invariant: at most one question, and the server knows whom it asks. -/
structure Upstream (state : Exchange) : Prop where
  server : state.server.Sized
  tld : state.tld.Sized
  upstream : state.server.tldadr = .tld
  client : state.server.phase ≠ .marker →
    state.server.clientadr ≠ .tld
  asks : ∀ datagram ∈ state.flight,
    datagram.target = .tld → datagram.source = .server
  question : Question state

theorem Exchange.Fresh.upstream_holds
    {state : Exchange} (fresh : state.Fresh) : Upstream state where
  server := fresh.server
  tld := fresh.tld
  upstream := fresh.upstream
  client := fun busy => absurd fresh.serverIdle busy
  asks := by simp [fresh.silent]
  question := by
    apply Question.none
    · simp [fresh.serverIdle]
    · exact fresh.tldIdle
    · simp [Exchange.between, fresh.silent]
    · simp [Exchange.between, fresh.silent]

/-! ## Steps of the clients -/

/-- A question is no matter of the clients. -/
theorem Question.frame
    {state next : Exchange} (question : Question state)
    (server : next.server = state.server) (tld : next.tld = state.tld)
    (toTld : next.between .server .tld = state.between .server .tld)
    (fromTld : next.between .tld .server =
      state.between .tld .server)
    (replied : next.replied = state.replied) : Question next := by
  cases question with
  | none phase idle out back =>
      rw [← server] at phase
      rw [← tld] at idle
      exact .none phase idle (toTld.trans out) (fromTld.trans back)
  | posed phase idle out back =>
      rw [← server] at phase out
      rw [← tld] at idle
      exact .posed phase idle (toTld.trans out) (fromTld.trans back)
  | marked phase waits out back =>
      rw [← server] at phase out
      rw [← tld] at waits
      exact .marked phase waits (toTld.trans out) (fromTld.trans back)
  | answered bytes phase idle out back size genuine =>
      rw [← server, ← replied] at genuine
      rw [← server] at phase
      rw [← tld] at idle
      exact .answered bytes phase idle (toTld.trans out)
        (fromTld.trans back) size genuine

theorem Upstream.ask
    {state : Exchange} (inv : Upstream state)
    (port : Nat) (name : Token) : Upstream (state.ask port name) := by
  have untouched : ∀ source target,
      (∀ number, source ≠ .client number) →
        (state.ask port name).between source target =
          state.between source target := by
    intro source target other
    simp [Exchange.between, Exchange.ask, NsClient.nslookup,
      NsClient.sendto, queue_cons, Datagram.channel,
      (other _).symm]
  refine
    { server := inv.server
      tld := inv.tld
      upstream := inv.upstream
      client := inv.client
      asks := ?_
      question := inv.question.frame rfl rfl
        (untouched _ _ (by simp)) (untouched _ _ (by simp)) rfl }
  intro datagram member target
  rcases List.mem_append.mp member with before | new
  · exact inv.asks datagram before target
  · simp only [NsClient.nslookup, NsClient.sendto, List.mem_cons,
      List.not_mem_nil, or_false] at new
    rcases new with rfl | rfl <;> cases target

theorem Upstream.print
    {state : Exchange} (inv : Upstream state)
    {port : Nat} {datagram : Datagram} {rest : List Datagram}
    (arrives : Arrives Datagram.channel state.flight datagram rest)
    (target : datagram.target = .client port) :
    Upstream (state.print port datagram rest) := by
  have untouched : ∀ source other, other ≠ .client port →
      (state.print port datagram rest).between source other =
        state.between source other := by
    intro source other apart
    refine (arrives.queue_of_ne ?_).symm
    intro same
    exact apart ((congrArg Prod.snd same).symm.trans target)
  exact
    { server := inv.server
      tld := inv.tld
      upstream := inv.upstream
      client := inv.client
      asks := fun other member =>
        inv.asks other (arrives.mem_of_mem_rest member)
      question := inv.question.frame rfl rfl
        (untouched _ _ (by simp)) (untouched _ _ (by simp)) rfl }

/-! ## Steps of the servers -/

section Serve

variable
    {state : Exchange} {datagram : Datagram} {rest sent : List Datagram}
    {server : NameServer}

theorem between_of_arrives
    (arrives : Arrives Datagram.channel state.flight datagram rest)
    (source target : Address)
    (other : datagram.source ≠ source ∨ datagram.target ≠ target) :
    queue Datagram.channel (source, target) rest =
      state.between source target := by
  refine (arrives.queue_of_ne ?_).symm
  rintro same
  rcases other with apart | apart
  · exact apart (congrArg Prod.fst same)
  · exact apart (congrArg Prod.snd same)

theorem between_of_arrived
    (arrives : Arrives Datagram.channel state.flight datagram rest)
    {source target : Address}
    (here : datagram.source = source) (there : datagram.target = target) :
    state.between source target =
      datagram :: queue Datagram.channel (source, target) rest := by
  subst here there
  exact arrives.queue_self

/-- Nothing comes from a socket whose channel is empty. -/
theorem source_ne_of_silent
    (arrives : Arrives Datagram.channel state.flight datagram rest)
    {source target : Address}
    (there : datagram.target = target)
    (silent : state.between source target = []) :
    datagram.source ≠ source := by
  intro here
  rw [between_of_arrived arrives here there] at silent
  cases silent

theorem NameServer.source_of_mem
    {server next : NameServer}
    (received : server.receive datagram = some (next, sent))
    {reply : Datagram} (member : reply ∈ sent) :
    reply.source = .server := by
  cases phase : server.phase with
  | marker =>
      rw [NameServer.receive_marker phase] at received
      cases received
      cases member
  | name =>
      rcases NameServer.receive_name_cases phase received with
        ⟨result, _, _, rfl⟩
      split_ifs at member
      · rw [List.mem_singleton.mp member]
      · simp only [List.mem_cons, List.not_mem_nil, or_false] at member
        rcases member with rfl | rfl <;> rfl
  | reply =>
      rcases NameServer.receive_reply_cases phase received with ⟨_, rfl⟩
      rw [List.mem_singleton.mp member]

/-- The top-level server is still asked by the caching server alone. -/
theorem asks_after_serve
    (asks : ∀ datagram ∈ state.flight,
      datagram.target = .tld → datagram.source = .server)
    (arrives : Arrives Datagram.channel state.flight datagram rest)
    (received : state.server.receive datagram = some (server, sent)) :
    ∀ other ∈ (state.serve server rest sent).flight,
      other.target = .tld → other.source = .server := by
  intro other member target
  rcases List.mem_append.mp member with before | new
  · exact asks other (arrives.mem_of_mem_rest before) target
  · exact NameServer.source_of_mem received new

/-- A step of the server that sends nothing to the top-level server. -/
theorem Question.after_serve
    (arrives : Arrives Datagram.channel state.flight datagram rest)
    (target : datagram.target = .server)
    (idle : state.tld.phase = .marker)
    (toTld : state.between .server .tld = [])
    (fromTld : queue Datagram.channel (.tld, .server) rest = [])
    (phase : server.phase ≠ .reply)
    (elsewhere : ∀ reply ∈ sent,
      reply.source = .server ∧ reply.target ≠ .tld) :
    Question (state.serve server rest sent) := by
  have out := between_of_arrives arrives .server .tld
    (Or.inr (by simp [target]))
  have unasked : queue Datagram.channel (.server, .tld) sent = [] :=
    queue_eq_nil fun reply member => Or.inr (elsewhere reply member).2
  have unsent : queue Datagram.channel (.tld, .server) sent = [] := by
    apply queue_eq_nil
    intro reply member
    simp [(elsewhere reply member).1]
  refine .none phase idle ?_ ?_
  · rw [Exchange.between, Exchange.serve, queue_append, out, toTld,
      unasked]
    rfl
  · rw [Exchange.between, Exchange.serve, queue_append, fromTld, unsent]
    rfl

/-- A datagram of a client is taken for a marker. -/
theorem Upstream.serve_marker
    (inv : Upstream state)
    (arrives : Arrives Datagram.channel state.flight datagram rest)
    (target : datagram.target = .server)
    (phase : state.server.phase = .marker)
    (received : state.server.receive datagram = some (server, sent)) :
    Upstream (state.serve server rest sent) ∧
      server.dns = state.server.dns := by
  rw [NameServer.receive_marker phase] at received
  cases received
  cases inv.question with
  | none _ idle toTld fromTld =>
      have source : datagram.source ≠ .tld :=
        source_ne_of_silent arrives target fromTld
      have back := between_of_arrives arrives .tld .server
        (Or.inl source)
      rw [fromTld] at back
      refine ⟨?_, rfl⟩
      exact
        { server := ⟨inv.server.hostname, inv.server.hostbuf,
            inv.server.ipbuf, inv.server.ip⟩
          tld := inv.tld
          upstream := inv.upstream
          client := fun _ => source
          asks := asks_after_serve inv.asks arrives
            (NameServer.receive_marker phase)
          question := .after_serve arrives target idle toTld back
            (by simp) (by simp) }
  | posed busy | marked busy | answered _ busy =>
      rw [phase] at busy
      cases busy

/-- A datagram of a client is taken for a name. -/
theorem Upstream.serve_name
    (inv : Upstream state)
    (arrives : Arrives Datagram.channel state.flight datagram rest)
    (target : datagram.target = .server)
    (phase : state.server.phase = .name)
    (received : state.server.receive datagram = some (server, sent)) :
    Upstream (state.serve server rest sent) ∧
      server.dns = state.server.dns := by
  rcases NameServer.receive_name_cases phase received with
    ⟨result, searched, rfl, rfl⟩
  rcases search_length searched with ⟨hostbuf, ipbuf⟩
  rw [inv.server.hostbuf] at hostbuf
  rw [inv.server.ipbuf] at ipbuf
  cases inv.question with
  | none _ idle toTld fromTld =>
      have source : datagram.source ≠ .tld :=
        source_ne_of_silent arrives target fromTld
      have back := between_of_arrives arrives .tld .server
        (Or.inl source)
      have out := between_of_arrives arrives .server .tld
        (Or.inr (by simp [target]))
      rw [fromTld] at back
      rw [toTld] at out
      refine ⟨?_, rfl⟩
      refine
        { server := ⟨recvfrom_length inv.server.hostname, hostbuf,
            ipbuf, inv.server.ip⟩
          tld := inv.tld
          upstream := inv.upstream
          client := fun _ => source
          asks := asks_after_serve inv.asks arrives received
          question := ?_ }
      cases found : result.found with
      | true =>
          exact .after_serve arrives target idle toTld back
            (by simp) (by simp [source])
      | false =>
          refine .posed (by simp [Exchange.serve]) idle ?_ ?_
          · simp [Exchange.between, Exchange.serve, out, queue_cons,
              Datagram.channel, inv.upstream]
          · simp [Exchange.between, Exchange.serve, back, queue_cons,
              Datagram.channel]
  | posed busy | marked busy | answered _ busy =>
      rw [phase] at busy
      cases busy

/-- The answer of the top-level server is recorded and passed on. -/
theorem Upstream.serve_reply
    (inv : Upstream state)
    (arrives : Arrives Datagram.channel state.flight datagram rest)
    (target : datagram.target = .server)
    (phase : state.server.phase = .reply)
    (source : datagram.source = .tld)
    (received : state.server.receive datagram = some (server, sent)) :
    Upstream (state.serve server rest sent) ∧
      (cString server.hostname, cString server.ip) ∈ state.replied := by
  rcases NameServer.receive_reply_cases phase received with ⟨rfl, rfl⟩
  have client := inv.client (by simp [phase])
  have arrived := between_of_arrived arrives source target
  cases inv.question with
  | none idle => exact absurd phase idle
  | posed _ _ _ fromTld | marked _ _ _ fromTld =>
      rw [fromTld] at arrived
      cases arrived
  | answered bytes _ idle toTld fromTld size genuine =>
      rw [fromTld, List.cons.injEq] at arrived
      rcases arrived with ⟨rfl, silent⟩
      have filled := recvfrom_full size inv.server.ip
      constructor
      · exact
          { server := ⟨inv.server.hostname, inv.server.hostbuf,
              inv.server.ipbuf, recvfrom_length inv.server.ip⟩
            tld := inv.tld
            upstream := rfl
            client := fun busy => absurd rfl busy
            asks := asks_after_serve inv.asks arrives received
            question := .after_serve arrives target idle toTld
              silent.symm (by simp) (by simp [client]) }
      · simp only [filled]
        exact genuine

end Serve

/-- The top-level server takes a step on the question. -/
theorem Upstream.resolve
    {state : Exchange} {datagram : Datagram} {rest sent : List Datagram}
    {tld : TldServer} (inv : Upstream state)
    (arrives : Arrives Datagram.channel state.flight datagram rest)
    (target : datagram.target = .tld)
    (received : state.tld.receive datagram = some (tld, sent)) :
    Upstream (state.resolve tld rest sent) := by
  have source := inv.asks datagram arrives.mem target
  have arrived := between_of_arrived arrives source target
  have back := between_of_arrives arrives .tld .server
    (Or.inl (by simp [source]))
  have asks : ∀ other ∈ rest,
      other.target = .tld → other.source = .server :=
    fun other member => inv.asks other (arrives.mem_of_mem_rest member)
  cases inv.question with
  | none _ _ toTld =>
      rw [toTld] at arrived
      cases arrived
  | answered _ _ _ toTld =>
      rw [toTld] at arrived
      cases arrived
  | posed phase idle toTld fromTld =>
      rw [toTld, List.cons.injEq] at arrived
      rw [fromTld] at back
      rcases arrived with ⟨rfl, out⟩
      rw [TldServer.receive_marker idle] at received
      cases received
      exact
        { server := inv.server
          tld := ⟨inv.tld.hostname, inv.tld.hostbuf, inv.tld.ipbuf⟩
          upstream := inv.upstream
          client := inv.client
          asks := by simpa [Exchange.resolve] using asks
          question := .marked phase rfl
            (by simpa [Exchange.between, Exchange.resolve]
              using out.symm)
            (by simpa [Exchange.between, Exchange.resolve] using back) }
  | marked phase waits toTld fromTld =>
      rw [toTld, List.cons.injEq] at arrived
      rw [fromTld] at back
      rcases arrived with ⟨rfl, out⟩
      rcases TldServer.receive_name_cases inv.tld waits received with
        ⟨bytes, sized, idle, _, hostname, size, rfl⟩
      have filled :=
        recvfrom_full inv.server.hostname inv.tld.hostname
      rw [filled] at hostname
      refine
        { server := inv.server
          tld := sized
          upstream := inv.upstream
          client := inv.client
          asks := ?_
          question := .answered bytes phase idle ?_ ?_ size ?_ }
      · intro other member there
        rcases List.mem_append.mp member with before | new
        · exact asks other before there
        · rw [List.mem_singleton.mp new] at there
          cases there
      · simp [Exchange.between, Exchange.resolve, ← out, queue_cons,
          Datagram.channel]
      · simp [Exchange.between, Exchange.resolve, back, queue_cons,
          Datagram.channel]
      · simp [Exchange.resolve, hostname]

/-- Step lemma: a step that ends no wait early appends nothing false. -/
theorem Upstream.step
    {current next : Exchange} {label : ExchangeEvent}
    (inv : Upstream current) (step : ExchangeStep current label next)
    (guarded : FromTld ⟨current, label, next⟩) :
    Genuine ⟨current, label, next⟩ ∧ Upstream next := by
  cases step with
  | ask => exact ⟨Or.inl rfl, inv.ask _ _⟩
  | print arrives target =>
      exact ⟨Or.inl rfl, inv.print arrives target⟩
  | resolve arrives target _ received =>
      exact ⟨Or.inl rfl, inv.resolve arrives target received⟩
  | serve arrives target _ received =>
      cases phase : current.server.phase with
      | marker =>
          rcases inv.serve_marker arrives target phase received with
            ⟨kept, same⟩
          exact ⟨Or.inl same, kept⟩
      | name =>
          rcases inv.serve_name arrives target phase received with
            ⟨kept, same⟩
          exact ⟨Or.inl same, kept⟩
      | reply =>
          have source := guarded phase
          rcases inv.serve_reply arrives target phase source received
            with ⟨kept, genuine⟩
          refine ⟨?_, kept⟩
          rcases NameServer.receive_reply_dns phase received with
            same | grown
          · exact Or.inl same
          · exact Or.inr ⟨grown, genuine⟩

/--
In every interleaving in which each wait for an answer is ended by the
top-level server, all pairs that are appended to `DNS` are its replies.
-/
theorem recorded_pairs_genuine
    (start : Exchange) (fresh : start.Fresh)
    (records : List (Record Exchange ExchangeEvent)) (final : Exchange)
    (run : Run ExchangeStep start records final)
    (answered : ∀ record ∈ records, FromTld record) :
    ∀ record ∈ records, Genuine record := by
  have initial : Upstream start := fresh.upstream_holds
  exact
    (run.forall_good initial
      (fun _ _ _ inv step => inv.step step) answered).1

instance (record : Record Exchange ExchangeEvent) :
    Decidable (FromTld record) :=
  match record with
  | ⟨_, .serve _ _, _⟩ => inferInstanceAs (Decidable (_ → _))
  | ⟨_, .ask _ _, _⟩ => inferInstanceAs (Decidable True)
  | ⟨_, .resolve _ _, _⟩ => inferInstanceAs (Decidable True)
  | ⟨_, .print _ _, _⟩ => inferInstanceAs (Decidable True)

/-- "b 2" in `HDNS`: one lookup of b, while another client has asked for a. -/
def undisturbedLookup : List ExchangeInput :=
  fullLookup 1 letterB ++
    [.ask 2 letterA, .deliver (.client 2) .server]

theorem recorded_pairs_genuine_undisturbed :
    ∃ records final,
      exchanged [] [98, 32, 50] undisturbedLookup =
          some (records, final) ∧
        final.server.dns = [10, 98, 32, 50] ∧
        ∀ record ∈ records, Genuine record := by
  rcases Option.isSome_iff_exists.mp
      (show (exchanged [] [98, 32, 50] undisturbedLookup).isSome = true
        by decide) with
    ⟨⟨records, final⟩, computed⟩
  have checked :
      (exchanged [] [98, 32, 50] undisturbedLookup).map
        (fun result =>
          (result.2.server.dns,
            result.1.all fun record => decide (FromTld record))) =
        some ([10, 98, 32, 50], true) := by
    decide
  simp only [computed, Option.map_some, Option.some.injEq,
    Prod.mk.injEq, List.all_eq_true, decide_eq_true_eq] at checked
  rcases checked with ⟨recorded, answered⟩
  exact
    ⟨records, final, computed, recorded,
      recorded_pairs_genuine (zeroExchange [] [98, 32, 50])
        (zeroExchange_fresh _ _) records final
        (execute_run Exchange.perform_sound computed) answered⟩

/--
Client 1 has asked for b and the server waits for the answer when the marker of
client 2 arrives: "b 1" is appended, which nobody has replied.
-/
theorem marker_recorded_as_address :
    ¬ ∀ (start : Exchange), start.Fresh →
      ∀ (records : List (Record Exchange ExchangeEvent))
        (final : Exchange),
        Run ExchangeStep start records final →
          ∀ record ∈ records, Genuine record := by
  intro claim
  let inputs : List ExchangeInput :=
    [.ask 1 (letter 98 (by decide)), .deliver (.client 1) .server,
      .deliver (.client 1) .server, .ask 2 (letter 99 (by decide)),
      .deliver (.client 2) .server]
  rcases Option.isSome_iff_exists.mp
      (show (exchanged [] [98, 32, 50] inputs).isSome = true
        by decide) with
    ⟨⟨records, final⟩, computed⟩
  have poisoned :
      (exchanged [] [98, 32, 50] inputs).map
        (fun result =>
          result.1.any fun record =>
            decide
              (record.after.server.dns ≠ record.before.server.dns ∧
                record.after.replied = [])) =
        some true := by
    decide
  simp only [computed, Option.map_some, Option.some.injEq,
    List.any_eq_true, decide_eq_true_eq] at poisoned
  rcases poisoned with ⟨record, recorded, changed, unreplied⟩
  rcases claim (zeroExchange [] [98, 32, 50]) (zeroExchange_fresh _ _)
      records final (execute_run Exchange.perform_sound computed) record
      recorded with same | ⟨_, replied⟩
  · exact changed same
  · rw [unreplied] at replied
    cases replied

end NetworkingLab.NameService
