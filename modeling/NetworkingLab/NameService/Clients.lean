import NetworkingLab.Foundation.Channels
import NetworkingLab.Foundation.Runs
import NetworkingLab.NameService.Processes
import Mathlib.Logic.Function.Basic

/-!
# Many clients at the name service

Any number of clients, one for each port, use the caching server at the same
time.  Datagrams between two sockets keep their order; datagrams of different
senders arrive at a socket in any order.

Beside the processes stand two records: the names each client has asked for,
and the replies of the top-level server with the names they answer.
-/

namespace NetworkingLab.NameService

open NetworkingLab.Foundation.CString
open NetworkingLab.Foundation.Channels
open NetworkingLab.Foundation.Runs

/-- Datagrams from one socket to another keep their order. -/
def Datagram.channel (datagram : Datagram) : Address × Address :=
  (datagram.source, datagram.target)

/-- Datagrams between other sockets. -/
theorem queue_eq_nil
    {sent : List Datagram} {source target : Address}
    (other : ∀ datagram ∈ sent,
      datagram.source ≠ source ∨ datagram.target ≠ target) :
    queue Datagram.channel (source, target) sent = [] := by
  rw [queue, List.filter_eq_nil_iff]
  intro datagram member same
  have equal := of_decide_eq_true same
  rcases other datagram member with apart | apart
  · exact apart (congrArg Prod.fst equal)
  · exact apart (congrArg Prod.snd equal)

/-- All processes, the datagrams in flight and the two records. -/
structure Exchange where
  clients : Nat → NsClient
  waiting : Nat → Bool
  asked : Nat → List Token
  server : NameServer
  tld : TldServer
  flight : List Datagram
  replied : List (List Byte × List Byte)

/-- A client sends a request and waits at its `recvfrom`. -/
def Exchange.ask (state : Exchange) (port : Nat) (name : Token) :
    Exchange :=
  let request := (state.clients port).nslookup name.text
  { state with
    clients := Function.update state.clients port request.1
    waiting := Function.update state.waiting port true
    asked := Function.update state.asked port
      (state.asked port ++ [name])
    flight := state.flight ++ request.2 }

/-- A client prints what it has received. -/
def Exchange.print (state : Exchange) (port : Nat)
    (datagram : Datagram) (rest : List Datagram) : Exchange :=
  { state with
    clients := Function.update state.clients port
      ((state.clients port).receive datagram)
    waiting := Function.update state.waiting port false
    flight := rest }

/-- The caching server has received a datagram. -/
def Exchange.serve (state : Exchange) (server : NameServer)
    (rest sent : List Datagram) : Exchange :=
  { state with server := server, flight := rest ++ sent }

/-- The top-level server has received a datagram. -/
def Exchange.resolve (state : Exchange) (tld : TldServer)
    (rest sent : List Datagram) : Exchange :=
  { state with
    tld := tld
    flight := rest ++ sent
    replied := state.replied ++
      sent.map fun reply =>
        (cString tld.hostname, cString reply.bytes) }

/-- The strings that the caching server goes on to compare have an end. -/
def NameServer.Terminated (server : NameServer) (datagram : Datagram) :
    Prop :=
  match server.phase with
  | .marker => True
  | .name => 0 ∈ recvfrom 30 datagram.bytes server.hostname
  | .reply => 0 ∈ recvfrom 30 datagram.bytes server.ip

instance (server : NameServer) (datagram : Datagram) :
    Decidable (server.Terminated datagram) :=
  match server with
  | ⟨.marker, _, _, _, _, _, _, _⟩ => inferInstanceAs (Decidable True)
  | ⟨.name, _, _, _, _, _, _, _⟩ => inferInstanceAs (Decidable (_ ∈ _))
  | ⟨.reply, _, _, _, _, _, _, _⟩ => inferInstanceAs (Decidable (_ ∈ _))

/-- The string that the top-level server goes on to compare has an end. -/
def TldServer.Terminated (tld : TldServer) (datagram : Datagram) : Prop :=
  match tld.phase with
  | .marker => True
  | .name => 0 ∈ recvfrom 30 datagram.bytes tld.hostname

instance (tld : TldServer) (datagram : Datagram) :
    Decidable (tld.Terminated datagram) :=
  match tld with
  | ⟨.marker, _, _, _, _, _⟩ => inferInstanceAs (Decidable True)
  | ⟨.name, _, _, _, _, _⟩ => inferInstanceAs (Decidable (_ ∈ _))

/-- The steps of the processes. -/
inductive ExchangeEvent where
  | ask (port : Nat) (name : Token)
  | serve (datagram : Datagram) (sent : List Datagram)
  | resolve (datagram : Datagram) (sent : List Datagram)
  | print (port : Nat) (datagram : Datagram)

/-- The processes, with any interleaving of their datagrams. -/
inductive ExchangeStep :
    Exchange → ExchangeEvent → Exchange → Prop where
  | ask {state : Exchange} {port : Nat} {name : Token}
      (idle : state.waiting port = false) :
      ExchangeStep state (.ask port name) (state.ask port name)
  | serve {state : Exchange} {datagram : Datagram}
      {rest sent : List Datagram} {server : NameServer}
      (arrives : Arrives Datagram.channel state.flight datagram rest)
      (target : datagram.target = .server)
      (terminated : state.server.Terminated datagram)
      (received : state.server.receive datagram = some (server, sent)) :
      ExchangeStep state (.serve datagram sent)
        (state.serve server rest sent)
  | resolve {state : Exchange} {datagram : Datagram}
      {rest sent : List Datagram} {tld : TldServer}
      (arrives : Arrives Datagram.channel state.flight datagram rest)
      (target : datagram.target = .tld)
      (terminated : state.tld.Terminated datagram)
      (received : state.tld.receive datagram = some (tld, sent)) :
      ExchangeStep state (.resolve datagram sent)
        (state.resolve tld rest sent)
  | print {state : Exchange} {port : Nat} {datagram : Datagram}
      {rest : List Datagram}
      (arrives : Arrives Datagram.channel state.flight datagram rest)
      (target : datagram.target = .client port)
      (waits : state.waiting port = true) :
      ExchangeStep state (.print port datagram)
        (state.print port datagram rest)

/-- Nobody has asked yet; the servers wait for a marker. -/
structure Exchange.Fresh (state : Exchange) : Prop where
  ports : ∀ port, (state.clients port).port = port
  hostnames : ∀ port, (state.clients port).hostname.length = 30
  idle : ∀ port, state.waiting port = false
  unasked : ∀ port, state.asked port = []
  server : state.server.Sized
  serverIdle : state.server.phase = .marker
  upstream : state.server.tldadr = .tld
  tld : state.tld.Sized
  tldIdle : state.tld.phase = .marker
  silent : state.flight = []
  unreplied : state.replied = []

/-- What is in flight from one socket to another. -/
abbrev Exchange.between (state : Exchange) (source target : Address) :
    List Datagram :=
  queue Datagram.channel (source, target) state.flight

/-! ## Computed runs -/

/-- What may happen next: a request, or the next datagram of a channel. -/
inductive ExchangeInput where
  | ask (port : Nat) (name : Token)
  | deliver (source target : Address)

/-- Compute a step. -/
def Exchange.perform (state : Exchange) :
    ExchangeInput → Option (ExchangeEvent × Exchange)
  | .ask port name =>
      if state.waiting port = false then
        some (.ask port name, state.ask port name)
      else
        none
  | .deliver source target =>
      match arrive Datagram.channel (source, target) state.flight with
      | none => none
      | some (datagram, rest) =>
          match target with
          | .server =>
              if state.server.Terminated datagram then
                (state.server.receive datagram).map fun result =>
                  (.serve datagram result.2,
                    state.serve result.1 rest result.2)
              else
                none
          | .tld =>
              if state.tld.Terminated datagram then
                (state.tld.receive datagram).map fun result =>
                  (.resolve datagram result.2,
                    state.resolve result.1 rest result.2)
              else
                none
          | .client port =>
              if state.waiting port = true then
                some (.print port datagram,
                  state.print port datagram rest)
              else
                none

theorem Exchange.perform_sound
    (current : Exchange) (input : ExchangeInput)
    (label : ExchangeEvent) (next : Exchange)
    (performed : current.perform input = some (label, next)) :
    ExchangeStep current label next := by
  cases input with
  | ask port name =>
      simp only [perform] at performed
      split_ifs at performed with idle
      cases performed
      exact .ask idle
  | deliver source target =>
      simp only [perform] at performed
      split at performed
      · cases performed
      · next datagram rest computed =>
          rcases arrives_of_arrive computed with ⟨arrives, named⟩
          have aimed : datagram.target = target :=
            congrArg Prod.snd named
          cases target with
          | server =>
              simp only at performed
              split_ifs at performed with terminated
              simp only [Option.map_eq_some_iff, Prod.mk.injEq]
                at performed
              rcases performed with ⟨⟨server, sent⟩, received, rfl, rfl⟩
              exact .serve arrives aimed terminated received
          | tld =>
              simp only at performed
              split_ifs at performed with terminated
              simp only [Option.map_eq_some_iff, Prod.mk.injEq]
                at performed
              rcases performed with ⟨⟨tld, sent⟩, received, rfl, rfl⟩
              exact .resolve arrives aimed terminated received
          | client port =>
              simp only at performed
              split_ifs at performed with waits
              cases performed
              exact .print arrives aimed waits

/-- Fresh processes on zeroed arrays. -/
def zeroExchange (dns hdns : List Byte) : Exchange where
  clients port :=
    ⟨port, List.replicate 30 0, List.replicate 30 0, []⟩
  waiting _ := false
  asked _ := []
  server :=
    ⟨.marker, dns, List.replicate 30 0, List.replicate 30 0,
      List.replicate 30 0, List.replicate 30 0, .client 0, .tld⟩
  tld :=
    ⟨.marker, hdns, List.replicate 30 0, List.replicate 30 0,
      List.replicate 30 0, .server⟩
  flight := []
  replied := []

theorem zeroExchange_fresh (dns hdns : List Byte) :
    (zeroExchange dns hdns).Fresh where
  ports _ := rfl
  hostnames _ := rfl
  idle _ := rfl
  unasked _ := rfl
  server := ⟨rfl, rfl, rfl, rfl⟩
  serverIdle := rfl
  upstream := rfl
  tld := ⟨rfl, rfl, rfl⟩
  tldIdle := rfl
  silent := rfl
  unreplied := rfl

/-- The computed run on zeroed arrays. -/
def exchanged (dns hdns : List Byte) (inputs : List ExchangeInput) :
    Option (List (Record Exchange ExchangeEvent) × Exchange) :=
  execute Exchange.perform (zeroExchange dns hdns) inputs

/-- A request of one client that goes to the top-level server and back. -/
def fullLookup (port : Nat) (name : Token) : List ExchangeInput :=
  [.ask port name, .deliver (.client port) .server,
    .deliver (.client port) .server, .deliver .server .tld,
    .deliver .server .tld, .deliver .tld .server,
    .deliver .server (.client port)]

end NetworkingLab.NameService
