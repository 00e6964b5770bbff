import NetworkingLab.Foundation.Runs
import NetworkingLab.SelectiveRepeat.Peer

/-!
# The server and its connections

The server polls every accepted socket, but it has one `datafrom` for all of
them and writes its acknowledgements to `sendsocket`, the socket accepted last.
The client answers on the socket it has read from.  A second client therefore
gets the acknowledgements of the first, and a packet number that two clients
use is stored once and acknowledged twice.

The history beside the server records what each connection has delivered.
`connections_separate_iff` says which runs keep the connections apart: each
data packet comes in on the connection accepted last, and no other connection
has used its number.
-/

namespace NetworkingLab.SelectiveRepeat

open NetworkingLab.Foundation.CString
open NetworkingLab.Foundation.Runs

/-- The variables of the server's `main`: a peer, its sockets, `incomming`. -/
structure Server extends Peer where
  sendsocket : Int
  masterFds : List Int
  readFds : List Int
  incomming : Pack

/-- A pack on a connection. -/
structure Carried where
  connection : Int
  packet : Pack

/-- The branch behind `accept`. -/
def Server.accept (newfd : Int) (server : Server) : Server :=
  { server with
    sendsocket := newfd
    masterFds := newfd :: server.masterFds }

/-- `read_fds = master_fds`, before the rounds of `z`. -/
def Server.poll (server : Server) : Server :=
  { server with readFds := server.masterFds }

/-- A `recv` that fills `incomming`. -/
def Server.recv (packet : Pack) (server : Server) : Server :=
  { server with incomming := packet }

/--
A `recv` that returns 0: `incomming` keeps its bytes, and the socket stays in
`read_fds` for the rounds of `z` that are left.
-/
def Server.hangup (i : Int) (server : Server) : Server :=
  { server with masterFds := server.masterFds.erase i }

/-- The code behind `recv`; the acknowledgement goes to `sendsocket`. -/
def Server.handle (junk : Payload) (server : Server) :
    Option (Server × List Carried) :=
  (dispatch junk server.incomming server.toPeer).map
    fun result =>
      ({ server with toPeer := result.1 },
        result.2.map (Carried.mk server.sendsocket))

/-- The call of `sendpacket` behind the test of `sendsocket`. -/
def Server.send (server : Server) : Option (Server × List Carried) :=
  if server.sendsocket = -1 then
    some (server, [])
  else
    server.toPeer.send.map
      fun result =>
        ({ server with toPeer := result.1 },
          result.2.map (Carried.mk server.sendsocket))

/-- A server together with what its connections have delivered. -/
structure ServerHistory where
  server : Server
  accepted : List Int
  received : List Carried
  /-- The connection that filled `incomming`, if one has. -/
  origin : Option Int

/-- The branches of the loop, with the packs they write. -/
inductive ServerEvent where
  | poll
  | accept (newfd : Int)
  | receive (i : Int) (packet : Pack) (acks : List Carried)
  | hangup (i : Int) (acks : List Carried)
  | send (packets : List Carried)

/-- The acknowledgements an event writes. -/
def ServerEvent.acks : ServerEvent → List Carried
  | .receive _ _ acks => acks
  | .hangup _ acks => acks
  | _ => []

/--
The loop of `main`, with any number of clients that send anything.  The steps
of the rounds come in any order, as `select` finds the sockets.
-/
inductive ServerStep :
    ServerHistory → ServerEvent → ServerHistory → Prop where
  | poll {state : ServerHistory}
      (running : state.server.running = true) :
      ServerStep state .poll { state with server := state.server.poll }
  | accept {state : ServerHistory} {newfd : Int}
      (running : state.server.running = true)
      (fresh : newfd ∉ state.accepted) :
      ServerStep state (.accept newfd)
        { state with
          server := state.server.accept newfd
          accepted := newfd :: state.accepted }
  | receive {state : ServerHistory} {i : Int} {packet : Pack}
      {junk : Payload} {server : Server} {acks : List Carried}
      (running : state.server.running = true)
      (polled : i ∈ state.server.readFds)
      (handled : (state.server.recv packet).handle junk =
        some (server, acks)) :
      ServerStep state (.receive i packet acks)
        { state with
          server := server
          received := state.received ++ [⟨i, packet⟩]
          origin := some i }
  | hangup {state : ServerHistory} {i : Int} {junk : Payload}
      {server : Server} {acks : List Carried}
      (running : state.server.running = true)
      (polled : i ∈ state.server.readFds)
      (handled : (state.server.hangup i).handle junk =
        some (server, acks)) :
      ServerStep state (.hangup i acks) { state with server := server }
  | send {state : ServerHistory} {server : Server}
      {packets : List Carried}
      (running : state.server.running = true)
      (defined : state.server.send = some (server, packets)) :
      ServerStep state (.send packets) { state with server := server }

/-! ## The law and its guard -/

/-- The pack delivers data packet `k`. -/
def Carried.Data (k : Int) (carried : Carried) : Prop :=
  carried.packet.ackno = -1 ∧ carried.packet.sno = k

instance (k : Int) (carried : Carried) : Decidable (carried.Data k) :=
  inferInstanceAs (Decidable (_ ∧ _))

/-- The connection whose data packet `k` came in first. -/
def firstFrom (received : List Carried) (k : Int) : Option Int :=
  (received.find? fun carried => carried.Data k).map Carried.connection

/--
An acknowledgement that its connection may read as: my data packet with this
number is what the server holds.
-/
def Earned (history : ServerHistory) (ack : Carried) : Prop :=
  ∃ carried ∈ history.received,
    carried.connection = ack.connection ∧
      carried.Data ack.packet.ackno ∧
      ∃ j : Fin 100, ack.packet.ackno = (j : Nat) ∧
        (history.server.datafrom j).ackno = 1 ∧
        (history.server.datafrom j).payload.text =
          carried.packet.payload.text

/--
One step keeps the connections apart: its acknowledgements are earned, and a
data packet that it acknowledges is not dropped for another client's.
-/
def KeptApart (record : Record ServerHistory ServerEvent) : Prop :=
  (∀ ack ∈ record.label.acks, Earned record.after ack) ∧
    match record.label with
    | .receive i packet acks =>
        acks ≠ [] → firstFrom record.after.received packet.sno = some i
    | _ => True

/--
What the step must find: a data packet comes in on `sendsocket` with a number
no other connection has used, and data left in `incomming` at a hangup has
come from `sendsocket`.
-/
def Addressed (record : Record ServerHistory ServerEvent) : Prop :=
  match record.label with
  | .receive i packet _ =>
      packet.ackno = -1 →
        i = record.before.server.sendsocket ∧
          ∀ carried ∈ record.before.received,
            carried.Data packet.sno → carried.connection = i
  | .hangup _ _ =>
      record.before.server.incomming.ackno = -1 →
        record.before.origin = some record.before.server.sendsocket
  | _ => True

/-! ## One step -/

/-- `dispatchAck` leaves `datafrom` alone. -/
theorem dispatchAck_datafrom
    {incomming : Pack} {peer next : Peer}
    (call : dispatchAck incomming peer = some next) :
    next.datafrom = peer.datafrom := by
  unfold dispatchAck at call
  split at call
  · simp only [Option.map_eq_some_iff] at call
    rcases call with ⟨sender, _, rfl⟩
    rfl
  · cases call
    rfl

/-- Inversion of the code behind `recv`. -/
theorem Server.handle_cases
    {junk : Payload} {server next : Server} {acks : List Carried}
    (handled : server.handle junk = some (next, acks)) :
    next.sendsocket = server.sendsocket ∧
      next.incomming = server.incomming ∧
      (server.incomming.ackno ≠ -1 ∧ acks = [] ∧
          next.datafrom = server.datafrom ∨
        server.incomming.ackno = -1 ∧
          dataprocess server.incomming server.datafrom =
            some next.datafrom ∧
          acks = [⟨server.sendsocket,
            ackpacket junk server.incomming⟩]) := by
  simp only [Server.handle, Option.map_eq_some_iff, Prod.mk.injEq]
    at handled
  rcases handled with ⟨⟨peer, packs⟩, dispatched, rfl, rfl⟩
  refine ⟨rfl, rfl, ?_⟩
  unfold dispatch at dispatched
  split at dispatched
  · cases dispatched
  · next middle acked =>
      have same := dispatchAck_datafrom acked
      unfold dispatchData at dispatched
      split at dispatched
      · next data =>
          simp only [Option.map_eq_some_iff, Prod.mk.injEq]
            at dispatched
          rcases dispatched with ⟨stored, call, rfl, rfl⟩
          rw [same] at call
          exact Or.inr ⟨data, call, rfl⟩
      · next other =>
          cases dispatched
          exact Or.inl ⟨other, rfl, same⟩

/-- `Peer.send` leaves `datafrom` alone. -/
theorem Server.send_cases
    {server next : Server} {packets : List Carried}
    (call : server.send = some (next, packets)) :
    next.sendsocket = server.sendsocket ∧
      next.incomming = server.incomming ∧
      next.datafrom = server.datafrom := by
  unfold Server.send at call
  split at call
  · cases call
    exact ⟨rfl, rfl, rfl⟩
  · simp only [Option.map_eq_some_iff, Prod.mk.injEq] at call
    rcases call with ⟨⟨peer, packs⟩, defined, rfl, _⟩
    rcases Peer.send_cases defined with ⟨_, _, _, rfl, _⟩
    exact ⟨rfl, rfl, rfl⟩

/-! ## The invariant -/

/--
The invariant of runs that keep the connections apart: what is held has been
received, what has been received is held, and a number belongs to one
connection.
-/
structure ApartInv (history : ServerHistory) : Prop where
  held : ∀ j : Fin 100, (history.server.datafrom j).ackno = 1 →
    ∃ carried ∈ history.received, carried.Data (j : Nat) ∧
      (history.server.datafrom j).payload.text =
        carried.packet.payload.text
  filled : ∀ carried ∈ history.received, carried.packet.ackno = -1 →
    ∃ j : Fin 100, carried.packet.sno = (j : Nat) ∧
      (history.server.datafrom j).ackno = 1
  single : ∀ first ∈ history.received, ∀ second ∈ history.received,
    ∀ k : Int, first.Data k → second.Data k →
      first.connection = second.connection
  last : ∀ i : Int, history.origin = some i →
    (⟨i, history.server.incomming⟩ : Carried) ∈ history.received
  silent : history.origin = none → history.received = []

theorem ApartInv.start
    {server : Server} {memory : Buffer}
    (buffer : server.datafrom = makeinvalid memory) :
    ApartInv ⟨server, [], [], none⟩ where
  held j marked := by
    simp [buffer] at marked
  filled _ member := by
    cases member
  single _ member := by
    cases member
  last _ known := by
    cases known
  silent _ := rfl

/-- Steps that touch neither `datafrom` nor `incomming` keep the invariant. -/
theorem ApartInv.frame
    {history later : ServerHistory}
    (inv : ApartInv history)
    (datafrom : later.server.datafrom = history.server.datafrom)
    (incomming : later.server.incomming = history.server.incomming)
    (received : later.received = history.received)
    (origin : later.origin = history.origin) :
    ApartInv later where
  held := by
    rw [datafrom, received]
    exact inv.held
  filled := by
    rw [datafrom, received]
    exact inv.filled
  single := by
    rw [received]
    exact inv.single
  last := by
    rw [origin, incomming, received]
    exact inv.last
  silent := by
    rw [origin, received]
    exact inv.silent

theorem firstFrom_eq_of_single
    {received : List Carried} {k i : Int}
    (present : ∃ carried ∈ received, carried.Data k)
    (single : ∀ carried ∈ received, carried.Data k →
      carried.connection = i) :
    firstFrom received k = some i := by
  unfold firstFrom
  cases found : received.find? fun carried => carried.Data k with
  | none =>
      rcases present with ⟨carried, member, data⟩
      have absent := List.find?_eq_none.mp found carried member
      exact absurd data (by simpa using absent)
  | some carried =>
      have data : carried.Data k := by
        simpa using List.find?_some found
      have member := List.mem_of_find?_eq_some found
      simp [single carried member data]

theorem exists_data_of_firstFrom
    {received : List Carried} {k i : Int}
    (first : firstFrom received k = some i) :
    ∃ carried ∈ received, carried.Data k ∧ carried.connection = i := by
  simp only [firstFrom, Option.map_eq_some_iff] at first
  rcases first with ⟨carried, found, connection⟩
  have data : carried.Data k := by
    simpa using List.find?_some found
  exact ⟨carried, List.mem_of_find?_eq_some found, data, connection⟩

theorem firstFrom_append_of_mem
    {received later : List Carried} {k : Int}
    (present : ∃ carried ∈ received, carried.Data k) :
    firstFrom (received ++ later) k = firstFrom received k := by
  unfold firstFrom
  rw [List.find?_append]
  cases found : received.find? fun carried => carried.Data k with
  | none =>
      rcases present with ⟨carried, member, data⟩
      have absent := List.find?_eq_none.mp found carried member
      exact absurd data (by simpa using absent)
  | some carried => rfl

/-! ## Receiving -/

section Receive

variable
    {state : ServerHistory} {i : Int} {packet : Pack} {junk : Payload}
    {server : Server} {acks : List Carried}

/-- The history behind a handled pack. -/
abbrev ServerHistory.receive (state : ServerHistory) (i : Int)
    (packet : Pack) (server : Server) : ServerHistory :=
  { state with
    server := server
    received := state.received ++ [⟨i, packet⟩]
    origin := some i }

/-- What is in the slot of a handled data packet has been received. -/
theorem ApartInv.slot_received
    (inv : ApartInv state)
    {stored : Buffer} {j : Fin 100}
    (number : packet.sno = (j : Nat))
    (data : packet.ackno = -1)
    (effect :
      (state.server.datafrom j).ackno = 1 ∧
          stored = state.server.datafrom ∨
        (state.server.datafrom j).ackno ≠ 1 ∧
          (stored j).payload.text = packet.payload.text) :
    ∃ carried ∈ state.received ++ [⟨i, packet⟩],
      carried.Data (j : Nat) ∧
        (stored j).payload.text = carried.packet.payload.text := by
  rcases effect with ⟨filled, same⟩ | ⟨_, text⟩
  · rcases inv.held j filled with ⟨carried, member, isData, text⟩
    refine ⟨carried, List.mem_append_left _ member, isData, ?_⟩
    rw [same]
    exact text
  · exact ⟨⟨i, packet⟩, by simp, ⟨data, number⟩, text⟩

/-- The first packet with this number came from `i`, so all of them did. -/
theorem ApartInv.all_from
    (inv : ApartInv state)
    (first : firstFrom (state.received ++ [⟨i, packet⟩]) packet.sno =
      some i)
    {carried : Carried} (member : carried ∈ state.received)
    (data : carried.Data packet.sno) :
    carried.connection = i := by
  rw [firstFrom_append_of_mem ⟨carried, member, data⟩] at first
  rcases exists_data_of_firstFrom first with
    ⟨earliest, earliestMember, earliestData, connection⟩
  rw [← connection]
  exact inv.single carried member earliest earliestMember packet.sno data
    earliestData

/-- The guard of a received pack is exact. -/
theorem ApartInv.receive_decides
    (inv : ApartInv state)
    (handled : (state.server.recv packet).handle junk =
      some (server, acks)) :
    KeptApart ⟨state, .receive i packet acks,
        state.receive i packet server⟩ ↔
      Addressed ⟨state, .receive i packet acks,
        state.receive i packet server⟩ := by
  rcases Server.handle_cases handled with ⟨_, _, silent | answered⟩
  · rcases silent with ⟨other, none, _⟩
    have other : packet.ackno ≠ -1 := other
    simp [KeptApart, Addressed, ServerEvent.acks, none, other]
  · rcases answered with ⟨data, call, answer⟩
    have data : packet.ackno = -1 := data
    rcases dataprocess_cases call with
      ⟨j, number, marked, _, effect⟩
    have number : packet.sno = (j : Nat) := number
    subst answer
    constructor
    · rintro ⟨earned, kept⟩ _
      have first := kept (by simp)
      have allFrom : ∀ carried ∈ state.received,
          carried.Data packet.sno → carried.connection = i :=
        fun carried member isData => inv.all_from first member isData
      refine ⟨?_, allFrom⟩
      rcases earned _ (List.mem_singleton_self _) with
        ⟨carried, member, connection, isData, _⟩
      rcases List.mem_append.mp member with old | new
      · exact (allFrom carried old isData).symm.trans connection
      · rw [List.mem_singleton.mp new] at connection
        exact connection
    · intro addressed
      rcases addressed data with ⟨current, allFrom⟩
      have every : ∀ carried ∈ state.received ++ [⟨i, packet⟩],
          carried.Data packet.sno → carried.connection = i := by
        intro carried member isData
        rcases List.mem_append.mp member with old | new
        · exact allFrom carried old isData
        · rw [List.mem_singleton.mp new]
      constructor
      · intro ack member
        rw [List.mem_singleton.mp member]
        rcases inv.slot_received (i := i) number data
            (effect.imp_left fun kept => kept) with
          ⟨carried, received, isData, text⟩
        have isData : carried.Data packet.sno := by
          rw [number]
          exact isData
        exact
          ⟨carried, received,
            (every carried received isData).trans current, isData, j,
            number, marked, text⟩
      · intro _
        exact firstFrom_eq_of_single
          ⟨⟨i, packet⟩, by simp, data, rfl⟩ every

/-- Every filled slot of the answering server has been received. -/
theorem ApartInv.receive_held
    (inv : ApartInv state)
    (handled : (state.server.recv packet).handle junk =
      some (server, acks))
    (j : Fin 100) (marked : (server.datafrom j).ackno = 1) :
    ∃ carried ∈ state.received ++ [⟨i, packet⟩],
      carried.Data (j : Nat) ∧
        (server.datafrom j).payload.text =
          carried.packet.payload.text := by
  have earlier : server.datafrom j = state.server.datafrom j →
      ∃ carried ∈ state.received ++ [⟨i, packet⟩],
        carried.Data (j : Nat) ∧
          (server.datafrom j).payload.text =
            carried.packet.payload.text := by
    intro same
    rw [same] at marked ⊢
    rcases inv.held j marked with ⟨carried, member, isData, text⟩
    exact ⟨carried, List.mem_append_left _ member, isData, text⟩
  rcases Server.handle_cases handled with ⟨_, _, silent | answered⟩
  · exact earlier (congrFun silent.2.2 j)
  · rcases answered with ⟨data, call, _⟩
    rcases dataprocess_cases call with ⟨k, number, _, others, effect⟩
    by_cases here : j = k
    · subst here
      exact inv.slot_received number data effect
    · exact earlier (others j here)

/-- No slot of the answering server is emptied. -/
theorem Server.handle_marks
    {server next : Server}
    (handled : server.handle junk = some (next, acks))
    (j : Fin 100) (marked : (server.datafrom j).ackno = 1) :
    (next.datafrom j).ackno = 1 := by
  rcases Server.handle_cases handled with ⟨_, _, silent | answered⟩
  · rw [silent.2.2]
    exact marked
  · rcases answered with ⟨_, call, _⟩
    rcases dataprocess_cases call with ⟨k, _, filled, others, _⟩
    by_cases here : j = k
    · subst here
      exact filled
    · rw [others j here]
      exact marked

/-- The slot of a handled data packet is filled. -/
theorem Server.handle_fills
    {server next : Server}
    (handled : server.handle junk = some (next, acks))
    (data : server.incomming.ackno = -1) :
    ∃ j : Fin 100, server.incomming.sno = (j : Nat) ∧
      (next.datafrom j).ackno = 1 := by
  rcases Server.handle_cases handled with ⟨_, _, silent | answered⟩
  · exact absurd data silent.1
  · rcases dataprocess_cases answered.2.1 with
      ⟨j, number, filled, _, _⟩
    exact ⟨j, number, filled⟩

/-- A guarded receive keeps the invariant. -/
theorem ApartInv.receive
    (inv : ApartInv state)
    (handled : (state.server.recv packet).handle junk =
      some (server, acks))
    (addressed : Addressed ⟨state, .receive i packet acks,
      state.receive i packet server⟩) :
    ApartInv (state.receive i packet server) where
  held := inv.receive_held handled
  filled := by
    intro carried member isData
    rcases List.mem_append.mp member with old | new
    · rcases inv.filled carried old isData with ⟨j, number, marked⟩
      exact ⟨j, number, Server.handle_marks handled j marked⟩
    · rw [List.mem_singleton.mp new] at isData ⊢
      exact Server.handle_fills handled isData
  single := by
    have ofNew : ∀ carried ∈ state.received ++ [⟨i, packet⟩],
        ∀ k : Int, carried.Data k → Carried.Data k ⟨i, packet⟩ →
          carried.connection = i := by
      rintro carried member k isData ⟨data, rfl⟩
      rcases List.mem_append.mp member with old | new
      · exact (addressed data).2 carried old isData
      · rw [List.mem_singleton.mp new]
    intro first firstMember second secondMember k firstData secondData
    rcases List.mem_append.mp firstMember with old | new
    · rcases List.mem_append.mp secondMember with old' | new'
      · exact inv.single first old second old' k firstData secondData
      · rw [List.mem_singleton.mp new'] at secondData ⊢
        exact ofNew first firstMember k firstData secondData
    · rw [List.mem_singleton.mp new] at firstData ⊢
      exact (ofNew second secondMember k secondData firstData).symm
  last := by
    rintro _ ⟨⟩
    rw [(Server.handle_cases handled).2.1]
    exact List.mem_append_right _ (List.mem_singleton_self _)
  silent := by
    intro none
    cases none

end Receive

/-! ## Hangups -/

section Hangup

variable
    {state : ServerHistory} {i : Int} {junk : Payload}
    {server : Server} {acks : List Carried}

/-- What a hangup handles again is held already. -/
theorem ApartInv.hangup_datafrom
    (inv : ApartInv state)
    (handled : (state.server.hangup i).handle junk =
      some (server, acks))
    (addressed : Addressed ⟨state, .hangup i acks,
      { state with server := server }⟩) :
    server.datafrom = state.server.datafrom := by
  rcases Server.handle_cases handled with ⟨_, _, silent | answered⟩
  · exact silent.2.2
  · rcases answered with ⟨data, call, _⟩
    have known := inv.last _ (addressed data)
    rcases inv.filled _ known data with ⟨j, number, marked⟩
    have again : dataprocess state.server.incomming
        state.server.datafrom = some state.server.datafrom :=
      dataprocess_duplicate number marked
    exact Option.some.inj (call.symm.trans again)

/-- The guard of a hangup is exact. -/
theorem ApartInv.hangup_decides
    (inv : ApartInv state)
    (handled : (state.server.hangup i).handle junk =
      some (server, acks)) :
    KeptApart ⟨state, .hangup i acks, { state with server := server }⟩ ↔
      Addressed
        ⟨state, .hangup i acks, { state with server := server }⟩ := by
  rcases Server.handle_cases handled with ⟨_, _, silent | answered⟩
  · rcases silent with ⟨other, none, _⟩
    have other : state.server.incomming.ackno ≠ -1 := other
    simp [KeptApart, Addressed, ServerEvent.acks, none, other]
  · rcases answered with ⟨data, call, answer⟩
    have data : state.server.incomming.ackno = -1 := data
    subst answer
    constructor
    · rintro ⟨earned, _⟩ _
      rcases earned _ (List.mem_singleton_self _) with
        ⟨carried, member, connection, isData, _⟩
      cases source : state.origin with
      | none =>
          rw [inv.silent source] at member
          cases member
      | some origin =>
          have known := inv.last origin source
          have same := inv.single _ known carried member
            state.server.incomming.sno ⟨data, rfl⟩ isData
          exact congrArg some (same.trans connection)
    · intro addressed
      refine ⟨?_, trivial⟩
      intro ack member
      rw [List.mem_singleton.mp member]
      have known : (⟨state.server.sendsocket,
          state.server.incomming⟩ : Carried) ∈ state.received :=
        inv.last _ (addressed data)
      rcases inv.filled _ known data with ⟨j, number, marked⟩
      have same := inv.hangup_datafrom handled addressed
      rcases inv.held j marked with ⟨carried, received, isData, text⟩
      have number : state.server.incomming.sno = (j : Nat) := number
      have isData : carried.Data state.server.incomming.sno := by
        rw [number]
        exact isData
      have owner := inv.single carried received _ known
        state.server.incomming.sno isData ⟨data, rfl⟩
      refine ⟨carried, received, owner, isData, j, number, ?_⟩
      simp only [same]
      exact ⟨marked, text⟩

end Hangup

/-! ## Runs -/

/-- At a state of the invariant the guard decides the law. -/
theorem ApartInv.decides
    {current next : ServerHistory} {event : ServerEvent}
    (inv : ApartInv current) (move : ServerStep current event next) :
    KeptApart ⟨current, event, next⟩ ↔
      Addressed ⟨current, event, next⟩ := by
  cases move with
  | poll _ => simp [KeptApart, Addressed, ServerEvent.acks]
  | accept _ _ => simp [KeptApart, Addressed, ServerEvent.acks]
  | receive _ _ handled => exact inv.receive_decides handled
  | hangup _ _ handled => exact inv.hangup_decides handled
  | send _ _ => simp [KeptApart, Addressed, ServerEvent.acks]

/-- A guarded step keeps the invariant. -/
theorem ApartInv.step
    {current next : ServerHistory} {event : ServerEvent}
    (inv : ApartInv current) (move : ServerStep current event next)
    (addressed : Addressed ⟨current, event, next⟩) :
    ApartInv next := by
  cases move with
  | poll _ => exact inv.frame rfl rfl rfl rfl
  | accept _ _ => exact inv.frame rfl rfl rfl rfl
  | receive _ _ handled => exact inv.receive handled addressed
  | hangup _ _ handled =>
      exact inv.frame (inv.hangup_datafrom handled addressed)
        (Server.handle_cases handled).2.1 rfl rfl
  | send _ defined =>
      rcases Server.send_cases defined with ⟨_, incomming, datafrom⟩
      exact inv.frame datafrom incomming rfl rfl

/-- The server behind its start-up code, before the first `accept`. -/
def Server.start (peer : Peer) (incomming : Pack) : Server :=
  { peer with
    sendsocket := -1
    masterFds := []
    readFds := []
    incomming := incomming }

/--
A run keeps the connections apart exactly if every data packet comes in on the
connection accepted last, under a number that no other connection has used,
and every hangup finds in `incomming` no data but that connection's.
-/
theorem connections_separate_iff
    (window : Int) (datato datafrom : Buffer) (file : List Byte)
    (peer : Peer)
    (started : Peer.start window datato datafrom file = some peer)
    (incomming : Pack)
    (records : List (Record ServerHistory ServerEvent))
    (final : ServerHistory)
    (run : Run ServerStep ⟨Server.start peer incomming, [], [], none⟩
      records final) :
    (∀ record ∈ records, KeptApart record) ↔
      ∀ record ∈ records, Addressed record := by
  have initial : ApartInv ⟨Server.start peer incomming, [], [], none⟩ :=
    ApartInv.start (Peer.start_datafrom started)
  exact
    (Run.forall_good_iff initial
      (fun _ _ _ inv move => inv.decides move)
      (fun _ _ _ inv move addressed => inv.step move addressed)
      run).1

/-! ## Computed runs -/

/-- What the loop finds: a connection, a pack, a hangup or nothing. -/
inductive ServerInput where
  | poll
  | accept (newfd : Int)
  | receive (i : Int) (packet : Pack)
  | hangup (i : Int)
  | send

/-- Perform one branch, if the loop can take it. -/
def ServerHistory.perform (state : ServerHistory) (input : ServerInput) :
    Option (ServerEvent × ServerHistory) :=
  if state.server.running then
    match input with
    | .poll =>
        some (.poll, { state with server := state.server.poll })
    | .accept newfd =>
        if newfd ∈ state.accepted then
          none
        else
          some (.accept newfd,
            { state with
              server := state.server.accept newfd
              accepted := newfd :: state.accepted })
    | .receive i packet =>
        if i ∈ state.server.readFds then
          ((state.server.recv packet).handle zeroPayload).map
            fun result =>
              (.receive i packet result.2,
                state.receive i packet result.1)
        else
          none
    | .hangup i =>
        if i ∈ state.server.readFds then
          ((state.server.hangup i).handle zeroPayload).map
            fun result =>
              (.hangup i result.2, { state with server := result.1 })
        else
          none
    | .send =>
        state.server.send.map
          fun result =>
            (.send result.2, { state with server := result.1 })
  else
    none

theorem ServerHistory.perform_sound
    (state : ServerHistory) (input : ServerInput) (event : ServerEvent)
    (next : ServerHistory)
    (performed : state.perform input = some (event, next)) :
    ServerStep state event next := by
  unfold ServerHistory.perform at performed
  split at performed
  · next running =>
      cases input with
      | poll =>
          cases performed
          exact .poll running
      | accept newfd =>
          simp only at performed
          split at performed
          · cases performed
          · next fresh =>
              cases performed
              exact .accept running fresh
      | receive i packet =>
          simp only at performed
          split at performed
          · next polled =>
              simp only [Option.map_eq_some_iff, Prod.mk.injEq]
                at performed
              rcases performed with ⟨⟨server, acks⟩, handled, rfl, rfl⟩
              exact .receive running polled handled
          · cases performed
      | hangup i =>
          simp only at performed
          split at performed
          · next polled =>
              simp only [Option.map_eq_some_iff, Prod.mk.injEq]
                at performed
              rcases performed with ⟨⟨server, acks⟩, handled, rfl, rfl⟩
              exact .hangup running polled handled
          · cases performed
      | send =>
          simp only [Option.map_eq_some_iff, Prod.mk.injEq] at performed
          rcases performed with ⟨⟨server, packets⟩, defined, rfl, rfl⟩
          exact .send running defined
  · cases performed

/-- A server started on zeroed blocks, with the run of some inputs. -/
def served (inputs : List ServerInput) :
    Option (Peer × List (Record ServerHistory ServerEvent) ×
      ServerHistory) :=
  match Peer.start 1 zeroed zeroed [104, 105] with
  | none => none
  | some peer =>
      (execute ServerHistory.perform
          ⟨Server.start peer ⟨0, 0, zeroPayload⟩, [], [], none⟩
          inputs).map
        fun result => (peer, result)

theorem served_sound
    {inputs : List ServerInput} {peer : Peer}
    {records : List (Record ServerHistory ServerEvent)}
    {final : ServerHistory}
    (computed : served inputs = some (peer, records, final)) :
    Peer.start 1 zeroed zeroed [104, 105] = some peer ∧
      Run ServerStep
        ⟨Server.start peer ⟨0, 0, zeroPayload⟩, [], [], none⟩
        records final := by
  unfold served at computed
  split at computed
  · cases computed
  · next peer started =>
      simp only [Option.map_eq_some_iff, Prod.mk.injEq] at computed
      rcases computed with ⟨result, ran, rfl, rfl⟩
      exact ⟨started, execute_run ServerHistory.perform_sound ran⟩

instance (record : Record ServerHistory ServerEvent) :
    Decidable (Addressed record) :=
  match record with
  | ⟨_, .receive _ _ _, _⟩ =>
      inferInstanceAs (Decidable (_ → _ ∧ ∀ carried ∈ _, _ → _))
  | ⟨_, .hangup _ _, _⟩ => inferInstanceAs (Decidable (_ → _))
  | ⟨_, .poll, _⟩ => inferInstanceAs (Decidable True)
  | ⟨_, .accept _, _⟩ => inferInstanceAs (Decidable True)
  | ⟨_, .send _, _⟩ => inferInstanceAs (Decidable True)

/--
One client, two packets, one of them sent twice, and a hangup that two rounds
of the same poll find.
-/
def oneClient : List ServerInput :=
  [.poll, .accept 4, .poll, .receive 4 ⟨0, -1, zeroPayload⟩, .send,
    .poll, .receive 4 ⟨0, -1, zeroPayload⟩,
    .receive 4 ⟨1, -1, zeroPayload⟩, .hangup 4, .hangup 4]

/-- A single client's connection is kept apart. -/
theorem connections_separate_one_client :
    ∃ peer records final,
      served oneClient = some (peer, records, final) ∧
        ∀ record ∈ records, KeptApart record := by
  rcases Option.isSome_iff_exists.mp
      (show (served oneClient).isSome = true by decide) with
    ⟨⟨peer, records, final⟩, computed⟩
  have addressed :
      (served oneClient).map
        (fun result =>
          result.2.1.all fun record => decide (Addressed record)) =
        some true := by
    decide
  simp only [computed, Option.map_some, Option.some.injEq,
    List.all_eq_true, decide_eq_true_eq] at addressed
  rcases served_sound computed with ⟨started, run⟩
  exact
    ⟨peer, records, final, computed,
      (connections_separate_iff 1 zeroed zeroed [104, 105] peer started
        ⟨0, 0, zeroPayload⟩ records final run).mpr addressed⟩

/--
Clients on 4 and 5 have connected; packet 0 from 4 is acknowledged on 5, from
where nothing has been received.
-/
theorem acknowledgement_on_other_connection :
    ¬ ∀ (window : Int) (datato datafrom : Buffer) (file : List Byte)
        (peer : Peer) (incomming : Pack)
        (records : List (Record ServerHistory ServerEvent))
        (final : ServerHistory),
        Peer.start window datato datafrom file = some peer →
        Run ServerStep ⟨Server.start peer incomming, [], [], none⟩
          records final →
          ∀ record ∈ records, KeptApart record := by
  intro claim
  let inputs : List ServerInput :=
    [.poll, .accept 4, .accept 5, .poll,
      .receive 4 ⟨0, -1, zeroPayload⟩]
  rcases Option.isSome_iff_exists.mp
      (show (served inputs).isSome = true by decide) with
    ⟨⟨peer, records, final⟩, computed⟩
  have misdirected :
      (served inputs).map
        (fun result =>
          result.2.1.any fun record =>
            record.label.acks.any fun ack =>
              record.after.received.all fun carried =>
                decide (carried.connection ≠ ack.connection)) =
        some true := by
    decide
  simp only [computed, Option.map_some, Option.some.injEq,
    List.any_eq_true, List.all_eq_true, decide_eq_true_eq]
    at misdirected
  rcases misdirected with ⟨record, recorded, ack, written, elsewhere⟩
  rcases served_sound computed with ⟨started, run⟩
  have apart := claim 1 zeroed zeroed [104, 105] peer
    ⟨0, 0, zeroPayload⟩ records final started run record recorded
  rcases apart.1 ack written with ⟨carried, member, connection, _⟩
  exact elsewhere carried member connection

end NetworkingLab.SelectiveRepeat
