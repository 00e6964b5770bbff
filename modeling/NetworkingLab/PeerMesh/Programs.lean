import Mathlib.Logic.Function.Basic
import NetworkingLab.Foundation.CString

/-!
# The four peers

Four programs on one host connect to each other and exchange the chunks of
their files.  They differ in the calls before their loop and in the connection
that each of them makes once it has accepted one; `Program` holds what differs,
and `Step` is one call of one of the programs.

Connections are blocking, and a descriptor is added to the set of the
readable ones as soon as it is accepted, so the scan that accepts it goes on
to receive from it.
-/

namespace NetworkingLab.PeerMesh

open NetworkingLab.Foundation.CString

inductive PeerId where
  | peer1
  | peer2
  | peer3
  | peer4
  deriving DecidableEq

/-- The sockets for the connections that a program makes. -/
inductive Socket where
  | p2
  | p3
  | p4
  deriving DecidableEq

/-- A call before the loop.  The result of a `connect` may be checked. -/
inductive Call where
  | connect (socket : Socket) (target : PeerId) (checked : Bool)
  | accept
  deriving DecidableEq

/--
A program: the calls before its loop, the connection that it makes in the loop
when it has counted so many others, and whether it sends chunks.
-/
structure Program where
  setup : List Call
  answer : Nat → Option (Socket × PeerId)
  sends : Bool

def peer1 : Program where
  setup := []
  answer := fun connections =>
    if connections = 0 then
      some (.p2, .peer2)
    else if connections = 1 then
      some (.p3, .peer3)
    else if connections = 2 then
      some (.p4, .peer4)
    else
      none
  sends := true

def peer2 : Program where
  setup := [.connect .p4 .peer1 false]
  answer := fun connections =>
    if connections = 1 then
      some (.p2, .peer3)
    else if connections = 2 then
      some (.p3, .peer4)
    else
      none
  sends := true

def peer3 : Program where
  setup := [.connect .p3 .peer1 true, .accept, .connect .p4 .peer2 false]
  answer := fun connections =>
    if connections = 2 then
      some (.p2, .peer4)
    else
      none
  sends := true

/-- Its sends are commented out. -/
def peer4 : Program where
  setup :=
    [.connect .p2 .peer1 true, .accept, .connect .p3 .peer2 true, .accept,
      .connect .p4 .peer3 false]
  answer := fun _ => none
  sends := false

def program : PeerId → Program
  | .peer1 => peer1
  | .peer2 => peer2
  | .peer3 => peer3
  | .peer4 => peer4

/-! ## States -/

/-- The next call of a process. -/
inductive Phase where
  | idle
  | setup (later : List Call)
  | selecting
  | scanning (i : Nat)
  -- a connection was accepted and is answered before it is counted
  | answering (i : Nat)
  | sending (i : Nat) (buffer : List Byte) (later : List Socket)
  | exited
  deriving DecidableEq

/-- From its start to its end a process listens. -/
def Phase.listens : Phase → Bool
  | .idle => false
  | .exited => false
  | _ => true

/--
A process.  `opened` are its descriptors in use, `connected` the peers that
its sockets are connected to, `fp` what is left of its file, and `appended`
what it has appended to its `rcv` file.
-/
structure Peer where
  phase : Phase
  connections : Nat
  lispeer : Nat
  fdmax : Nat
  readFds : List Nat
  opened : List Nat
  connected : Socket → Option PeerId
  fp : List Byte
  appended : List Byte

/--
A connection: who made it with which socket, its descriptor once it is
accepted, and the bytes that are sent but not received.
-/
structure Link where
  source : PeerId
  socket : Socket
  target : PeerId
  fd : Option Nat
  inFlight : List Byte

structure Mesh where
  peers : PeerId → Peer
  links : List Link

def Peer.enter (peer : Peer) (phase : Phase) : Peer :=
  { peer with phase := phase }

/-- `FD_SET` for an accepted descriptor. -/
def Peer.register (peer : Peer) (newfd : Nat) : Peer :=
  { peer with
    readFds := newfd :: peer.readFds
    opened := newfd :: peer.opened
    fdmax := max peer.fdmax newfd }

def Peer.count (peer : Peer) : Peer :=
  { peer with connections := peer.connections + 1 }

/--
What follows a `recv` at descriptor `i`: the next chunk of the file is read
into a block from `malloc` and sent to three peers.
-/
def Peer.exchange (peer : Peer) (sends : Bool) (i : Nat)
    (block : List Byte) : Peer :=
  if peer.connections = 3 ∧ sends then
    { peer with
      fp := peer.fp.drop 4
      phase :=
        .sending i (overwrite (peer.fp.take 4) block) [.p2, .p3, .p4] }
  else
    peer.enter (.scanning (i + 1))

/-- A step of one process, and the connections after it. -/
def Mesh.update (mesh : Mesh) (p : PeerId) (peer : Peer)
    (links : List Link) : Mesh where
  peers := Function.update mesh.peers p peer
  links := links

/-- A `connect` succeeds if its target listens. -/
def Mesh.connect (mesh : Mesh) (p : PeerId) (socket : Socket)
    (target : PeerId) (peer : Peer) : Mesh :=
  if (mesh.peers target).phase.listens then
    mesh.update p
      { peer with
        connected := Function.update peer.connected socket (some target) }
      (mesh.links ++ [⟨p, socket, target, none, []⟩])
  else
    mesh.update p peer mesh.links

/-- The descriptor is found readable by `select`. -/
def Ready (mesh : Mesh) (p : PeerId) (fd : Nat) : Prop :=
  (fd = (mesh.peers p).lispeer ∧
      ∃ link ∈ mesh.links, link.target = p ∧ link.fd = none) ∨
    ∃ link ∈ mesh.links, link.target = p ∧ link.fd = some fd ∧
      (link.inFlight ≠ [] ∨ (mesh.peers link.source).phase = .exited)

/-! ## Steps -/

inductive Label where
  | start (p : PeerId)
  | connect (p : PeerId)
  | accept (p : PeerId) (newfd : Nat)
  | enter (p : PeerId)
  | select (p : PeerId)
  | pass (p : PeerId)
  | receive (p : PeerId) (bytes : List Byte)
  | closed (p : PeerId)
  | send (p : PeerId)
  | broken (p : PeerId)

/-- A call of one of the processes that returns. -/
inductive Step : Mesh → Label → Mesh → Prop where
  | start
      {mesh : Mesh} {p : PeerId}
      (idle : (mesh.peers p).phase = .idle) :
      Step mesh (.start p)
        (mesh.update p
          ((mesh.peers p).enter (.setup (program p).setup)) mesh.links)
  | connect
      {mesh : Mesh} {p target : PeerId} {socket : Socket}
      {checked : Bool} {later : List Call}
      (next : (mesh.peers p).phase =
        .setup (.connect socket target checked :: later)) :
      Step mesh (.connect p)
        (mesh.connect p socket target
          ((mesh.peers p).enter
            (if checked ∧ ¬ (mesh.peers target).phase.listens then
              .exited
            else
              .setup later)))
  | accept
      {mesh : Mesh} {p : PeerId} {later : List Call}
      {front back : List Link} {link : Link} {newfd : Nat}
      (next : (mesh.peers p).phase = .setup (.accept :: later))
      (split : mesh.links = front ++ link :: back)
      (waits : link.target = p ∧ link.fd = none)
      (fresh : newfd ∉ (mesh.peers p).opened) :
      Step mesh (.accept p newfd)
        (mesh.update p
          (((mesh.peers p).register newfd).count.enter (.setup later))
          (front ++ { link with fd := some newfd } :: back))
  | enter
      {mesh : Mesh} {p : PeerId}
      (next : (mesh.peers p).phase = .setup []) :
      Step mesh (.enter p)
        (mesh.update p ((mesh.peers p).enter .selecting) mesh.links)
  | select
      {mesh : Mesh} {p : PeerId} {ready : List Nat}
      (next : (mesh.peers p).phase = .selecting)
      (found : ∀ fd,
        fd ∈ ready ↔ fd ∈ (mesh.peers p).readFds ∧ Ready mesh p fd)
      (some_ready : ready ≠ []) :
      Step mesh (.select p)
        (mesh.update p
          { mesh.peers p with readFds := ready, phase := .scanning 0 }
          mesh.links)
  | again
      {mesh : Mesh} {p : PeerId} {i : Nat}
      (next : (mesh.peers p).phase = .scanning i)
      (ended : (mesh.peers p).fdmax < i) :
      Step mesh (.pass p)
        (mesh.update p ((mesh.peers p).enter .selecting) mesh.links)
  | pass
      {mesh : Mesh} {p : PeerId} {i : Nat}
      (next : (mesh.peers p).phase = .scanning i)
      (inside : i ≤ (mesh.peers p).fdmax)
      (unset : i ∉ (mesh.peers p).readFds) :
      Step mesh (.pass p)
        (mesh.update p ((mesh.peers p).enter (.scanning (i + 1)))
          mesh.links)
  | accepted
      {mesh : Mesh} {p : PeerId} {i : Nat}
      {front back : List Link} {link : Link} {newfd : Nat}
      (next : (mesh.peers p).phase = .scanning i)
      (inside : i ≤ (mesh.peers p).fdmax)
      (set : i ∈ (mesh.peers p).readFds)
      (listening : i = (mesh.peers p).lispeer)
      (split : mesh.links = front ++ link :: back)
      (waits : link.target = p ∧ link.fd = none)
      (fresh : newfd ∉ (mesh.peers p).opened) :
      Step mesh (.accept p newfd)
        (mesh.update p
          (((mesh.peers p).register newfd).enter (.answering i))
          (front ++ { link with fd := some newfd } :: back))
  | answer
      {mesh : Mesh} {p target : PeerId} {socket : Socket} {i : Nat}
      (next : (mesh.peers p).phase = .answering i)
      (found : (program p).answer (mesh.peers p).connections =
        some (socket, target)) :
      Step mesh (.connect p)
        (mesh.connect p socket target
          ((mesh.peers p).count.enter (.scanning (i + 1))))
  | unanswered
      {mesh : Mesh} {p : PeerId} {i : Nat}
      (next : (mesh.peers p).phase = .answering i)
      (missing : (program p).answer (mesh.peers p).connections = none) :
      Step mesh (.pass p)
        (mesh.update p
          ((mesh.peers p).count.enter (.scanning (i + 1))) mesh.links)
  | receive
      {mesh : Mesh} {p : PeerId} {i : Nat}
      {front back : List Link} {link : Link}
      {bytes later block chunk : List Byte}
      (next : (mesh.peers p).phase = .scanning i)
      (inside : i ≤ (mesh.peers p).fdmax)
      (set : i ∈ (mesh.peers p).readFds)
      (other : i ≠ (mesh.peers p).lispeer)
      (split : mesh.links = front ++ link :: back)
      (reads : link.target = p ∧ link.fd = some i)
      (arrived : link.inFlight = bytes ++ later)
      (nonempty : bytes ≠ [])
      (short : bytes.length ≤ 4)
      -- what the two blocks hold before they are written
      (block_size : block.length = 4) (chunk_size : chunk.length = 4) :
      Step mesh (.receive p bytes)
        (mesh.update p
          ({ mesh.peers p with
              appended :=
                (mesh.peers p).appended ++ overwrite bytes block }.exchange
            (program p).sends i chunk)
          (front ++ { link with inFlight := later } :: back))
  | closed
      {mesh : Mesh} {p : PeerId} {i : Nat}
      {front back : List Link} {link : Link} {chunk : List Byte}
      (next : (mesh.peers p).phase = .scanning i)
      (inside : i ≤ (mesh.peers p).fdmax)
      (set : i ∈ (mesh.peers p).readFds)
      (other : i ≠ (mesh.peers p).lispeer)
      (split : mesh.links = front ++ link :: back)
      (reads : link.target = p ∧ link.fd = some i)
      (nothing : link.inFlight = [])
      (gone : (mesh.peers link.source).phase = .exited)
      (chunk_size : chunk.length = 4) :
      Step mesh (.closed p)
        (mesh.update p
          ({ mesh.peers p with
              readFds := (mesh.peers p).readFds.filter (· != i)
              opened := (mesh.peers p).opened.filter (· != i) }.exchange
            (program p).sends i chunk)
          (front ++ back))
  | send
      {mesh : Mesh} {p : PeerId} {i : Nat} {socket : Socket}
      {buffer : List Byte} {later : List Socket}
      {front back : List Link} {link : Link}
      (next : (mesh.peers p).phase = .sending i buffer (socket :: later))
      (split : mesh.links = front ++ link :: back)
      (writes : link.source = p ∧ link.socket = socket) :
      Step mesh (.send p)
        (mesh.update p
          ((mesh.peers p).enter (.sending i buffer later))
          (front ++ { link with inFlight := link.inFlight ++ buffer } ::
            back))
  | broken
      {mesh : Mesh} {p : PeerId} {i : Nat} {socket : Socket}
      {buffer : List Byte} {later : List Socket}
      (next : (mesh.peers p).phase = .sending i buffer (socket :: later))
      (lost : ∀ link ∈ mesh.links, link.source = p →
        link.socket = socket →
          (mesh.peers link.target).phase = .exited) :
      Step mesh (.broken p)
        (mesh.update p ((mesh.peers p).enter .exited) mesh.links)
  | sent
      {mesh : Mesh} {p : PeerId} {i : Nat} {buffer : List Byte}
      (next : (mesh.peers p).phase = .sending i buffer []) :
      Step mesh (.pass p)
        (mesh.update p ((mesh.peers p).enter (.scanning (i + 1)))
          mesh.links)

/-! ## Starts -/

/--
The descriptors of a process.  A new one is the lowest that is not in use, so
those below `lispeer` are in use when it is created.
-/
structure Descriptors where
  lispeer : Nat
  fdmax : Nat
  opened : List Nat
  below : ∀ fd, fd ≤ lispeer → fd ∈ opened

/-- The files of the peers and their descriptors. -/
structure Start where
  file : PeerId → List Byte
  descriptors : PeerId → Descriptors

def Start.peer (start : Start) (p : PeerId) : Peer where
  phase := .idle
  connections := 0
  lispeer := (start.descriptors p).lispeer
  fdmax := (start.descriptors p).fdmax
  readFds := [(start.descriptors p).lispeer]
  opened := (start.descriptors p).opened
  connected := fun _ => none
  fp := start.file p
  appended := []

/-- No program has been started. -/
def Start.mesh (start : Start) : Mesh where
  peers := start.peer
  links := []

end NetworkingLab.PeerMesh
