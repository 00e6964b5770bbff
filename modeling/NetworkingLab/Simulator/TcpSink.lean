import NetworkingLab.Simulator.ReceiveWindow
import NetworkingLab.Simulator.TimerHandler

/-!
# TCP sinks

`TcpSink` answers every packet with an acknowledgement that names the last
packet before the first gap.  `DelAckSink` keeps the answer to a packet that
came in order back until a second one comes or its timer expires.

The sink is one object beside the scheduler.  `DelAckSink.step` is what can
happen to it: a packet is handed to it, it is reset, its timer expires in a
round of the scheduler, or other code uses the scheduler.

Sending an acknowledgement hands it to the target of the sink, and the target
is taken to return before the sink is used again, as a link does that books
the arrival with the scheduler: what it books follows as calls of other code.
A target that hands the sink a packet from inside `send` (a sender on the same
node) is not covered.
-/

namespace NetworkingLab.Simulator

open NetworkingLab.Foundation.Machines

/-- `hdr_flags`, as far as the sink reads or writes it. -/
structure Flags where
  ect : Bool
  ce : Bool
  congAction : Bool
  ecnEcho : Bool
  deriving DecidableEq

/-- A data packet. -/
structure DataPacket (Time : Type*) where
  seqno : Int
  size : Int
  ts : Time
  flowid : Int
  flags : Flags

/-- An acknowledgement. -/
structure Ack (Time : Type*) where
  seqno : Int
  ts : Time
  tsEcho : Time
  flowid : Int
  ecnEcho : Bool
  ect : Bool

/-- The bound variables of a sink. -/
structure SinkOptions (Time : Type*) where
  tsEchoBugfix : Bool
  tsEchoRfc1323 : Bool
  immediateAck : Bool
  synImmediateAck : Bool
  ecnSyn : Bool
  interval : Time

/-- `class TcpSink`. -/
structure TcpSink (Time : Type*) where
  acker : Acker Time
  save : Option (DataPacket Time)
  bytes : Int
  lastreset : Time

/-- The packet as the window sees it. -/
def DataPacket.arrival {Time : Type*} (packet : DataPacket Time) :
    Arrival :=
  ⟨packet.seqno, packet.size⟩

namespace TcpSink

variable {Time : Type*} [LinearOrder Time]

/-- `TcpSink(new Acker)`. -/
def start [Zero Time] : TcpSink Time :=
  ⟨Acker.start, none, 0, 0⟩

/-- `reset`. -/
def reset (now : Time) (sink : TcpSink Time) : TcpSink Time :=
  { sink with
    acker := sink.acker.reset
    save := none
    lastreset := now }

/-- `update_ts`, `update` and `recvBytes`. -/
def accept (options : SinkOptions Time) (packet : DataPacket Time)
    (sink : TcpSink Time) : Option (TcpSink Time) :=
  let stamped := sink.acker.updateTs packet.seqno packet.ts
    options.tsEchoRfc1323
  (stamped.update packet.arrival).map fun result =>
    { sink with acker := result.1, bytes := sink.bytes + result.2 }

/-- `ack`, with the packet it sends. -/
def ack (options : SinkOptions Time) (now : Time)
    (opkt : DataPacket Time) (sink : TcpSink Time) :
    Ack Time × TcpSink Time :=
  let of := opkt.flags
  let saved (flag : Flags → Bool) : Bool :=
    (sink.save.map fun packet => flag packet.flags).getD false
  let answered :=
    if saved (·.congAction) || of.congAction then
      false
    else
      sink.acker.ecnUnacked
  let ecnUnacked :=
    if saved (fun sf => sf.ect && sf.ce) || (of.ect && of.ce) then
      true
    else
      answered
  let negotiation :=
    (!of.ect && of.ecnEcho) || saved fun sf => !sf.ect && sf.ecnEcho
  let tsEcho :=
    if options.tsEchoBugfix then sink.acker.tsToEcho else opkt.ts
  let ecnEcho :=
    if negotiation then
      true
    else if saved (·.ect) || of.ect then
      ecnUnacked
    else
      false
  (⟨sink.acker.seqno, now, tsEcho, opkt.flowid, ecnEcho,
      negotiation && options.ecnSyn⟩,
    { sink with
      acker :=
        { sink.acker with
          ecnUnacked := ecnUnacked
          lastAckSent := sink.acker.seqno } })

/-- `TcpSink::recv`; a packet of an earlier incarnation is dropped. -/
def recv (options : SinkOptions Time) (now : Time)
    (packet : DataPacket Time) (sink : TcpSink Time) :
    Option (Option (Ack Time) × TcpSink Time) :=
  if packet.ts < sink.lastreset then
    some (none, sink)
  else
    (sink.accept options packet).map fun accepted =>
      let result := accepted.ack options now packet
      (some result.1, result.2)

end TcpSink

/-! ## `DelAckSink` -/

/-- A sink that delays its answers, with its timer. -/
structure DelAckSink (Address Time Handler : Type*) where
  timer : TimerHandler Address Time Handler
  sink : TcpSink Time

/-- The ways a step of a delaying sink can fail. -/
inductive SinkAbort where
  | timer (abort : TimerAbort)
  | stuck
  deriving DecidableEq

/-- What happens to a delaying sink. -/
inductive SinkStep (Address Time Handler : Type*) where
  | recv (packet : DataPacket Time)
  | reset
  | foreign (call : Call Address Time Handler)
  | turn

/-- What can be seen of a step. -/
inductive SinkReply (Time : Type*) where
  | discarded
  | received (packet : DataPacket Time) (ack : Option (Ack Time))
  | reset
  | expired (ack : Option (Ack Time))
  | other

namespace DelAckSink

variable
    {Address Time Handler : Type*} [DecidableEq Address]
    [LinearOrder Time] [Zero Time] [Add Time]

def start : DelAckSink Address Time Handler :=
  ⟨TimerHandler.start, TcpSink.start⟩

variable (options : SinkOptions Time) (this : Handler) (event : Address)

/-- The end of `recv`: the answer is sent, also to the saved packet. -/
def answer (packet : DataPacket Time)
    (state : DelAckSink Address Time Handler) :
    SinkReply Time × DelAckSink Address Time Handler :=
  let result := state.sink.ack options state.timer.scheduler.clock packet
  (.received packet (some result.1),
    ⟨state.timer, { result.2 with save := none }⟩)

/-- `timeout`. -/
def timeout (now : Time) (sink : TcpSink Time) :
    Option (Ack Time) × TcpSink Time :=
  match sink.save with
  | none => (none, sink)
  | some packet =>
      let result := sink.ack options now packet
      (some result.1, { result.2 with save := none })

/-- Whether the answer to an accepted packet is kept back. -/
def delays (packet : DataPacket Time) (status : TimerStatus)
    (sink : TcpSink Time) : Bool :=
  status != .pending && packet.seqno == sink.acker.seqno &&
    !(options.immediateAck &&
      decide (packet.seqno < sink.acker.maxseen)) &&
    !(options.synImmediateAck && packet.seqno == 0)

/-- `recv`. -/
def recv (packet : DataPacket Time)
    (state : DelAckSink Address Time Handler) :
    Except SinkAbort
      (SinkReply Time × DelAckSink Address Time Handler) :=
  if packet.ts < state.sink.lastreset then
    .ok (.discarded, state)
  else
    match state.sink.accept options packet with
    | none => .error .stuck
    | some sink =>
        if delays options packet state.timer.status sink then
          match state.timer.resched this event options.interval with
          | .error abort => .error (.timer abort)
          | .ok timer =>
              .ok (.received packet none,
                ⟨timer, { sink with save := some packet }⟩)
        else if state.timer.status = .pending then
          match state.timer.cancel event with
          | .error abort => .error (.timer abort)
          | .ok timer => .ok (answer options packet ⟨timer, sink⟩)
        else
          .ok (answer options packet ⟨state.timer, sink⟩)

/-- `reset`. -/
def reset (state : DelAckSink Address Time Handler) :
    Except SinkAbort
      (SinkReply Time × DelAckSink Address Time Handler) :=
  let sink := state.sink.reset state.timer.scheduler.clock
  if state.timer.status = .pending then
    match state.timer.cancel event with
    | .error abort => .error (.timer abort)
    | .ok timer => .ok (.reset, ⟨timer, sink⟩)
  else
    .ok (.reset, ⟨state.timer, sink⟩)

/-- `expire` of the timer when its event has been dispatched. -/
def dispatched [DecidableEq Handler]
    (state : DelAckSink Address Time Handler) :
    Reply Address Time Handler →
      Except SinkAbort
        (SinkReply Time × DelAckSink Address Time Handler)
  | .dispatched booked =>
      if booked.handler = some this then
        match state.timer.handle
            (fun timer (client : Option (Ack Time) × TcpSink Time) =>
              .ok (timer, timeout options timer.scheduler.clock client.2))
            (none, state.sink) with
        | .error abort => .error (.timer abort)
        | .ok (timer, ack, sink) => .ok (.expired ack, ⟨timer, sink⟩)
      else
        .ok (.other, state)
  | _ => .ok (.other, state)

/-- One step. -/
def step [DecidableEq Handler] :
    Machine (DelAckSink Address Time Handler)
      (SinkStep Address Time Handler) (SinkReply Time) SinkAbort
  | state, .recv packet => recv options this event packet state
  | state, .reset => reset event state
  | state, .foreign call =>
      match state.timer.perform call state.timer.status with
      | .error abort => .error (.timer abort)
      | .ok timer => .ok (.other, { state with timer := timer })
  | state, .turn =>
      match listPerform state.timer.scheduler .turn with
      | .error abort => .error (.timer (.scheduler abort))
      | .ok (reply, next) =>
          dispatched options this
            ⟨⟨state.timer.status, next⟩, state.sink⟩ reply

end DelAckSink

end NetworkingLab.Simulator
