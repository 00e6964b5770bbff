import NetworkingLab.SelectiveRepeat.SendPacket

/-!
# One peer: handlers, dispatch and start-up

`ackprocess` marks a slot of `datato` and moves the base over the
acknowledged run; `dataprocess` stores a packet in `datafrom` unless its slot
is already filled.  The receive branch of `main` runs two independent tests on
the fields of the pack it read: -1 in `sno` means an acknowledgement, -1 in
`ackno` means data, and data is answered with an acknowledgement whose payload
bytes are never written.

The server and the client share this code; they differ in the socket that
carries the answer.
-/

namespace NetworkingLab.SelectiveRepeat

open NetworkingLab.Foundation.CString

/-! ## `ackprocess` -/

/-- The loop of `ackprocess`, with the number of slots left up to 100. -/
def advanceBase (buffer : Buffer) : Nat → Int → Int → Option Int
  | 0, _, base => some base
  | slots + 1, i, base =>
      match readSlot buffer i with
      | none => none
      | some slot =>
          if slot.ackno = 1 then
            advanceBase buffer slots (i + 1) (base + 1)
          else
            some base

/-- The assignment `(buffer+acknno)->ackno = 1`. -/
def acknowledge (buffer : Buffer) (j : Fin 100) : Buffer :=
  Function.update buffer j { buffer j with ackno := 1 }

/-- `ackprocess`. -/
def ackprocess (packet : Pack) (buffer : Buffer) (base : Int) :
    Option (Buffer × Int) :=
  match slotIndex packet.ackno with
  | none => none
  | some j =>
      (advanceBase (acknowledge buffer j) (100 - base).toNat base base).map
        fun base => (acknowledge buffer j, base)

theorem acknowledge_ackno (buffer : Buffer) (j k : Fin 100) :
    (acknowledge buffer j k).ackno =
      if k = j then 1 else (buffer k).ackno := by
  by_cases same : k = j
  · subst same
    simp [acknowledge]
  · simp [acknowledge, same]

/-- The base only moves forward. -/
theorem advanceBase_le
    {buffer : Buffer} {slots : Nat} {i start stop : Int}
    (run : advanceBase buffer slots i start = some stop) :
    start ≤ stop := by
  induction slots generalizing i start with
  | zero => exact Int.le_of_eq (Option.some.inj run)
  | succ slots induction =>
      simp only [advanceBase] at run
      split at run
      · cases run
      · split at run
        · have later := induction run
          omega
        · exact Int.le_of_eq (Option.some.inj run)

/-- The base moves over the acknowledged run and stops at its end. -/
theorem advanceBase_spec
    (buffer : Buffer) (slots base : Nat) (full : base + slots = 100) :
    ∃ stop : Nat,
      advanceBase buffer slots base base = some (stop : Int) ∧
        base ≤ stop ∧ stop ≤ 100 ∧
        (∀ k : Fin 100, base ≤ (k : Nat) → (k : Nat) < stop →
          (buffer k).ackno = 1) ∧
        ∀ k : Fin 100, (k : Nat) = stop → (buffer k).ackno ≠ 1 := by
  induction slots generalizing base with
  | zero =>
      refine ⟨base, rfl, Nat.le_refl _, by omega, ?_, ?_⟩
      · intro k lower upper
        omega
      · intro k equal
        have := k.isLt
        omega
  | succ slots induction =>
      have inside : base < 100 := by omega
      have read := readSlot_coe buffer ⟨base, inside⟩
      simp only at read
      by_cases acked : (buffer ⟨base, inside⟩).ackno = 1
      · obtain ⟨stop, run, lower, upper, below, atStop⟩ :=
          induction (base + 1) (by omega)
        push_cast at run
        refine ⟨stop, ?_, by omega, upper, ?_, atStop⟩
        · simp [advanceBase, read, acked, run]
        · intro k first last
          by_cases here : (k : Nat) = base
          · have slot : k = ⟨base, inside⟩ := Fin.ext here
            rw [slot]
            exact acked
          · exact below k (by omega) last
      · refine ⟨base, ?_, Nat.le_refl _, by omega, ?_, ?_⟩
        · simp [advanceBase, read, acked]
        · intro k lower upper
          omega
        · intro k equal
          have slot : k = ⟨base, inside⟩ := Fin.ext equal
          rw [slot]
          exact acked

/-- Inversion of a defined call. -/
theorem ackprocess_cases
    {packet : Pack} {buffer marked : Buffer} {base stop : Int}
    (call : ackprocess packet buffer base = some (marked, stop)) :
    ∃ j : Fin 100, packet.ackno = (j : Nat) ∧
      marked = acknowledge buffer j ∧
      advanceBase (acknowledge buffer j) (100 - base).toNat base base =
        some stop := by
  simp only [ackprocess] at call
  split at call
  · cases call
  · next j index =>
      simp only [Option.map_eq_some_iff, Prod.mk.injEq] at call
      rcases call with ⟨_, run, rfl, rfl⟩
      exact ⟨j, (slotIndex_eq_some_iff _ _).mp index, rfl, run⟩

/-- No call moves the base back. -/
theorem ackprocess_le
    {packet : Pack} {buffer marked : Buffer} {base stop : Int}
    (call : ackprocess packet buffer base = some (marked, stop)) :
    base ≤ stop := by
  rcases ackprocess_cases call with ⟨_, _, _, run⟩
  exact advanceBase_le run

/-- The complete effect of an acknowledgement for slot `j`. -/
theorem ackprocess_spec
    (buffer : Buffer) (j : Fin 100)
    {packet : Pack} (number : packet.ackno = (j : Nat))
    {base : Nat} (inside : base ≤ 100) :
    ∃ stop : Nat,
      ackprocess packet buffer base =
          some (acknowledge buffer j, (stop : Int)) ∧
        base ≤ stop ∧ stop ≤ 100 ∧
        (∀ k : Fin 100, base ≤ (k : Nat) → (k : Nat) < stop →
          (acknowledge buffer j k).ackno = 1) ∧
        ∀ k : Fin 100, (k : Nat) = stop →
          (acknowledge buffer j k).ackno ≠ 1 := by
  obtain ⟨stop, run, lower, upper, below, atStop⟩ :=
    advanceBase_spec (acknowledge buffer j) (100 - base) base (by omega)
  have slots : ((100 : Int) - base).toNat = 100 - base := by omega
  refine ⟨stop, ?_, lower, upper, below, atStop⟩
  simp [ackprocess, number, slots, run]

/-! ## `dataprocess` -/

/-- `dataprocess`.  Its return value is 1 on both paths. -/
def dataprocess (packet : Pack) (buffer : Buffer) : Option Buffer :=
  match slotIndex packet.sno with
  | none => none
  | some j =>
      if (buffer j).ackno = 1 then
        some buffer
      else
        match (buffer j).payload.copyFrom packet.payload.bytes with
        | none => none
        | some payload =>
            some (Function.update buffer j
              { buffer j with ackno := 1, payload := payload })

theorem dataprocess_duplicate
    {packet : Pack} {buffer : Buffer} {j : Fin 100}
    (number : packet.sno = (j : Nat))
    (filled : (buffer j).ackno = 1) :
    dataprocess packet buffer = some buffer := by
  simp [dataprocess, number, filled]

/-- A packet for a free slot is stored there. -/
theorem dataprocess_store
    {packet : Pack} {buffer : Buffer} {j : Fin 100}
    (number : packet.sno = (j : Nat))
    (free : (buffer j).ackno ≠ 1)
    (terminated : packet.payload.Terminated) :
    ∃ payload : Payload,
      payload.text = packet.payload.text ∧
        dataprocess packet buffer =
          some (Function.update buffer j
            { buffer j with ackno := 1, payload := payload }) := by
  have short : (cString packet.payload.bytes).length < 20 := by
    have := cString_length_lt terminated
    rwa [packet.payload.size] at this
  obtain ⟨payload, copy⟩ :=
    (buffer j).payload.copyFrom_isSome terminated short
  refine ⟨payload, Payload.copyFrom_text copy, ?_⟩
  simp [dataprocess, number, free, copy]

/--
Inversion of a defined call: the slot of the packet ends up filled, no other
slot changes, and the slot's text is the packet's unless it was filled before.
-/
theorem dataprocess_cases
    {packet : Pack} {buffer stored : Buffer}
    (call : dataprocess packet buffer = some stored) :
    ∃ j : Fin 100, packet.sno = (j : Nat) ∧
      (stored j).ackno = 1 ∧
      (∀ k : Fin 100, k ≠ j → stored k = buffer k) ∧
      ((buffer j).ackno = 1 ∧ stored = buffer ∨
        (buffer j).ackno ≠ 1 ∧
          (stored j).payload.text = packet.payload.text) := by
  unfold dataprocess at call
  cases index : slotIndex packet.sno with
  | none => simp [index] at call
  | some j =>
      have number := (slotIndex_eq_some_iff _ _).mp index
      refine ⟨j, number, ?_⟩
      by_cases filled : (buffer j).ackno = 1
      · simp only [index, filled, if_true, Option.some.injEq] at call
        subst call
        exact ⟨filled, fun _ _ => rfl, Or.inl ⟨filled, rfl⟩⟩
      · cases copy :
            (buffer j).payload.copyFrom packet.payload.bytes with
        | none => simp [index, filled, copy] at call
        | some payload =>
            simp only [index, filled, if_false, copy,
              Option.some.injEq] at call
            subst call
            refine ⟨by simp, ?_, Or.inr ⟨filled, ?_⟩⟩
            · intro k other
              exact Function.update_of_ne other _ _
            · rw [Function.update_self]
              exact Payload.copyFrom_text copy

/-! ## Dispatch and start-up -/

/-- The variables of `main` on the sending side. -/
structure Sender where
  window : Int
  datato : Buffer
  counters : Counters
  running : Bool

/-- The variables of `main` that the handlers and `sendpacket` use. -/
structure Peer extends Sender where
  datafrom : Buffer

/-- The call of `sendpacket` in `main`; `exit(0)` stops the process. -/
def Sender.send (sender : Sender) :
    Option (Sender × List Transmission) :=
  (sendpacket sender.datato sender.window sender.counters).map
    fun result =>
      ({ sender with
          counters := result.counters
          running := !result.exits },
        result.sent)

/-- The result of `sendpacket` decides the result of the call in `main`. -/
theorem Sender.send_returns
    {count : Nat} {sender : Sender} {result : SendResult}
    {counters : Counters} (found : sender.counters = counters)
    (call : Returns count
      (sendpacket sender.datato sender.window counters) result) :
    Returns count sender.send
      ({ sender with
          counters := result.counters
          running := !result.exits },
        result.sent) := by
  subst found
  exact call.map _

/-- Inversion of the call. -/
theorem Sender.send_cases
    {sender next : Sender} {sent : List Transmission}
    (call : sender.send = some (next, sent)) :
    ∃ result,
      sendpacket sender.datato sender.window sender.counters =
          some result ∧
        next = { sender with
          counters := result.counters
          running := !result.exits } ∧
        sent = result.sent := by
  simp only [Sender.send, Option.map_eq_some_iff, Prod.mk.injEq] at call
  rcases call with ⟨result, defined, rfl, rfl⟩
  exact ⟨result, defined, rfl, rfl⟩

theorem Sender.send_window
    {sender next : Sender} {sent : List Transmission}
    (call : sender.send = some (next, sent)) :
    next.window = sender.window := by
  rcases Sender.send_cases call with ⟨_, _, rfl, _⟩
  rfl

theorem Sender.send_datato
    {sender next : Sender} {sent : List Transmission}
    (call : sender.send = some (next, sent)) :
    next.datato = sender.datato := by
  rcases Sender.send_cases call with ⟨_, _, rfl, _⟩
  rfl

/-- The call of `ackprocess` in `main`. -/
def Sender.receiveAck (sender : Sender) (incomming : Pack) :
    Option Sender :=
  (ackprocess incomming sender.datato sender.counters.base).map
    fun result =>
      { sender with
        datato := result.1
        counters := { sender.counters with base := result.2 } }

/-- Inversion of the call. -/
theorem Sender.receiveAck_cases
    {sender next : Sender} {incomming : Pack}
    (call : sender.receiveAck incomming = some next) :
    ∃ datato base,
      ackprocess incomming sender.datato sender.counters.base =
          some (datato, base) ∧
        next = { sender with
          datato := datato
          counters := { sender.counters with base := base } } := by
  simp only [Sender.receiveAck, Option.map_eq_some_iff] at call
  rcases call with ⟨⟨datato, base⟩, defined, rfl⟩
  exact ⟨datato, base, defined, rfl⟩

theorem Sender.receiveAck_window
    {sender next : Sender} {packet : Pack}
    (call : sender.receiveAck packet = some next) :
    next.window = sender.window := by
  rcases Sender.receiveAck_cases call with ⟨_, _, _, rfl⟩
  rfl

/-- `ackpacket`; its payload is whatever the stack slot held. -/
def ackpacket (junk : Payload) (incomming : Pack) : Pack :=
  ⟨-1, incomming.sno, junk⟩

/-- The branch `if(incomming.sno == -1)`. -/
def dispatchAck (incomming : Pack) (peer : Peer) : Option Peer :=
  if incomming.sno = -1 then
    (peer.toSender.receiveAck incomming).map
      fun sender => { peer with toSender := sender }
  else
    some peer

/-- The branch `if(incomming.ackno == -1)`, with the pack it sends. -/
def dispatchData (junk : Payload) (incomming : Pack) (peer : Peer) :
    Option (Peer × List Pack) :=
  if incomming.ackno = -1 then
    (dataprocess incomming peer.datafrom).map
      fun datafrom =>
        ({ peer with datafrom := datafrom }, [ackpacket junk incomming])
  else
    some (peer, [])

/-- The two tests of `main` behind `recv`, in their order. -/
def dispatch (junk : Payload) (incomming : Pack) (peer : Peer) :
    Option (Peer × List Pack) :=
  match dispatchAck incomming peer with
  | none => none
  | some peer => dispatchData junk incomming peer

/-- `Sender.send` on a whole peer, with the packs it puts on the wire. -/
def Peer.send (peer : Peer) : Option (Peer × List Pack) :=
  peer.toSender.send.map
    fun result =>
      ({ peer with toSender := result.1 },
        result.2.map Transmission.packet)

theorem Peer.send_cases
    {peer next : Peer} {packs : List Pack}
    (call : peer.send = some (next, packs)) :
    ∃ sender sent, peer.toSender.send = some (sender, sent) ∧
      next = { peer with toSender := sender } ∧
      packs = sent.map Transmission.packet := by
  simp only [Peer.send, Option.map_eq_some_iff, Prod.mk.injEq] at call
  rcases call with ⟨⟨sender, sent⟩, defined, rfl, rfl⟩
  exact ⟨sender, sent, defined, rfl, rfl⟩

theorem Peer.send_window
    {peer next : Peer} {packs : List Pack}
    (call : peer.send = some (next, packs)) :
    next.window = peer.window := by
  rcases Peer.send_cases call with ⟨_, _, defined, rfl, _⟩
  exact Sender.send_window defined

theorem dispatch_window
    {junk : Payload} {incomming : Pack} {peer next : Peer}
    {replies : List Pack}
    (call : dispatch junk incomming peer = some (next, replies)) :
    next.window = peer.window := by
  have acked : ∀ {middle : Peer},
      dispatchAck incomming peer = some middle →
        middle.window = peer.window := by
    intro middle first
    simp only [dispatchAck] at first
    split at first
    · rcases Option.map_eq_some_iff.mp first with ⟨_, handled, rfl⟩
      exact Sender.receiveAck_window handled
    · cases first
      rfl
  simp only [dispatch] at call
  split at call
  · cases call
  · next middle first =>
      rw [← acked first]
      simp only [dispatchData] at call
      split at call
      · rcases Option.map_eq_some_iff.mp call with ⟨_, _, same⟩
        cases same
        rfl
      · cases call
        rfl

/--
The set-up part of `main`: both blocks as `malloc` returned them, then
`makeinvalid` and `makepackets`.
-/
def Peer.start (window : Int) (datato datafrom : Buffer)
    (file : List Byte) : Option Peer :=
  (makepackets (makeinvalid datato) file).map
    fun packets =>
      { window
        datato := packets
        counters := ⟨-1, 0⟩
        running := true
        datafrom := makeinvalid datafrom }

theorem Peer.start_datafrom
    {window : Int} {datato datafrom : Buffer}
    {file : List Byte} {peer : Peer}
    (started : Peer.start window datato datafrom file = some peer) :
    peer.datafrom = makeinvalid datafrom := by
  simp only [Peer.start, Option.map_eq_some_iff] at started
  rcases started with ⟨packets, _, rfl⟩
  rfl

theorem Peer.start_window
    {window : Int} {datato datafrom : Buffer}
    {file : List Byte} {peer : Peer}
    (started : Peer.start window datato datafrom file = some peer) :
    peer.window = window := by
  simp only [Peer.start, Option.map_eq_some_iff] at started
  rcases started with ⟨packets, _, rfl⟩
  rfl

/-- A file that `makepackets` can prepare has at most 100 packets. -/
theorem Peer.start_fits
    {window : Int} {datato datafrom : Buffer}
    {file : List Byte} {peer : Peer}
    (started : Peer.start window datato datafrom file = some peer) :
    packetCount file ≤ 100 := by
  by_contra long
  have outside : makepackets (makeinvalid datato) file = none := by
    have left := makepacketsLoop_outside 101 0 file (makeinvalid datato)
      (by omega)
    exact_mod_cast left
  rw [Peer.start, outside] at started
  cases started

theorem Peer.start_cases
    {window : Int} {datato datafrom : Buffer}
    {file : List Byte} {peer : Peer}
    (started : Peer.start window datato datafrom file = some peer) :
    ∃ packets, Prepared file packets ∧
      peer.toSender = ⟨window, packets, ⟨-1, 0⟩, true⟩ ∧
      peer.datafrom = makeinvalid datafrom := by
  rcases makepackets_prepared datato file (Peer.start_fits started) with
    ⟨packets, made, prepared⟩
  simp only [Peer.start, made, Option.map_some, Option.some.injEq]
    at started
  subst started
  exact ⟨packets, prepared, rfl, rfl⟩

end NetworkingLab.SelectiveRepeat
