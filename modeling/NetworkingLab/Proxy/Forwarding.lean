import NetworkingLab.Foundation.Runs
import NetworkingLab.Proxy.Filter
import NetworkingLab.Proxy.Relay

/-!
# The requests that the proxy forwards

`getdata` receives a request into a block of 1000 bytes that `malloc` returns
and `free(data)` gives back at the end of the round, and the proxy sends all
1000 bytes to the origin server.  The bytes behind the request are those of an
earlier one if `malloc` returns its block again.

`upstream_determined` says when two runs send the same bytes for the same
request.
-/

namespace NetworkingLab.Proxy

open NetworkingLab.Foundation.CString
open NetworkingLab.Foundation.Runs
open NetworkingLab.Foundation.Scan

/-- A block from `malloc(1000)`. -/
structure Block where
  bytes : List Byte
  size : bytes.length = 1000

/-- A proxy whose `malloc` sees the blocks that `free(data)` has returned. -/
structure ProxyServer where
  rooms : Rooms
  offencive : Offencive
  malloc : List Block → Block

/-- A connection and what its round depends on beside the blocks. -/
structure Visit where
  request : List Byte
  fits : request.length ≤ 1000
  uri : List Byte
  network : Network
  chunks : List Chunk
  returndata : List Byte

/-- `getdata`: the request is received over the start of the block. -/
def getdata (block : Block) (visit : Visit) : Block where
  bytes := overwrite visit.request block.bytes
  size := by
    rw [length_overwrite (by rw [block.size]; exact visit.fits),
      block.size]

/-- The loop over the addresses, with the result of every `connect`. -/
def connectLoop (connect : InAddr → Int) :
    List InAddr → List (InAddr × Int)
  | [] => []
  | address :: later =>
      if 0 < connect address then
        [(address, connect address)]
      else
        (address, connect address) :: connectLoop connect later

/-- The host is found, and the last `connect` has not failed. -/
def Network.Connected (network : Network) (parsed : Parsed) : Prop :=
  ∃ addresses attempt,
    network.gethostbyname (cString parsed.host) = some addresses ∧
      (connectLoop (fun address =>
        network.connect address (.ofInt parsed.por)) addresses).getLast? =
          some attempt ∧
      0 ≤ attempt.2

/-- A round that has ended, with the bytes sent to both sides. -/
structure Exchange where
  visit : Visit
  upstream : List Byte
  downstream : List Byte

/--
A round of the loop of `main` that ends at its last line; in all other rounds
the process exits.  The state holds the blocks that were freed.
-/
inductive ProxyStep (proxy : ProxyServer) :
    List Block → Exchange → List Block → Prop where
  | serve {freed : List Block} {visit : Visit} {parsed : Parsed}
      {data : Block} {downstream : List Byte}
      (passed : handle proxy.rooms proxy.offencive.array visit.uri
        (getdata (proxy.malloc freed) visit).bytes =
          some (.passed parsed))
      (rewritten : data.bytes = parsed.data)
      (connected : visit.network.Connected parsed)
      (relayed : relay visit.chunks visit.returndata = some downstream) :
      ProxyStep proxy freed
        ⟨visit, data.bytes.take 1000, downstream⟩ (data :: freed)

/-- The bytes that `malloc` has left behind the request of a visit. -/
def ProxyServer.leftover (proxy : ProxyServer) (freed : List Block)
    (visit : Visit) : List Byte :=
  (proxy.malloc freed).bytes.drop visit.request.length

/-! ## One round -/

section Round

variable
    {proxy : ProxyServer} {freed next : List Block} {exchange : Exchange}

/-- The bytes sent are the request and what is left behind it, rewritten. -/
theorem ProxyStep.upstream_parsed
    (move : ProxyStep proxy freed exchange next) :
    ∃ parsed,
      parse proxy.rooms
          (exchange.visit.request ++
            proxy.leftover freed exchange.visit) = some parsed ∧
        exchange.upstream = parsed.data := by
  cases move with
  | @serve visit parsed data _ passed rewritten _ _ =>
      rcases (handle_eq_passed_iff _ _ _ _ _).mp passed with
        ⟨_, _, _, parses, _⟩
      refine ⟨_, parses, ?_⟩
      rw [← rewritten]
      exact List.take_of_length_le (Nat.le_of_eq data.size)

/-- Of a request that the loops read, the leftover is sent unchanged. -/
theorem ProxyStep.upstream_append
    (move : ProxyStep proxy freed exchange next) {parsed : Parsed}
    (parses : parse proxy.rooms exchange.visit.request = some parsed) :
    exchange.upstream =
      parsed.data ++ proxy.leftover freed exchange.visit := by
  rcases move.upstream_parsed with ⟨whole, run, sent⟩
  rw [parse_append parses] at run
  cases run
  exact sent

end Round

/-! ## Two runs -/

/-- A round that the proxy has ended, in a run. -/
abbrev Round := Record (List Block) Exchange

/--
Two runs that receive the same request send the same bytes if `malloc` has
left the same bytes behind it.  Where the loops end inside the request, they
send the same bytes in no other case.
-/
theorem upstream_determined
    {proxy : ProxyServer} {first second : List Round}
    {firstFreed secondFreed : List Block}
    (firstRun : Run (ProxyStep proxy) [] first firstFreed)
    (secondRun : Run (ProxyStep proxy) [] second secondFreed)
    {one other : Round} (inFirst : one ∈ first) (inSecond : other ∈ second)
    (same : one.label.visit.request = other.label.visit.request) :
    (proxy.leftover one.before one.label.visit =
          proxy.leftover other.before other.label.visit →
        one.label.upstream = other.label.upstream) ∧
      ((parse proxy.rooms one.label.visit.request).isSome →
        one.label.upstream = other.label.upstream →
          proxy.leftover one.before one.label.visit =
            proxy.leftover other.before other.label.visit) := by
  have oneMove := firstRun.step_of_mem inFirst
  have otherMove := secondRun.step_of_mem inSecond
  constructor
  · intro leftovers
    rcases oneMove.upstream_parsed with ⟨parsed, run, sent⟩
    rcases otherMove.upstream_parsed with ⟨parsed', run', sent'⟩
    rw [same, leftovers, run', Option.some.injEq] at run
    rw [sent, sent', run]
  · intro complete sent
    rcases Option.isSome_iff_exists.mp complete with ⟨parsed, parses⟩
    rw [oneMove.upstream_append parses,
      otherMove.upstream_append (same ▸ parses)] at sent
    exact List.append_cancel_left sent

/-! ## A recycled block -/

/-- `GET http://a/ HTTP/1.0` with an empty line behind it. -/
def shortRequest : List Byte :=
  [71, 69, 84, 32, 104, 116, 116, 112, 58, 47, 47, 97, 47, 32,
    72, 84, 84, 80, 47, 49, 46, 48, 13, 10, 13, 10]

/-- The same with a line `Cookie: s`. -/
def cookieRequest : List Byte :=
  [71, 69, 84, 32, 104, 116, 116, 112, 58, 47, 47, 97, 47, 32,
    72, 84, 84, 80, 47, 49, 46, 48, 13, 10, 67, 111, 111, 107,
    105, 101, 58, 32, 115, 13, 10, 13, 10]

/-- The block before the first round. -/
def zeroBlock : Block where
  bytes := List.replicate 1000 0
  size := List.length_replicate

/-- A visit in the network that answers everything and sends nothing. -/
def visitOf (request : List Byte) (fits : request.length ≤ 1000) : Visit where
  request := request
  fits := fits
  uri := List.replicate 50 0
  network := openNetwork
  chunks := []
  returndata := []

/-- A proxy for the word `w` with some allocator. -/
def proxyWith (malloc : List Block → Block) : ProxyServer where
  rooms := Rooms.allocated
  offencive := Offencive.of [119] (by decide) (by decide)
  malloc := malloc

/-- `malloc` returns the block that was freed last. -/
def recycled (freed : List Block) : Block :=
  freed.head?.getD zeroBlock

/-- A round with the block that it frees. -/
def roundOf (freed : List Block) (request : List Byte)
    (fits : request.length ≤ 1000) (data : Block) : Round where
  before := freed
  label := ⟨visitOf request fits, data.bytes.take 1000, []⟩
  after := data :: freed

theorem roundOf_step
    {malloc : List Block → Block} {freed : List Block}
    {request : List Byte} (fits : request.length ≤ 1000)
    {parsed : Parsed} {data : Block}
    (passed : handle Rooms.allocated [119, 0] (List.replicate 50 0)
      (overwrite request (malloc freed).bytes) = some (.passed parsed))
    (rewritten : data.bytes = parsed.data) :
    ProxyStep (proxyWith malloc) freed
      (roundOf freed request fits data).label (data :: freed) :=
  .serve passed rewritten ⟨[0], (0, 0), rfl, rfl, by decide⟩ rfl

/-- `shortRequest` as it is sent. -/
def shortBlanked : List Byte :=
  shortRequest.take 4 ++ List.replicate 8 32 ++ shortRequest.drop 12

/-- `cookieRequest` as it is sent. -/
def cookieBlanked : List Byte :=
  cookieRequest.take 4 ++ List.replicate 8 32 ++ cookieRequest.drop 12

/-- `shortRequest` in a block of zeros. -/
def shortBlock : Block where
  bytes := shortBlanked ++ List.replicate 974 0
  size := by
    rw [List.length_append, List.length_replicate]
    rfl

/-- `cookieRequest` in a block of zeros. -/
def cookieBlock : Block where
  bytes := cookieBlanked ++ List.replicate 963 0
  size := by
    rw [List.length_append, List.length_replicate]
    rfl

/-- `shortRequest` in the block of `cookieRequest`. -/
def mixedBlock : Block where
  bytes := shortBlanked ++ cookieBlock.bytes.drop 26
  size := by
    rw [List.length_append, List.length_drop, cookieBlock.size]
    rfl

/-- What the loops find in both requests. -/
def foundIn (data : Block) : Parsed :=
  ⟨[71, 69, 84], [97], 80, data.bytes⟩

/-- Into a block of zeros the short request comes alone. -/
theorem short_passed :
    handle Rooms.allocated [119, 0] (List.replicate 50 0)
        (overwrite shortRequest zeroBlock.bytes) =
      some (.passed (foundIn shortBlock)) := by
  decide +kernel

theorem cookie_passed :
    handle Rooms.allocated [119, 0] (List.replicate 50 0)
        (overwrite cookieRequest zeroBlock.bytes) =
      some (.passed (foundIn cookieBlock)) := by
  decide +kernel

theorem mixed_passed :
    handle Rooms.allocated [119, 0] (List.replicate 50 0)
        (overwrite shortRequest cookieBlock.bytes) =
      some (.passed (foundIn mixedBlock)) := by
  decide +kernel

/-- With a `malloc` that clears its blocks the two runs agree. -/
theorem upstream_determined_cleared :
    (roundOf [] shortRequest (by decide) shortBlock).label.upstream =
      (roundOf [cookieBlock] shortRequest (by decide)
        shortBlock).label.upstream := by
  have first : Run (ProxyStep (proxyWith fun _ => zeroBlock)) []
      [roundOf [] shortRequest (by decide) shortBlock] [shortBlock] :=
    .snoc .nil (roundOf_step _ short_passed rfl)
  have cookie : ProxyStep (proxyWith fun _ => zeroBlock) []
      (roundOf [] cookieRequest (by decide) cookieBlock).label
      [cookieBlock] :=
    roundOf_step _ cookie_passed rfl
  have second : Run (ProxyStep (proxyWith fun _ => zeroBlock)) []
      [roundOf [] cookieRequest (by decide) cookieBlock,
        roundOf [cookieBlock] shortRequest (by decide) shortBlock]
      [shortBlock, cookieBlock] :=
    .snoc (.snoc .nil cookie) (roundOf_step _ short_passed rfl)
  exact (upstream_determined first second (List.mem_singleton.mpr rfl)
    (List.mem_cons_of_mem _ (List.mem_singleton.mpr rfl)) rfl).1 rfl

/-- With one that recycles them the second run sends the cookie again. -/
theorem recycled_block_leaks :
    ¬ ∀ (proxy : ProxyServer) (first second : List Round)
        (firstFreed secondFreed : List Block) (one other : Round),
        Run (ProxyStep proxy) [] first firstFreed →
        Run (ProxyStep proxy) [] second secondFreed →
        one ∈ first → other ∈ second →
        one.label.visit.request = other.label.visit.request →
        one.label.visit.request.length < 1000 →
          one.label.upstream = other.label.upstream := by
  intro claim
  have first : Run (ProxyStep (proxyWith recycled)) []
      [roundOf [] shortRequest (by decide) shortBlock] [shortBlock] :=
    .snoc .nil (roundOf_step _ short_passed rfl)
  have cookie : ProxyStep (proxyWith recycled) []
      (roundOf [] cookieRequest (by decide) cookieBlock).label
      [cookieBlock] :=
    roundOf_step _ cookie_passed rfl
  have second : Run (ProxyStep (proxyWith recycled)) []
      [roundOf [] cookieRequest (by decide) cookieBlock,
        roundOf [cookieBlock] shortRequest (by decide) mixedBlock]
      [mixedBlock, cookieBlock] :=
    .snoc (.snoc .nil cookie) (roundOf_step _ mixed_passed rfl)
  have sent := claim _ _ _ _ _ _ _ first second
    (List.mem_singleton.mpr rfl)
    (List.mem_cons_of_mem _ (List.mem_singleton.mpr rfl)) rfl
    (by decide)
  exact absurd sent (by decide +kernel)

end NetworkingLab.Proxy
