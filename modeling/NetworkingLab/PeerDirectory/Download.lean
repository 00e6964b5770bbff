import NetworkingLab.Foundation.Runs
import NetworkingLab.Foundation.Scan

/-!
# Files from peer to peer

Once a peer has asked another one for a file, it goes through its descriptors
for ever: it accepts connections and opens the file that is requested on them,
it appends what it receives to the file it asked for, and it sends lines of
the file that it has opened last.

The place that sends lines is inside the test for readable descriptors, and an
accepted descriptor is added to the writable ones only, behind the one call of
`select`.  So nothing is ever sent on it, and it is never shut down
(`not_served_of_accepted`).  On any other descriptor the place that sends does
not get past the first newline of a file (`Peer.serve_newline`,
`exists_file_of_shut`).
-/

namespace NetworkingLab.PeerDirectory

open NetworkingLab.Foundation.CString
open NetworkingLab.Foundation.Runs
open NetworkingLab.Foundation.Scan

/-- What the loop does with its descriptors. -/
inductive Action where
  | accepted (fd : Nat) (filename : List Byte)
  | received (fd : Nat) (bytes : List Byte)
  | sent (fd : Nat) (block : List Byte)
  | shut (fd : Nat)
  deriving DecidableEq

/-- The descriptor on which a file is served. -/
def Action.served : Action → Option Nat
  | .sent fd _ => some fd
  | .shut fd => some fd
  | _ => none

/--
A peer inside its loop.  `put` is what is left of the file that was opened
last, `get` is what was printed into the file it asked for, and `files` are the
files that it can open.
-/
structure Peer where
  lispeer : Nat
  readFds : List Nat
  writeFds : List Nat
  fdmax : Nat
  opened : List Nat
  i : Nat
  put : Option (List Byte)
  get : List Byte
  files : List Byte → Option (List Byte)
  running : Bool
  done : List Action

/--
What the calls of one pass return, `none` being an error, and what the blocks
`buf` of the pass hold before they are written.
-/
structure Calls where
  newfd : Option Nat
  filereq : Option (List Byte)
  received : Option (List Byte)
  buf : List Byte
  line : List Byte
  line_size : line.length = 256

namespace Peer

/-- The process ends, or does what its language leaves undefined. -/
def stop (peer : Peer) : Peer :=
  { peer with running := false }

/-- `accept`, and the request on the new descriptor. -/
def acceptpeer (peer : Peer) (calls : Calls) : Peer :=
  match calls.newfd with
  | none => peer.stop
  | some newfd =>
      let peer := { peer with
        writeFds := newfd :: peer.writeFds
        opened := newfd :: peer.opened
        fdmax := max peer.fdmax newfd }
      match calls.filereq with
      | none => peer.stop
      | some filename =>
          { peer with
            put := peer.files filename
            done := peer.done ++ [.accepted newfd filename] }

/-- A block of the file that was asked for is received and printed. -/
def receive (peer : Peer) (calls : Calls) : Peer :=
  match calls.received with
  | none => peer.stop
  | some bytes =>
      let buf := overwrite bytes calls.buf
      match strlen buf with
      | none => peer.stop
      | some length =>
          { peer with
            get := peer.get ++ buf.take length
            done := peer.done ++ [.received peer.i bytes] }

/--
A line of the opened file is sent.  A file that is not open cannot be read,
and behind a shutdown `send` ends the process.
-/
def serve (peer : Peer) (calls : Calls) : Peer :=
  match peer.put with
  | none => peer.stop
  | some put =>
      match fscanfLine calls.line put with
      | none => peer.stop
      | some conversion =>
          if conversion.read < 0 then
            { peer.stop with
              put := some conversion.rest
              done := peer.done ++ [.shut peer.i] }
          else
            { peer with
              put := some conversion.rest
              done := peer.done ++ [.sent peer.i conversion.array] }

/-- The loop variable of the next pass. -/
def next (peer : Peer) : Peer :=
  { peer with i := if peer.i < peer.fdmax then peer.i + 1 else 0 }

/-- A readable descriptor is the listening one or brings a block. -/
def read (peer : Peer) (calls : Calls) : Peer :=
  if peer.i = peer.lispeer then
    peer.acceptpeer calls
  else
    peer.receive calls

/-- A line is sent on a descriptor that may be written. -/
def write (peer : Peer) (calls : Calls) : Peer :=
  if peer.running ∧ peer.i ∈ peer.writeFds then
    peer.serve calls
  else
    peer

/-- One pass of the loop over the descriptors. -/
def pass (peer : Peer) (calls : Calls) : Peer :=
  if peer.running then
    if peer.i ∈ peer.readFds then
      -- the test for a writable descriptor is inside the other one
      ((peer.read calls).write calls).next
    else
      peer.next
  else
    peer

/-- A pass in which `accept` returns a descriptor that was not in use. -/
def Step (peer : Peer) (calls : Calls) (later : Peer) : Prop :=
  (∀ newfd, calls.newfd = some newfd → newfd ∉ peer.opened) ∧
    later = peer.pass calls

end Peer

/--
A peer that enters the loop: the descriptors that `select` has found ready
among `getfile` and `lispeer`, and what it has left in the set of the writable
ones, which was not cleared before.
-/
structure Start where
  lispeer : Nat
  getfile : Nat
  fdmax : Nat
  opened : List Nat
  ready : List Nat
  writeFds : List Nat
  files : List Byte → Option (List Byte)
  lispeer_opened : lispeer ∈ opened
  getfile_opened : getfile ∈ opened
  watched : ready ⊆ [getfile, lispeer]

/-- The first pass of the loop comes next. -/
def Start.peer (start : Start) : Peer where
  lispeer := start.lispeer
  readFds := start.ready
  writeFds := start.writeFds
  fdmax := start.fdmax
  opened := start.opened
  i := 0
  put := none
  get := []
  files := start.files
  running := true
  done := []

theorem Start.ready_opened (start : Start) :
    start.ready ⊆ start.opened := by
  intro fd member
  rcases List.mem_cons.mp (start.watched member) with rfl | last
  · exact start.getfile_opened
  · rw [List.mem_singleton.mp last]
    exact start.lispeer_opened

/-! ## What is served -/

/-- What every call keeps, and the actions that it adds. -/
structure Peer.Adds (peer later : Peer) (added : List Action) : Prop where
  i : later.i = peer.i
  readFds : later.readFds = peer.readFds
  files : later.files = peer.files
  opened : peer.opened ⊆ later.opened
  done : later.done = peer.done ++ added

theorem Peer.adds_nothing
    {peer later : Peer} (i : later.i = peer.i)
    (readFds : later.readFds = peer.readFds)
    (files : later.files = peer.files)
    (opened : peer.opened ⊆ later.opened)
    (done : later.done = peer.done) :
    peer.Adds later [] :=
  ⟨i, readFds, files, opened, done.trans (List.append_nil _).symm⟩

/-- A connection is accepted and its file opened, or the process ends. -/
theorem Peer.acceptpeer_cases (peer : Peer) (calls : Calls) :
    peer.Adds (peer.acceptpeer calls) [] ∧
        (peer.acceptpeer calls).put = peer.put ∨
      ∃ newfd filename,
        calls.newfd = some newfd ∧
          peer.Adds (peer.acceptpeer calls)
            [.accepted newfd filename] ∧
          (peer.acceptpeer calls).put = peer.files filename := by
  rw [Peer.acceptpeer]
  split
  · left
    exact ⟨adds_nothing rfl rfl rfl (List.Subset.refl _) rfl, rfl⟩
  · next newfd accepted =>
    have added : peer.opened ⊆ newfd :: peer.opened :=
      List.subset_cons_self _ _
    split
    · left
      exact ⟨adds_nothing rfl rfl rfl added rfl, rfl⟩
    · next filename _ =>
      right
      exact ⟨newfd, filename, accepted, ⟨rfl, rfl, rfl, added, rfl⟩, rfl⟩

/-- A block is received, or the process ends. -/
theorem Peer.receive_cases (peer : Peer) (calls : Calls) :
    (peer.receive calls).put = peer.put ∧
      (peer.Adds (peer.receive calls) [] ∨
        ∃ bytes,
          peer.Adds (peer.receive calls) [.received peer.i bytes]) := by
  simp only [Peer.receive]
  split
  · exact ⟨rfl, Or.inl
      (adds_nothing rfl rfl rfl (List.Subset.refl _) rfl)⟩
  · split
    · exact ⟨rfl, Or.inl
        (adds_nothing rfl rfl rfl (List.Subset.refl _) rfl)⟩
    · exact ⟨rfl, Or.inr
        ⟨_, rfl, rfl, rfl, List.Subset.refl _, rfl⟩⟩

/-- The file is left at its next newline, or the process ends. -/
theorem Peer.serve_cases (peer : Peer) (calls : Calls) :
    peer.Adds (peer.serve calls) [] ∧
        (peer.serve calls).put = peer.put ∨
      ∃ put action,
        peer.put = some put ∧
          (peer.serve calls).put = some (put.dropWhile (· != 10)) ∧
          peer.Adds (peer.serve calls) [action] ∧
          action.served = some peer.i ∧
          (∀ fd, action = .shut fd → put = []) := by
  rw [Peer.serve]
  split
  · left
    exact ⟨adds_nothing rfl rfl rfl (List.Subset.refl _) rfl, rfl⟩
  · next put left =>
    split
    · left
      exact ⟨adds_nothing rfl rfl rfl (List.Subset.refl _) rfl, rfl⟩
    · next conversion call =>
      right
      have rest := congrArg some (fscanfLine_rest call)
      split
      · next negative =>
        exact ⟨put, .shut peer.i, left, rest,
          ⟨rfl, rfl, rfl, List.Subset.refl _, rfl⟩, rfl,
          fun _ _ => fscanfLine_read call negative⟩
      · refine ⟨put, .sent peer.i conversion.array, left, rest,
          ⟨rfl, rfl, rfl, List.Subset.refl _, rfl⟩, rfl, ?_⟩
        intro fd other
        cases other

/-- At its newline the file stays, and what the block holds is sent. -/
theorem Peer.serve_newline
    {peer : Peer} (calls : Calls) {rest : List Byte}
    (left : peer.put = some (10 :: rest)) :
    (peer.serve calls).done = peer.done ++ [.sent peer.i calls.line] ∧
      (peer.serve calls).put = some (10 :: rest) := by
  have call := fscanfLine_newline calls.line rest
  rw [Peer.serve, left]
  simp only [call]
  exact ⟨rfl, rfl⟩

/-- Reading leaves the loop variable. -/
theorem Peer.read_i (peer : Peer) (calls : Calls) :
    (peer.read calls).i = peer.i := by
  rw [Peer.read]
  split
  · rcases peer.acceptpeer_cases calls with
      ⟨adds, _⟩ | ⟨_, _, _, adds, _⟩
    · exact adds.i
    · exact adds.i
  · rcases (peer.receive_cases calls).2 with adds | ⟨_, adds⟩
    · exact adds.i
    · exact adds.i

/--
Only the descriptors of the first `select` are served, and the accepted ones
are not among them.
-/
structure Apart (start : Start) (peer : Peer) : Prop where
  readFds : peer.readFds = start.ready
  opened : start.opened ⊆ peer.opened
  accepted : ∀ fd filename,
    .accepted fd filename ∈ peer.done → fd ∉ start.opened
  served : ∀ action ∈ peer.done, ∀ fd,
    action.served = some fd → fd ∈ start.ready

namespace Apart

variable {start : Start} {peer : Peer}

theorem first (start : Start) : Apart start start.peer where
  readFds := rfl
  opened := List.Subset.refl _
  accepted := by
    intro fd filename member
    cases member
  served := by
    intro action member
    cases member

/-- The actions that are added are on descriptors that fit. -/
theorem adds
    {later : Peer} {added : List Action} (apart : Apart start peer)
    (adds : peer.Adds later added)
    (accepted : ∀ fd filename,
      .accepted fd filename ∈ added → fd ∉ start.opened)
    (served : ∀ action ∈ added, ∀ fd,
      action.served = some fd → fd ∈ start.ready) :
    Apart start later where
  readFds := adds.readFds.trans apart.readFds
  opened := List.Subset.trans apart.opened adds.opened
  accepted := by
    intro fd filename member
    rw [adds.done, List.mem_append] at member
    rcases member with earlier | last
    · exact apart.accepted fd filename earlier
    · exact accepted fd filename last
  served := by
    intro action member fd found
    rw [adds.done, List.mem_append] at member
    rcases member with earlier | last
    · exact apart.served action earlier fd found
    · exact served action last fd found

theorem adds_nothing
    {later : Peer} (apart : Apart start peer)
    (adds : peer.Adds later []) :
    Apart start later := by
  apply apart.adds adds
  · intro fd filename member
    cases member
  · intro action member
    cases member

theorem acceptpeer
    (apart : Apart start peer) {calls : Calls}
    (fresh : ∀ newfd, calls.newfd = some newfd → newfd ∉ peer.opened) :
    Apart start (peer.acceptpeer calls) := by
  rcases peer.acceptpeer_cases calls with
    ⟨adds, _⟩ | ⟨newfd, filename, accepted, adds, _⟩
  · exact apart.adds_nothing adds
  · apply apart.adds adds
    · intro fd other member old
      cases List.mem_singleton.mp member
      exact fresh newfd accepted (apart.opened old)
    · intro action member fd found
      rw [List.mem_singleton.mp member] at found
      cases found

theorem receive
    (apart : Apart start peer) (calls : Calls) :
    Apart start (peer.receive calls) := by
  rcases (peer.receive_cases calls).2 with adds | ⟨bytes, adds⟩
  · exact apart.adds_nothing adds
  · apply apart.adds adds
    · intro fd filename member
      cases List.mem_singleton.mp member
    · intro action member fd found
      rw [List.mem_singleton.mp member] at found
      cases found

theorem serve
    (apart : Apart start peer) (selected : peer.i ∈ start.ready)
    (calls : Calls) :
    Apart start (peer.serve calls) := by
  rcases peer.serve_cases calls with
    ⟨adds, _⟩ | ⟨_, action, _, _, adds, here, _⟩
  · exact apart.adds_nothing adds
  · apply apart.adds adds
    · intro fd filename member
      rw [← List.mem_singleton.mp member] at here
      cases here
    · intro other member fd found
      rw [List.mem_singleton.mp member, here] at found
      cases found
      exact selected

theorem next (apart : Apart start peer) : Apart start peer.next :=
  ⟨apart.readFds, apart.opened, apart.accepted, apart.served⟩

theorem pass
    (apart : Apart start peer) {calls : Calls} {later : Peer}
    (step : peer.Step calls later) :
    Apart start later := by
  rcases step with ⟨fresh, rfl⟩
  rw [Peer.pass]
  split
  · split
    · next selected =>
      have reads : Apart start (peer.read calls) := by
        rw [Peer.read]
        split
        · exact apart.acceptpeer fresh
        · exact apart.receive calls
      have chosen : (peer.read calls).i ∈ start.ready := by
        rw [Peer.read_i, ← apart.readFds]
        exact selected
      have writes : Apart start ((peer.read calls).write calls) := by
        rw [Peer.write]
        split
        · exact reads.serve chosen calls
        · exact reads
      exact writes.next
    · exact apart.next
  · exact apart

/-- It holds in every state of a run. -/
theorem run
    {records : List (Record Peer Calls)} {final : Peer}
    (run : Run Peer.Step start.peer records final) :
    Apart start final :=
  run.invariant (Apart start) (first start)
    fun _ _ _ apart step => apart.pass step

end Apart

/-- An accepted descriptor is never served. -/
theorem not_served_of_accepted
    {start : Start} {records : List (Record Peer Calls)} {final : Peer}
    (run : Run Peer.Step start.peer records final)
    {newfd : Nat} {filename : List Byte}
    (accepted : .accepted newfd filename ∈ final.done) :
    ∀ action ∈ final.done, action.served ≠ some newfd := by
  intro action member served
  have apart := Apart.run run
  exact apart.accepted newfd filename accepted
    (start.ready_opened (apart.served action member newfd served))

/-! ## What is left of a file -/

/-- The file was opened for a request. -/
def Peer.Opened (peer : Peer) (contents : List Byte) : Prop :=
  ∃ newfd filename, .accepted newfd filename ∈ peer.done ∧
    peer.files filename = some contents

/-- Files stay opened. -/
theorem Peer.Opened.mono
    {peer later : Peer} {added : List Action} {contents : List Byte}
    (opened : peer.Opened contents) (adds : peer.Adds later added) :
    later.Opened contents := by
  rcases opened with ⟨newfd, filename, member, found⟩
  refine ⟨newfd, filename, ?_, ?_⟩
  · rw [adds.done]
    exact List.mem_append_left added member
  · rw [adds.files]
    exact found

/--
A file is either as it was opened or is left at its first newline, and a
connection was only shut down at the end of a file without one.
-/
structure Stalled (peer : Peer) : Prop where
  put : ∀ rest, peer.put = some rest →
    ∃ contents, peer.Opened contents ∧
      (rest = contents ∨ rest = contents.dropWhile (· != 10))
  shut : ∀ fd, .shut fd ∈ peer.done →
    ∃ contents, peer.Opened contents ∧ 10 ∉ contents

namespace Stalled

variable {peer : Peer}

theorem first (start : Start) : Stalled start.peer where
  put := by
    intro rest none_open
    cases none_open
  shut := by
    intro fd member
    cases member

/-- What a call must say of the file, and of what it shuts down. -/
theorem adds
    {later : Peer} {added : List Action} (stalled : Stalled peer)
    (adds : peer.Adds later added)
    (put : ∀ rest, later.put = some rest →
      ∃ contents, later.Opened contents ∧
        (rest = contents ∨ rest = contents.dropWhile (· != 10)))
    (shut : ∀ fd, .shut fd ∈ added →
      ∃ contents, later.Opened contents ∧ 10 ∉ contents) :
    Stalled later where
  put := put
  shut := by
    intro fd member
    rw [adds.done, List.mem_append] at member
    rcases member with earlier | last
    · rcases stalled.shut fd earlier with ⟨contents, opened, line⟩
      exact ⟨contents, opened.mono adds, line⟩
    · exact shut fd last

/-- A call that leaves the file and shuts nothing down. -/
theorem keep
    {later : Peer} {added : List Action} (stalled : Stalled peer)
    (adds : peer.Adds later added) (put : later.put = peer.put)
    (no_shut : ∀ fd, .shut fd ∉ added) :
    Stalled later := by
  apply stalled.adds adds
  · intro rest left
    rw [put] at left
    rcases stalled.put rest left with ⟨contents, opened, part⟩
    exact ⟨contents, opened.mono adds, part⟩
  · intro fd member
    exact absurd member (no_shut fd)

theorem next (stalled : Stalled peer) : Stalled peer.next :=
  ⟨stalled.put, stalled.shut⟩

theorem acceptpeer (stalled : Stalled peer) (calls : Calls) :
    Stalled (peer.acceptpeer calls) := by
  rcases peer.acceptpeer_cases calls with
    ⟨adds, put⟩ | ⟨newfd, filename, _, adds, put⟩
  · exact stalled.keep adds put fun _ => List.not_mem_nil
  · apply stalled.adds adds
    · intro rest left
      refine ⟨rest, ⟨newfd, filename, ?_, ?_⟩, Or.inl rfl⟩
      · rw [adds.done]
        exact List.mem_append_right _ (List.mem_singleton.mpr rfl)
      · rw [adds.files, ← put]
        exact left
    · intro fd member
      cases List.mem_singleton.mp member

theorem receive (stalled : Stalled peer) (calls : Calls) :
    Stalled (peer.receive calls) := by
  rcases peer.receive_cases calls with ⟨put, adds | ⟨bytes, adds⟩⟩
  · exact stalled.keep adds put fun _ => List.not_mem_nil
  · apply stalled.keep adds put
    intro fd member
    cases List.mem_singleton.mp member

theorem serve (stalled : Stalled peer) (calls : Calls) :
    Stalled (peer.serve calls) := by
  rcases peer.serve_cases calls with
    ⟨adds, put⟩ | ⟨put, action, left, rest, adds, _, ended⟩
  · exact stalled.keep adds put fun _ => List.not_mem_nil
  · rcases stalled.put put left with ⟨contents, opened, part⟩
    have same : put.dropWhile (· != 10) =
        contents.dropWhile (· != 10) := by
      rcases part with rfl | rfl
      · rfl
      · exact List.dropWhile_idempotent _ _
    apply stalled.adds adds
    · intro later found
      rw [rest, same] at found
      cases found
      exact ⟨contents, opened.mono adds, Or.inr rfl⟩
    · intro fd member
      refine ⟨contents, opened.mono adds, ?_⟩
      intro newline
      rw [ended fd (List.mem_singleton.mp member).symm] at same
      have passed := List.dropWhile_eq_nil_iff.mp same.symm 10 newline
      cases passed

theorem pass
    (stalled : Stalled peer) {calls : Calls} {later : Peer}
    (step : peer.Step calls later) :
    Stalled later := by
  rw [step.2, Peer.pass]
  split
  · split
    · have reads : Stalled (peer.read calls) := by
        rw [Peer.read]
        split
        · exact stalled.acceptpeer calls
        · exact stalled.receive calls
      rw [Peer.write]
      split
      · exact (reads.serve calls).next
      · exact reads.next
    · exact stalled.next
  · exact stalled

end Stalled

/-- Whatever is shut down, some file without a newline was opened before. -/
theorem exists_file_of_shut
    {start : Start} {records : List (Record Peer Calls)} {final : Peer}
    (run : Run Peer.Step start.peer records final)
    {fd : Nat} (shut : .shut fd ∈ final.done) :
    ∃ contents, final.Opened contents ∧ 10 ∉ contents :=
  (run.invariant Stalled (Stalled.first start)
    fun _ _ _ stalled step => stalled.pass step).shut fd shut

/-! ## Downloads -/

/-- The lines of a text, without their newlines. -/
def linesOf (text : List Byte) : List (List Byte) :=
  let pieces := text.splitOn 10
  if pieces.getLast? = some [] then pieces.dropLast else pieces

/-- A text file whose lines fit into a block. -/
structure TextFile where
  contents : List Byte
  nulFree : NulFree contents
  short : ∀ line ∈ linesOf contents, line.length < 256

/-- The block holds the line, with or without its newline. -/
def Carries (line block : List Byte) : Prop :=
  cString block = line ∨ cString block = line ++ [10]

/-- The blocks received from a descriptor. -/
def receivedFrom (fd : Nat) (done : List Action) : List (List Byte) :=
  done.filterMap fun action =>
    match action with
    | .received source bytes =>
        if source = fd ∧ bytes ≠ [] then some bytes else none
    | _ => none

/--
The serving peer accepts the connection and opens the file, sends every line
once and shuts the connection down, and the requesting peer, which receives
the blocks whole and in order, prints the file.
-/
def Downloads (file : TextFile) (serving requesting : Start) : Prop :=
  ∃ sending source receiving target,
    Run Peer.Step serving.peer sending source ∧
      Run Peer.Step requesting.peer receiving target ∧
        ∃ newfd filename blocks,
          .accepted newfd filename ∈ source.done ∧
            serving.files filename = some file.contents ∧
            List.Forall₂ Carries (linesOf file.contents) blocks ∧
            source.done.filter
                (fun action => decide (action.served = some newfd)) =
              blocks.map (.sent newfd) ++ [.shut newfd] ∧
            receivedFrom requesting.getfile target.done = blocks ∧
            target.get = file.contents

/-- The connection of a download is shut down. -/
theorem Downloads.served
    {file : TextFile} {serving requesting : Start}
    (downloads : Downloads file serving requesting) :
    ∃ records source newfd filename,
      Run Peer.Step serving.peer records source ∧
        .accepted newfd filename ∈ source.done ∧
        .shut newfd ∈ source.done := by
  rcases downloads with
    ⟨sending, source, _, _, run, _, newfd, filename, blocks, accepted, _,
      _, served, _⟩
  refine ⟨sending, source, newfd, filename, run, accepted, ?_⟩
  have last : .shut newfd ∈ blocks.map (.sent newfd) ++
      [Action.shut newfd] :=
    List.mem_append_right _ (List.mem_singleton.mpr rfl)
  rw [← served] at last
  exact List.mem_of_mem_filter last

/-- No file is ever downloaded. -/
theorem never_downloads
    (file : TextFile) (serving requesting : Start) :
    ¬ Downloads file serving requesting := by
  intro downloads
  rcases downloads.served with
    ⟨_, _, newfd, filename, run, accepted, shut⟩
  exact not_served_of_accepted run accepted _ shut rfl

/-- The file "hi" with its newline. -/
def greetingFile : TextFile :=
  ⟨[104, 105, 10], by decide, by decide⟩

/-- The file is under the name "f", and a connection waits to be accepted. -/
def servingStart : Start where
  lispeer := 3
  getfile := 5
  fdmax := 5
  opened := [0, 1, 2, 3, 4, 5]
  ready := [3]
  writeFds := []
  files := fun filename =>
    if filename = [102] then some greetingFile.contents else none
  lispeer_opened := by decide
  getfile_opened := by decide
  watched := by decide

/-- Its answer has arrived. -/
def requestingStart : Start where
  lispeer := 3
  getfile := 5
  fdmax := 5
  opened := [0, 1, 2, 3, 4, 5]
  ready := [5]
  writeFds := []
  files := fun _ => none
  lispeer_opened := by decide
  getfile_opened := by decide
  watched := by decide

/-- The short file is not downloaded from a peer that holds it. -/
theorem greeting_not_downloaded :
    ¬ ∀ (file : TextFile) (serving requesting : Start),
      (∃ filename, serving.files filename = some file.contents) →
        Downloads file serving requesting := by
  intro always
  have downloads := always greetingFile servingStart requestingStart
    ⟨[102], rfl⟩
  rcases downloads.served with
    ⟨_, _, newfd, filename, run, accepted, shut⟩
  exact not_served_of_accepted run accepted _ shut rfl

end NetworkingLab.PeerDirectory
