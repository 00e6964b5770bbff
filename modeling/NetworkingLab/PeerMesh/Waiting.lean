import NetworkingLab.Foundation.Runs
import NetworkingLab.PeerMesh.Programs

/-!
# Four peers that wait for each other

A peer that accepts a connection in its loop receives from it in the same
scan, and no peer sends before it has received.  The peers 3 and 4 accept
before their loop, and only a peer that has accepted twice would connect to
them.  So the peers 1 and 2 accept at most one connection each and wait for its
bytes, and the peers 3 and 4 wait for a connection.

`Waiting` is this state of affairs as an invariant.  It follows that no count
ever reaches 3 and that nothing is ever received or appended to a file.
-/

namespace NetworkingLab.PeerMesh

open NetworkingLab.Foundation.CString
open NetworkingLab.Foundation.Runs

/-- The program accepts before its loop. -/
def Accepts (p : PeerId) : Prop :=
  Call.accept ∈ (program p).setup

instance (p : PeerId) : Decidable (Accepts p) :=
  inferInstanceAs (Decidable (Call.accept ∈ (program p).setup))

/-- The process is at a place that it does not leave by its end. -/
def Settled (p : PeerId) (phase : Phase) : Prop :=
  if Accepts p then
    phase = .setup (program p).setup.tail
  else
    phase.listens = true

/-- The place of a process, with the number of connections it has counted. -/
inductive Place (p : PeerId) (peer : Peer) : Prop where
  | idle
      (phase : peer.phase = .idle) (counted : peer.connections = 0)
  | exited
      (accepts : Accepts p) (phase : peer.phase = .exited)
      (counted : peer.connections = 0)
  | setup
      {later : List Call} (phase : peer.phase = .setup later)
      (rest : later = (program p).setup ∨
        later = (program p).setup.tail)
      (counted : peer.connections = 0)
  | selecting
      (loops : ¬ Accepts p) (phase : peer.phase = .selecting)
      (counted : peer.connections = 0)
  | scanning
      {i : Nat} (loops : ¬ Accepts p) (phase : peer.phase = .scanning i)
      (counted : peer.connections = 0)
  | answering
      {fd : Nat} (loops : ¬ Accepts p)
      (phase : peer.phase = .answering peer.lispeer)
      (counted : peer.connections = 0)
      (set : fd ∈ peer.readFds) (above : peer.lispeer < fd)
      (inside : fd ≤ peer.fdmax)
  | receiving
      {i fd : Nat} (loops : ¬ Accepts p)
      (phase : peer.phase = .scanning i)
      (counted : peer.connections = 1)
      (set : fd ∈ peer.readFds) (above : peer.lispeer < i)
      (before : i ≤ fd) (inside : fd ≤ peer.fdmax)

/-- It does not depend on the sockets that are connected. -/
theorem Place.connected
    {p : PeerId} {peer : Peer} (place : Place p peer)
    (connected : Socket → Option PeerId) :
    Place p { peer with connected := connected } := by
  cases place with
  | idle phase counted => exact .idle phase counted
  | exited accepts phase counted => exact .exited accepts phase counted
  | setup phase rest counted => exact .setup phase rest counted
  | selecting loops phase counted => exact .selecting loops phase counted
  | scanning loops phase counted => exact .scanning loops phase counted
  | answering loops phase counted set above inside =>
      exact .answering loops phase counted set above inside
  | receiving loops phase counted set above before inside =>
      exact .receiving loops phase counted set above before inside

/-- What holds of a process. -/
structure Lawful (p : PeerId) (peer : Peer) : Prop where
  below : ∀ fd, fd ≤ peer.lispeer → fd ∈ peer.opened
  appended : peer.appended = []
  place : Place p peer

/-- Nothing is sent on a connection, and who made it has not ended. -/
structure Quiet (mesh : Mesh) (link : Link) : Prop where
  inFlight : link.inFlight = []
  target : ¬ Accepts link.target
  source : Settled link.source (mesh.peers link.source).phase

/-- The processes wait for each other. -/
structure Waiting (mesh : Mesh) : Prop where
  peers : ∀ p, Lawful p (mesh.peers p)
  links : ∀ link ∈ mesh.links, Quiet mesh link

/-! ## Where a process is -/

theorem settled_of_loops
    {p : PeerId} (loops : ¬ Accepts p) {phase : Phase}
    (listens : phase.listens = true) :
    Settled p phase := by
  rw [Settled, if_neg loops]
  exact listens

theorem Settled.listens
    {p : PeerId} {phase : Phase} (settled : Settled p phase) :
    phase.listens = true := by
  rw [Settled] at settled
  split at settled
  · rw [settled]
    rfl
  · exact settled

namespace Place

variable {p : PeerId} {peer : Peer}

theorem of_idle (place : Place p peer) (phase : peer.phase = .idle) :
    peer.connections = 0 := by
  cases place with
  | idle _ counted => exact counted
  | exited _ _ counted => exact counted
  | setup _ _ counted => exact counted
  | selecting _ _ counted => exact counted
  | scanning _ _ counted => exact counted
  | answering _ _ counted => exact counted
  | receiving _ other => cases phase.symm.trans other

theorem of_setup
    (place : Place p peer) {later : List Call}
    (phase : peer.phase = .setup later) :
    peer.connections = 0 ∧
      (later = (program p).setup ∨ later = (program p).setup.tail) := by
  cases place with
  | setup same rest counted =>
      rw [phase] at same
      cases same
      exact ⟨counted, rest⟩
  | idle other => cases phase.symm.trans other
  | exited _ other => cases phase.symm.trans other
  | selecting _ other => cases phase.symm.trans other
  | scanning _ other => cases phase.symm.trans other
  | answering _ other => cases phase.symm.trans other
  | receiving _ other => cases phase.symm.trans other

/-- A scan is either before the first connection or on its way to it. -/
theorem of_scanning
    (place : Place p peer) {i : Nat}
    (phase : peer.phase = .scanning i) :
    ¬ Accepts p ∧
      (peer.connections = 0 ∨
        peer.connections = 1 ∧ peer.lispeer < i ∧
          ∃ fd ∈ peer.readFds, i ≤ fd ∧ fd ≤ peer.fdmax) := by
  cases place with
  | scanning loops _ counted => exact ⟨loops, Or.inl counted⟩
  | receiving loops same counted set above before inside =>
      rw [phase] at same
      cases same
      exact ⟨loops, Or.inr ⟨counted, above, _, set, before, inside⟩⟩
  | idle other => cases phase.symm.trans other
  | exited _ other => cases phase.symm.trans other
  | setup other => cases phase.symm.trans other
  | selecting _ other => cases phase.symm.trans other
  | answering _ other => cases phase.symm.trans other

theorem of_answering
    (place : Place p peer) {i : Nat}
    (phase : peer.phase = .answering i) :
    ¬ Accepts p ∧ peer.connections = 0 ∧ i = peer.lispeer ∧
      ∃ fd ∈ peer.readFds, i < fd ∧ fd ≤ peer.fdmax := by
  cases place with
  | answering loops same counted set above inside =>
      rw [phase] at same
      cases same
      exact ⟨loops, counted, rfl, _, set, above, inside⟩
  | idle other => cases phase.symm.trans other
  | exited _ other => cases phase.symm.trans other
  | setup other => cases phase.symm.trans other
  | selecting _ other => cases phase.symm.trans other
  | scanning _ other => cases phase.symm.trans other
  | receiving _ other => cases phase.symm.trans other

theorem of_selecting
    (place : Place p peer) (phase : peer.phase = .selecting) :
    ¬ Accepts p ∧ peer.connections = 0 := by
  cases place with
  | selecting loops _ counted => exact ⟨loops, counted⟩
  | idle other => cases phase.symm.trans other
  | exited _ other => cases phase.symm.trans other
  | setup other => cases phase.symm.trans other
  | scanning _ other => cases phase.symm.trans other
  | answering _ other => cases phase.symm.trans other
  | receiving _ other => cases phase.symm.trans other

/-- No process sends. -/
theorem not_sending
    (place : Place p peer) (i : Nat) (buffer : List Byte)
    (later : List Socket) :
    peer.phase ≠ .sending i buffer later := by
  intro phase
  cases place with
  | idle other => cases phase.symm.trans other
  | exited _ other => cases phase.symm.trans other
  | setup other => cases phase.symm.trans other
  | selecting _ other => cases phase.symm.trans other
  | scanning _ other => cases phase.symm.trans other
  | answering _ other => cases phase.symm.trans other
  | receiving _ other => cases phase.symm.trans other

/-- At most one connection is counted. -/
theorem connections_le (place : Place p peer) : peer.connections ≤ 1 := by
  cases place with
  | receiving _ _ counted => exact Nat.le_of_eq counted
  | idle _ counted => exact counted ▸ Nat.zero_le 1
  | exited _ _ counted => exact counted ▸ Nat.zero_le 1
  | setup _ _ counted => exact counted ▸ Nat.zero_le 1
  | selecting _ _ counted => exact counted ▸ Nat.zero_le 1
  | scanning _ _ counted => exact counted ▸ Nat.zero_le 1
  | answering _ _ counted => exact counted ▸ Nat.zero_le 1

end Place

/-! ## The four programs -/

/-- A connection before the loop is the first call of its program. -/
theorem connect_of_setup
    {p target : PeerId} {socket : Socket} {checked : Bool}
    {later : List Call}
    (rest : .connect socket target checked :: later = (program p).setup ∨
      .connect socket target checked :: later = (program p).setup.tail) :
    .connect socket target checked :: later = (program p).setup ∧
      ¬ Accepts target ∧ (checked = true → Accepts p) := by
  cases p with
  | peer1 =>
      rcases rest with rest | rest
      · cases rest
      · cases rest
  | peer2 =>
      rcases rest with rest | rest
      · cases rest
        exact ⟨rfl, by decide, by decide⟩
      · cases rest
  | peer3 =>
      rcases rest with rest | rest
      · cases rest
        exact ⟨rfl, by decide, by decide⟩
      · cases rest
  | peer4 =>
      rcases rest with rest | rest
      · cases rest
        exact ⟨rfl, by decide, by decide⟩
      · cases rest

/-- A program that accepts before its loop does so next or connects. -/
theorem setup_ne_tail
    {p : PeerId} (accepts : Accepts p) :
    (program p).setup ≠ (program p).setup.tail ∧
      (program p).setup.tail ≠ [] := by
  cases p with
  | peer1 => exact absurd accepts (by decide)
  | peer2 => exact absurd accepts (by decide)
  | peer3 => decide
  | peer4 => decide

/-- A program whose calls before the loop are over accepts in the loop. -/
theorem loops_of_setup
    {p : PeerId}
    (rest : [] = (program p).setup ∨ [] = (program p).setup.tail) :
    ¬ Accepts p := by
  intro accepts
  rcases rest with whole | tail
  · exact (setup_ne_tail accepts).2 (congrArg List.tail whole).symm
  · exact (setup_ne_tail accepts).2 tail.symm

theorem accepts_of_setup
    {p : PeerId} {later : List Call}
    (rest : .accept :: later = (program p).setup ∨
      .accept :: later = (program p).setup.tail) :
    Accepts p := by
  rcases rest with whole | tail
  · rw [Accepts, ← whole]
    exact List.mem_cons_self
  · apply List.mem_of_mem_tail
    rw [← tail]
    exact List.mem_cons_self

/-- The first connection that is answered with another one. -/
theorem answer_zero
    {p target : PeerId} {socket : Socket}
    (found : (program p).answer 0 = some (socket, target)) :
    ¬ Accepts target := by
  cases p with
  | peer1 =>
      cases found
      decide
  | peer2 => cases found
  | peer3 => cases found
  | peer4 => cases found

/-! ## One step -/

namespace Waiting

variable {mesh : Mesh} {p : PeerId}

/-- A process changes and stays settled, and the new connections are quiet. -/
theorem update
    (waiting : Waiting mesh) {peer : Peer} {links : List Link}
    (lawful : Lawful p peer)
    (settled : Settled p (mesh.peers p).phase → Settled p peer.phase)
    (quiet : ∀ link ∈ links,
      Quiet mesh link ∨
        link.inFlight = [] ∧ ¬ Accepts link.target ∧
          link.source = p ∧ Settled p peer.phase) :
    Waiting (mesh.update p peer links) := by
  have here : (mesh.update p peer links).peers p = peer :=
    Function.update_self _ _ _
  have elsewhere : ∀ q, q ≠ p →
      (mesh.update p peer links).peers q = mesh.peers q :=
    fun _ other => Function.update_of_ne other _ _
  constructor
  · intro q
    by_cases same : q = p
    · subst same
      rw [here]
      exact lawful
    · rw [elsewhere q same]
      exact waiting.peers q
  · intro link member
    rcases quiet link member with old | ⟨inFlight, target, rfl, now⟩
    · refine ⟨old.inFlight, old.target, ?_⟩
      by_cases same : link.source = p
      · have kept := old.source
        rw [same] at kept ⊢
        rw [here]
        exact settled kept
      · rw [elsewhere _ same]
        exact old.source
    · refine ⟨inFlight, target, ?_⟩
      rw [here]
      exact now

/-- Only the process changes. -/
theorem enter
    (waiting : Waiting mesh) {peer : Peer}
    (lawful : Lawful p peer)
    (settled : Settled p (mesh.peers p).phase → Settled p peer.phase) :
    Waiting (mesh.update p peer mesh.links) :=
  waiting.update lawful settled fun link member =>
    Or.inl (waiting.links link member)

/-- A process goes on in its loop. -/
theorem loop
    (waiting : Waiting mesh) {peer : Peer}
    (loops : ¬ Accepts p) (lawful : Lawful p peer)
    (listens : peer.phase.listens = true) :
    Waiting (mesh.update p peer mesh.links) :=
  waiting.enter lawful fun _ => settled_of_loops loops listens

/-- The connection goes to a process that accepts in its loop. -/
theorem connect
    (waiting : Waiting mesh) {peer : Peer} {socket : Socket}
    {target : PeerId}
    (lawful : Lawful p peer) (reached : ¬ Accepts target)
    (settled : Settled p (mesh.peers p).phase → Settled p peer.phase)
    (now : (mesh.peers target).phase.listens = true →
      Settled p peer.phase) :
    Waiting (mesh.connect p socket target peer) := by
  rw [Mesh.connect]
  split
  · next listens =>
    apply waiting.update
    · exact ⟨lawful.below, lawful.appended, lawful.place.connected _⟩
    · exact settled
    · intro link member
      rcases List.mem_append.mp member with old | new
      · exact Or.inl (waiting.links link old)
      · rw [List.mem_singleton.mp new]
        exact Or.inr ⟨rfl, reached, rfl, now listens⟩
  · exact waiting.enter lawful settled

/-- The connection that is accepted is as quiet as before. -/
theorem accept
    (waiting : Waiting mesh) {peer : Peer}
    {front back : List Link} {link : Link} {newfd : Nat}
    (lawful : Lawful p peer)
    (settled : Settled p (mesh.peers p).phase → Settled p peer.phase)
    (split : mesh.links = front ++ link :: back) :
    Waiting (mesh.update p peer
      (front ++ { link with fd := some newfd } :: back)) := by
  apply waiting.update lawful settled
  intro other member
  left
  rcases List.mem_append.mp member with early | later
  · apply waiting.links
    rw [split]
    exact List.mem_append_left _ early
  · rcases List.mem_cons.mp later with rfl | late
    · have quiet := waiting.links link
        (split ▸ List.mem_append_right _ List.mem_cons_self)
      exact ⟨quiet.inFlight, quiet.target, quiet.source⟩
    · apply waiting.links
      rw [split]
      exact List.mem_append_right _ (List.mem_cons_of_mem _ late)

/-- There is nothing to receive, and no end of a connection. -/
theorem not_readable
    (waiting : Waiting mesh) {front back : List Link} {link : Link}
    (split : mesh.links = front ++ link :: back) :
    link.inFlight = [] ∧ ¬ Accepts link.target ∧
      (mesh.peers link.source).phase ≠ .exited := by
  have quiet := waiting.links link
    (split ▸ List.mem_append_right _ List.mem_cons_self)
  refine ⟨quiet.inFlight, quiet.target, ?_⟩
  intro gone
  have listens := quiet.source.listens
  rw [gone] at listens
  cases listens

/-- A connection before the loop succeeds, or its program ends or goes on. -/
theorem step_connect
    (waiting : Waiting mesh) {target : PeerId} {socket : Socket}
    {checked : Bool} {later : List Call}
    (next : (mesh.peers p).phase =
      .setup (.connect socket target checked :: later)) :
    Waiting (mesh.connect p socket target
      ((mesh.peers p).enter
        (if checked ∧ ¬ (mesh.peers target).phase.listens then
          .exited
        else
          .setup later))) := by
  have before := waiting.peers p
  rcases before.place.of_setup next with ⟨counted, rest⟩
  rcases connect_of_setup rest with ⟨first, reached, exits⟩
  have tail : later = (program p).setup.tail := congrArg List.tail first
  have arrived : Settled p (.setup later) := by
    rw [Settled]
    split
    · rw [tail]
    · rfl
  apply waiting.connect
  · refine ⟨before.below, before.appended, ?_⟩
    by_cases fails : checked ∧ ¬ (mesh.peers target).phase.listens
    · exact .exited (exits fails.1) (if_pos fails) counted
    · exact .setup (if_neg fails) (Or.inr tail) counted
  · exact reached
  · intro settled
    by_cases accepts : Accepts p
    · rw [next, Settled, if_pos accepts, first] at settled
      exact absurd (Phase.setup.inj settled) (setup_ne_tail accepts).1
    · have goes_on : ¬ (checked ∧ ¬ (mesh.peers target).phase.listens) :=
        fun fails => accepts (exits fails.1)
      rw [Peer.enter, if_neg goes_on]
      exact arrived
  · intro listens
    have goes_on : ¬ (checked ∧ ¬ (mesh.peers target).phase.listens) :=
      fun fails => fails.2 listens
    rw [Peer.enter, if_neg goes_on]
    exact arrived

/-- A process that has accepted a connection in its loop. -/
theorem step_accepted
    (waiting : Waiting mesh) {i newfd : Nat}
    {front back : List Link} {link : Link}
    (next : (mesh.peers p).phase = .scanning i)
    (listening : i = (mesh.peers p).lispeer)
    (split : mesh.links = front ++ link :: back)
    (fresh : newfd ∉ (mesh.peers p).opened) :
    Waiting (mesh.update p
      (((mesh.peers p).register newfd).enter (.answering i))
      (front ++ { link with fd := some newfd } :: back)) := by
  have before := waiting.peers p
  rcases before.place.of_scanning next with ⟨loops, counted | late⟩
  · have above : (mesh.peers p).lispeer < newfd := by
      by_contra low
      exact fresh (before.below newfd (Nat.not_lt.mp low))
    apply waiting.accept
    · refine ⟨?_, before.appended, ?_⟩
      · intro fd low
        exact List.mem_cons_of_mem _ (before.below fd low)
      · exact .answering loops (congrArg Phase.answering listening) counted
          List.mem_cons_self above (Nat.le_max_right _ _)
    · intro _
      exact settled_of_loops loops rfl
    · exact split
  · exact absurd listening (Nat.ne_of_gt late.2.1)

/-- Behind its first connection the scan is on its way to the descriptor. -/
theorem lawful_count
    (waiting : Waiting mesh) {i : Nat}
    (next : (mesh.peers p).phase = .answering i) :
    Lawful p ((mesh.peers p).count.enter (.scanning (i + 1))) := by
  have before := waiting.peers p
  rcases before.place.of_answering next with
    ⟨loops, counted, rfl, fd, set, above, inside⟩
  refine ⟨before.below, before.appended, ?_⟩
  exact .receiving loops rfl (congrArg (· + 1) counted) set
    (Nat.lt_succ_self _) above inside

/-- A pass leaves the scan on its way. -/
theorem step_pass
    (waiting : Waiting mesh) {i : Nat}
    (next : (mesh.peers p).phase = .scanning i)
    (unset : i ∉ (mesh.peers p).readFds) :
    Waiting (mesh.update p ((mesh.peers p).enter (.scanning (i + 1)))
      mesh.links) := by
  have before := waiting.peers p
  rcases before.place.of_scanning next with ⟨loops, place⟩
  apply waiting.loop loops _ rfl
  refine ⟨before.below, before.appended, ?_⟩
  rcases place with counted | ⟨counted, above, fd, set, reach, inside⟩
  · exact .scanning loops rfl counted
  · have further : i < fd := by
      apply Nat.lt_of_le_of_ne reach
      rintro rfl
      exact unset set
    exact .receiving loops rfl counted set (Nat.lt_succ_of_lt above)
      further inside

/-- No `recv` returns bytes. -/
theorem not_receive
    (waiting : Waiting mesh) {label : Label} {later : Mesh}
    (move : Step mesh label later) (q : PeerId) (bytes : List Byte) :
    label ≠ .receive q bytes := by
  rintro rfl
  cases move with
  | receive _ _ _ _ split _ arrived nonempty =>
      rw [(waiting.not_readable split).1] at arrived
      exact nonempty (List.append_eq_nil_iff.mp arrived.symm).1

/-- Every step keeps the processes waiting. -/
theorem step
    (waiting : Waiting mesh) {label : Label} {later : Mesh}
    (move : Step mesh label later) :
    Waiting later := by
  cases move with
  | @start p idle =>
      have before := waiting.peers p
      apply waiting.enter
      · exact ⟨before.below, before.appended,
          .setup rfl (Or.inl rfl) (before.place.of_idle idle)⟩
      · intro settled
        have listens := settled.listens
        rw [idle] at listens
        cases listens
  | connect next => exact waiting.step_connect next
  | @accept p rest front back link newfd next split waits fresh =>
      -- nobody connects to a peer that accepts before its loop
      rcases waiting.not_readable split with ⟨_, loops, _⟩
      rw [waits.1] at loops
      have rest := ((waiting.peers p).place.of_setup next).2
      exact absurd (accepts_of_setup rest) loops
  | @enter p next =>
      have before := waiting.peers p
      rcases before.place.of_setup next with ⟨counted, rest⟩
      have loops := loops_of_setup rest
      apply waiting.loop loops _ rfl
      exact ⟨before.below, before.appended, .selecting loops rfl counted⟩
  | @select p ready next found some_ready =>
      have before := waiting.peers p
      rcases before.place.of_selecting next with ⟨loops, counted⟩
      apply waiting.loop loops _ rfl
      exact ⟨before.below, before.appended, .scanning loops rfl counted⟩
  | @again p i next ended =>
      have before := waiting.peers p
      rcases before.place.of_scanning next with ⟨loops, counted | late⟩
      · apply waiting.loop loops _ rfl
        exact ⟨before.below, before.appended,
          .selecting loops rfl counted⟩
      · rcases late with ⟨_, _, fd, _, reach, inside⟩
        exact absurd (Nat.le_trans reach inside) (Nat.not_le.mpr ended)
  | pass next _ unset => exact waiting.step_pass next unset
  | accepted next _ _ listening split _ fresh =>
      exact waiting.step_accepted next listening split fresh
  | @answer p target socket i next found =>
      rcases (waiting.peers p).place.of_answering next with
        ⟨loops, counted, _⟩
      rw [counted] at found
      apply waiting.connect
      · exact waiting.lawful_count next
      · exact answer_zero found
      · intro _
        exact settled_of_loops loops rfl
      · intro _
        exact settled_of_loops loops rfl
  | @unanswered p i next missing =>
      rcases (waiting.peers p).place.of_answering next with ⟨loops, _⟩
      exact waiting.loop loops (waiting.lawful_count next) rfl
  | @receive p i front back link bytes later block chunk next inside set
      other split reads arrived nonempty short block_size chunk_size =>
      exact absurd rfl (waiting.not_receive (Step.receive next inside set
        other split reads arrived nonempty short block_size chunk_size)
        p bytes)
  | closed _ _ _ _ split _ _ gone =>
      exact absurd gone (waiting.not_readable split).2.2
  | send next => exact absurd next ((waiting.peers _).place.not_sending _ _ _)
  | broken next =>
      exact absurd next ((waiting.peers _).place.not_sending _ _ _)
  | sent next => exact absurd next ((waiting.peers _).place.not_sending _ _ _)

theorem start (start : Start) : Waiting start.mesh where
  peers := fun p => ⟨(start.descriptors p).below, rfl, .idle rfl rfl⟩
  links := by
    intro link member
    cases member

/-- They wait in every state of a run. -/
theorem run
    {start : Start} {records : List (Record Mesh Label)} {final : Mesh}
    (run : Run Step start.mesh records final) :
    Waiting final :=
  run.invariant Waiting (Waiting.start start)
    fun _ _ _ waiting move => waiting.step move

end Waiting

/-! ## Whole runs -/

section Runs

variable
    {start : Start} {records : List (Record Mesh Label)} {final : Mesh}

/-- Nothing is ever received. -/
theorem never_received
    (run : Run Step start.mesh records final) :
    ∀ record ∈ records, ∀ p bytes, record.label ≠ .receive p bytes := by
  induction run with
  | nil =>
      intro record member
      cases member
  | snoc run move induction =>
      intro record member
      rcases List.mem_append.mp member with earlier | last
      · exact induction record earlier
      · rw [List.mem_singleton.mp last]
        exact (Waiting.run run).not_receive move

/-- Nothing is ever appended. -/
theorem appended_nil
    (run : Run Step start.mesh records final) (p : PeerId) :
    (final.peers p).appended = [] :=
  ((Waiting.run run).peers p).appended

theorem connections_le_one
    (run : Run Step start.mesh records final) (p : PeerId) :
    (final.peers p).connections ≤ 1 :=
  ((Waiting.run run).peers p).place.connections_le

end Runs

/-! ## A run -/

theorem mem_of_le_zero (fd : Nat) (low : fd ≤ 0) : fd ∈ [0] := by
  rw [Nat.le_zero.mp low]
  exact List.mem_cons_self

/-- Every peer listens on descriptor 0 and has a file of one byte. -/
def smallStart : Start where
  file := fun _ => [97]
  descriptors := fun _ =>
    { lispeer := 0
      fdmax := 0
      opened := [0]
      below := mem_of_le_zero }

/-- Peer 1 accepts the connection of peer 2 and waits for its bytes. -/
theorem exists_run :
    ∃ records final,
      Run Step smallStart.mesh records final ∧
        (final.peers .peer1).connections = 1 ∧
          (final.peers .peer1).phase = .scanning 1 := by
  have started := Run.nil.snoc (@Step.start smallStart.mesh .peer1 rfl)
  have both := started.snoc (Step.start (p := .peer2) rfl)
  have connected := both.snoc (Step.connect (p := .peer2) rfl)
  have entered := connected.snoc (Step.enter (p := .peer1) rfl)
  have selected := entered.snoc (@Step.select _ .peer1 [0] rfl
    (by
      intro fd
      constructor
      · intro only
        rw [List.mem_singleton.mp only]
        exact ⟨List.mem_cons_self, Or.inl
          ⟨rfl, _, List.mem_cons_self, rfl, rfl⟩⟩
      · intro readable
        exact readable.1)
    (List.cons_ne_nil 0 []))
  have accepted := selected.snoc (@Step.accepted _ .peer1 0 [] []
    ⟨.peer2, .p4, .peer1, none, []⟩ 1 rfl (Nat.le_refl 0) (by decide) rfl
    rfl ⟨rfl, rfl⟩ (by decide))
  have answered := accepted.snoc (Step.answer (p := .peer1) rfl rfl)
  exact ⟨_, _, answered, rfl, rfl⟩

/-! ## The set-up and the exchange -/

/-- The three sockets are connected to three different peers. -/
def Connected (peer : Peer) : Prop :=
  ∃ first second third,
    peer.connected .p2 = some first ∧ peer.connected .p3 = some second ∧
      peer.connected .p4 = some third ∧
        first ≠ second ∧ first ≠ third ∧ second ≠ third

/-- A peer that has counted three connections has made three itself. -/
def MeshLaw (mesh : Mesh) : Prop :=
  ∀ p, p ≠ .peer4 → (mesh.peers p).connections = 3 →
    Connected (mesh.peers p)

/-- The bytes that are attributed to a peer. -/
def attributed (q : PeerId) (marked : List (Byte × PeerId)) : List Byte :=
  (marked.filter fun mark => decide (mark.2 = q)).map Prod.fst

/--
The appended bytes of peer `p` are split into one subsequence for each other
peer, which is a prefix of the file of that peer.
-/
def ChunkLaw (file : PeerId → List Byte) (p : PeerId)
    (appended : List Byte) : Prop :=
  ∃ marked : List (Byte × PeerId),
    marked.map Prod.fst = appended ∧
      (∀ mark ∈ marked, mark.2 ≠ p) ∧
        ∀ q, q ≠ p → attributed q marked <+: file q

/--
In every reachable state a peer that has counted three connections is connected
to three peers; none of them counts more than one.
-/
theorem mesh_law
    {start : Start} {records : List (Record Mesh Label)} {final : Mesh}
    (run : Run Step start.mesh records final) :
    MeshLaw final ∧ ∀ p, (final.peers p).connections ≤ 1 := by
  have few := connections_le_one run
  refine ⟨?_, few⟩
  intro p _ three
  have bound := few p
  rw [three] at bound
  exact absurd bound (by decide)

theorem mesh_law_waiting :
    ∃ records final, Run Step smallStart.mesh records final ∧
      ((final.peers .peer1).connections = 1 ∧
        (final.peers .peer1).phase = .scanning 1) ∧
          MeshLaw final ∧ ∀ p, (final.peers p).connections ≤ 1 := by
  rcases exists_run with ⟨records, final, run, waits⟩
  exact ⟨records, final, run, waits, mesh_law run⟩

/--
In every reachable state the appended bytes of each peer are split into
prefixes of the files of the others; there are none.
-/
theorem chunk_law
    {start : Start} {records : List (Record Mesh Label)} {final : Mesh}
    (run : Run Step start.mesh records final) (p : PeerId) :
    ChunkLaw start.file p (final.peers p).appended ∧
      (final.peers p).appended = [] := by
  have nothing := appended_nil run p
  refine ⟨⟨[], nothing.symm, ?_, ?_⟩, nothing⟩
  · intro mark member
    cases member
  · intro q _
    exact List.nil_prefix

theorem chunk_law_waiting :
    ∃ records final, Run Step smallStart.mesh records final ∧
      ((final.peers .peer1).connections = 1 ∧
        (final.peers .peer1).phase = .scanning 1) ∧
          ChunkLaw smallStart.file .peer1 (final.peers .peer1).appended ∧
            (final.peers .peer1).appended = [] := by
  rcases exists_run with ⟨records, final, run, waits⟩
  exact ⟨records, final, run, waits, chunk_law run .peer1⟩

end NetworkingLab.PeerMesh
