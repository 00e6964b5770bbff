import NetworkingLab.PeerDirectory.Table

/-!
# The end mark of the directory

Both loops over the table trust that the slot behind the last registration has
port 0.  The array is not initialised, and 50 registrations leave no slot behind
them.

`calls_sound_iff` says for which initial contents and sequences of packs all
calls stay on filled slots and one end mark: the slots that come to stand behind
a registration must have had port 0 from the start.
-/

namespace NetworkingLab.PeerDirectory

open NetworkingLab.Foundation.CString
open NetworkingLab.Foundation.Sentinel

/--
The call inspects filled slots and at most one other, which is a slot of the
table with port 0.
-/
def Call.Sound (call : Call) : Prop :=
  ∀ i ∈ call.inspected, i < call.filled ∨
    Marked call.head i ∧ ∀ j ∈ call.inspected, call.filled ≤ j → j = i

/-- All calls that a sequence of packs leads to. -/
def Directory.calls (directory : Directory) : List Pack → List Call
  | [] => []
  | packet :: packets =>
      let handling := directory.handle packet
      handling.calls ++
        match handling.next with
        | none => []
        | some next => next.calls packets

/-- How many registrations there are. -/
def registrations (packets : List Pack) : Nat :=
  packets.countP fun packet => packet.type = 1

variable
    {initial : List Slot} {directory : Directory}
    {registered : List Pack} {packet : Pack}

/-- The slot behind the filled ones is as it was initially. -/
theorem Directory.Holds.marked_iff
    (holds : directory.Holds initial registered) :
    Marked directory.head registered.length ↔
      Marked initial registered.length := by
  rcases holds with ⟨_, taken, records, head⟩
  have same : directory.head[registered.length]? =
      initial[registered.length]? := by
    rw [head, List.getElem?_append_right records.length_eq.le,
      records.length_eq, List.getElem?_drop]
    simp
  rw [Marked, Marked, same]

/-- A call that stops at an end mark behind the filled slots. -/
theorem sound_of_marked
    {count : Nat} {head : List Slot} {inspected : List Nat}
    (marked : Marked head count) (bounded : ∀ j ∈ inspected, j ≤ count) :
    Call.Sound ⟨count, head, inspected⟩ := by
  intro i member
  rcases Nat.lt_or_eq_of_le (bounded i member) with inside | rfl
  · exact Or.inl inside
  · refine Or.inr ⟨marked, ?_⟩
    intro j inspects outside
    exact Nat.le_antisymm (bounded j inspects) outside

/-- A call that goes behind the filled slots has to find an end mark. -/
theorem marked_of_sound
    {count : Nat} {head : List Slot} {inspected : List Nat}
    (sound : Call.Sound ⟨count, head, inspected⟩)
    (inspects : count ∈ inspected) : Marked head count := by
  rcases sound count inspects with inside | ⟨marked, _⟩
  · exact absurd inside (Nat.lt_irrefl count)
  · exact marked

/-- What a lookup does when the filled slots have an end mark. -/
theorem lookup_marked
    (holds : directory.Holds initial registered)
    (marked : Marked initial registered.length)
    (looksUp : packet.LooksUp) :
    ∃ call, call.Sound ∧
      (directory.handle packet).calls = [call] ∧
      (directory.handle packet).next = some directory := by
  rcases looksUp with ⟨lookup, _, terminated⟩
  rcases find_marked holds marked terminated with ⟨found, bounded⟩
  have sound := sound_of_marked (holds.marked_iff.mpr marked) bounded
  rw [← holds.count] at sound
  refine ⟨_, sound, ?_, ?_⟩
  · simp [Directory.handle, lookup]
  · simp [Directory.handle, lookup, found]

/-- A lookup in the empty table needs the first slot as end mark. -/
theorem marked_of_lookup
    (holds : directory.Holds initial [])
    (looksUp : packet.LooksUp)
    (sound : ∀ call ∈ (directory.handle packet).calls, call.Sound) :
    Marked initial 0 := by
  have first := holds.marked_iff
  have empty := holds.count
  simp only [List.length_nil] at first empty
  have call : (directory.handle packet).calls =
      [⟨0, directory.head,
        (find packet.filenames directory.head).inspected⟩] := by
    simp [Directory.handle, looksUp.1, empty]
  simp only [call, List.mem_singleton, forall_eq] at sound
  exact first.mp (marked_of_sound sound (mem_inspected 0 _))

/-- A registration needs the slot behind it as end mark. -/
theorem register_sound_iff
    (holds : directory.Holds initial registered)
    (rooms : ∀ slot ∈ initial, slot.files.length = 100)
    (free : registered.length < initial.length)
    (registers : packet.Registers) :
    ∃ call next,
      (directory.handle packet).calls = [call] ∧
        (call.Sound ↔ Marked initial (registered.length + 1)) ∧
        next.Holds initial (registered ++ [packet]) ∧
        (call.Sound → (directory.handle packet).next = some next) := by
  rcases holds.store rooms free registers with ⟨head, stored, later⟩
  have length : (registered ++ [packet]).length =
      registered.length + 1 := List.length_append
  have decides :
      Call.Sound ⟨directory.peercnt + 1, head,
          (printlist head).inspected⟩ ↔
        Marked initial (registered.length + 1) := by
    rw [← length, ← later.marked_iff, holds.count, ← length]
    constructor
    · intro sound
      exact marked_of_sound sound (printlist_inspects later)
    · intro marked
      exact sound_of_marked marked
        (printlist_marked later (later.marked_iff.mp marked)).2
  refine ⟨_, _, ?_, decides, later, ?_⟩
  · simp [Directory.handle, registers.1, stored]
  · intro sound
    have marked := decides.mp sound
    rw [← length] at marked
    have stops := (printlist_marked later marked).1
    rcases Option.isSome_iff_exists.mp stops with ⟨outcome, stopped⟩
    simp [Directory.handle, registers.1, stored, stopped]

/--
The condition on the initial table: whatever comes to stand behind a
registration, and the first slot if a lookup comes first, has port 0.
-/
def EndMarks (initial : List Slot) (before : Nat)
    (packets : List Pack) : Prop :=
  (∀ k, before < k → k ≤ before + registrations packets →
      Marked initial k) ∧
    (before = 0 → (∃ packet ∈ packets.head?, packet.type = 2) →
      Marked initial 0)

theorem endMarks_lookup
    (before : Nat) (looksUp : packet.LooksUp)
    (packets : List Pack) (marked : Marked initial before) :
    EndMarks initial before (packet :: packets) ↔
      EndMarks initial before packets := by
  have same : registrations (packet :: packets) =
      registrations packets := by
    simp [registrations, looksUp.1]
  rw [EndMarks, EndMarks, same]
  constructor
  · rintro ⟨behind, _⟩
    exact ⟨behind, fun empty _ => empty ▸ marked⟩
  · rintro ⟨behind, _⟩
    exact ⟨behind, fun empty _ => empty ▸ marked⟩

theorem endMarks_register
    (before : Nat) (registers : packet.Registers)
    (packets : List Pack) :
    EndMarks initial before (packet :: packets) ↔
      Marked initial (before + 1) ∧
        EndMarks initial (before + 1) packets := by
  have more : registrations (packet :: packets) =
      registrations packets + 1 := by
    simp [registrations, registers.1]
  rw [EndMarks, EndMarks, more]
  constructor
  · rintro ⟨behind, _⟩
    refine ⟨behind _ (Nat.lt_succ_self _) (by omega), ?_, by simp⟩
    intro k above bound
    exact behind k (by omega) (by omega)
  · rintro ⟨next, behind, _⟩
    constructor
    · intro k above bound
      rcases Nat.lt_or_eq_of_le (Nat.succ_le_of_lt above) with far | rfl
      · exact behind k far (by omega)
      · exact next
    · rintro _ ⟨first, member, lookup⟩
      have same : packet = first := by simpa using member
      rw [← same, registers.1] at lookup
      cases lookup

/-- The run lemma, from any table that holds some registrations. -/
theorem calls_sound_from
    (rooms : ∀ slot ∈ initial, slot.files.length = 100)
    (size : initial.length = 50) (packets : List Pack)
    (kinds : ∀ packet ∈ packets, packet.Registers ∨ packet.LooksUp)
    (holds : directory.Holds initial registered)
    (marked : registered ≠ [] → Marked initial registered.length) :
    (∀ call ∈ directory.calls packets, call.Sound) ↔
      EndMarks initial registered.length packets := by
  induction packets generalizing directory registered with
  | nil =>
      simp only [Directory.calls, EndMarks, registrations]
      constructor
      · intro _
        refine ⟨?_, by simp⟩
        intro k above bound
        simp only [List.countP_nil] at bound
        omega
      · simp
  | cons packet packets induction =>
      have later := fun other member =>
        kinds other (List.mem_cons_of_mem packet member)
      rw [Directory.calls]
      rcases kinds packet List.mem_cons_self with registers | looksUp
      · have free : registered.length < initial.length := by
          by_cases empty : registered = []
          · simp [empty, size]
          · rcases marked empty with ⟨slot, here, _⟩
            exact (List.getElem?_eq_some_iff.mp here).1
        rcases register_sound_iff holds rooms free registers with
          ⟨call, next, calls, decides, held, goes_on⟩
        have length : (registered ++ [packet]).length =
            registered.length + 1 := List.length_append
        rw [calls, endMarks_register _ registers]
        simp only [List.singleton_append, List.mem_cons, or_imp,
          forall_and, forall_eq, decides]
        apply and_congr_right
        intro behind
        rw [goes_on (decides.mpr behind), ← length]
        exact induction later held fun _ => length ▸ behind
      · by_cases behind : Marked initial registered.length
        · rcases lookup_marked holds behind looksUp with
            ⟨call, sound, calls, next⟩
          rw [calls, next, endMarks_lookup _ looksUp _ behind]
          simp only [List.singleton_append, List.mem_cons, or_imp,
            forall_and, forall_eq, sound, true_and]
          exact induction later holds marked
        · have empty : registered = [] := by
            by_contra nonempty
            exact behind (marked nonempty)
          subst empty
          constructor
          · intro sound
            refine absurd (marked_of_lookup holds looksUp ?_) behind
            exact fun call member =>
              sound call (List.mem_append_left _ member)
          · rintro ⟨_, first⟩
            exact absurd (first rfl ⟨packet, rfl, looksUp.1⟩) behind

/--
For every initial table and every sequence of registrations and lookups: all
calls of `find` and `printlist` stay on filled slots and one end mark exactly
if the initial table has the end marks.
-/
theorem calls_sound_iff
    (initial : List Slot) (size : initial.length = 50)
    (rooms : ∀ slot ∈ initial, slot.files.length = 100)
    (packets : List Pack)
    (kinds : ∀ packet ∈ packets, packet.Registers ∨ packet.LooksUp) :
    (∀ call ∈ Directory.calls ⟨initial, 0⟩ packets, call.Sound) ↔
      EndMarks initial 0 packets :=
  calls_sound_from rooms size packets kinds (holds_start initial)
    fun nonempty => absurd rfl nonempty

/-- A lookup, a registration and two more lookups. -/
def fewPackets : List Pack :=
  [packOf 2 0 [97], packOf 1 5000 [97, 32, 98], packOf 2 0 [98],
    packOf 2 0 [99]]

/-- A zeroed table has its end marks. -/
theorem calls_sound_on_zeroes :
    EndMarks zeroTable 0 fewPackets ∧
      ∀ call ∈ Directory.calls ⟨zeroTable, 0⟩ fewPackets, call.Sound := by
  have marks : EndMarks zeroTable 0 fewPackets := by
    constructor
    · intro k _ bound
      have few : registrations fewPackets = 1 := by decide
      rw [few] at bound
      exact zeroTable_marked (by omega)
    · intro _ _
      exact zeroTable_marked (by omega)
  exact ⟨marks,
    (calls_sound_iff zeroTable rfl zeroTable_rooms fewPackets
      (by decide)).mpr marks⟩

/--
Fifty registrations fill a zeroed table; the last call of `printlist` goes on
behind it.
-/
theorem full_table_has_no_end :
    ¬ ∀ (initial : List Slot), initial.length = 50 →
        (∀ slot ∈ initial, slot.files.length = 100) →
        ∀ packets : List Pack,
          (∀ packet ∈ packets, packet.Registers ∨ packet.LooksUp) →
          registrations packets ≤ 50 →
            ∀ call ∈ Directory.calls ⟨initial, 0⟩ packets,
              call.Sound := by
  intro claim
  let packets := List.replicate 50 (packOf 1 5000 [97])
  have kinds : ∀ packet ∈ packets,
      packet.Registers ∨ packet.LooksUp := by
    intro packet member
    rw [List.eq_of_mem_replicate member]
    decide
  have count : registrations packets = 50 := by
    simp [registrations, packets, packOf]
  have sound := claim zeroTable rfl zeroTable_rooms packets kinds count.le
  have marks :=
    (calls_sound_from zeroTable_rooms rfl packets kinds
      (holds_start zeroTable) fun nonempty => absurd rfl nonempty).mp
      sound
  rcases marks.1 50 (by simp) (by simp [count]) with ⟨slot, here, _⟩
  cases here

end NetworkingLab.PeerDirectory
