import NetworkingLab.Foundation.Runs
import NetworkingLab.Foundation.Words
import NetworkingLab.PeerDirectory.EndMark

/-!
# Looking up a file in the directory

A peer asks for one file and gets the port of a peer that has it.  `find` looks
for the name with `strstr` in the whole list of a peer, so it also stops at a
list with a longer name that contains it.

`lookups_right_iff` compares the replies with the earliest registration that
has the file.
-/

namespace NetworkingLab.PeerDirectory

open NetworkingLab.Foundation.CString
open NetworkingLab.Foundation.Runs
open NetworkingLab.Foundation.Words

/-- The names of a list stand between blanks. -/
def separator (c : Byte) : Bool :=
  c == 32

/-- The file names of a registration. -/
def Pack.names (packet : Pack) : List (List Byte) :=
  words separator (cString packet.filenames)

/-- The pack asks for one file. -/
def Pack.OneName (packet : Pack) : Prop :=
  cString packet.filenames ≠ [] ∧
    Solid separator (cString packet.filenames)

instance (packet : Pack) : Decidable packet.OneName :=
  inferInstanceAs (Decidable (_ ∧ _))

/-- The registration has the file. -/
def Pack.Has (file : List Byte) (packet : Pack) : Prop :=
  cString file ∈ packet.names

instance (file : List Byte) (packet : Pack) :
    Decidable (packet.Has file) :=
  inferInstanceAs (Decidable (_ ∈ _))

/-- The name is part of one of the registration's names. -/
def Pack.HasPart (file : List Byte) (packet : Pack) : Prop :=
  ∃ name ∈ packet.names, cString file <:+: name

instance (file : List Byte) (packet : Pack) :
    Decidable (packet.HasPart file) :=
  List.decidableBEx (fun name => cString file <:+: name) packet.names

/-- The port of the earliest registration that has the file, else 0. -/
def earliest (registered : List Pack) (file : List Byte) : Int :=
  ((registered.find? fun packet => packet.Has file).map Pack.prt).getD 0

/-- The server, with the registrations it has received. -/
structure History where
  directory : Directory
  registered : List Pack

/-- A pack and what is sent for it. -/
structure Served where
  packet : Pack
  reply : Option Int

/-- The server takes the next pack. -/
def History.perform (state : History) (packet : Pack) :
    Option (Served × History) :=
  let handling := state.directory.handle packet
  handling.next.map fun next =>
    (⟨packet, handling.reply⟩,
      ⟨next,
        if packet.type = 1 then
          state.registered ++ [packet]
        else
          state.registered⟩)

/-- A lookup is answered with the earliest registration's port. -/
def Right (record : Record History Served) : Prop :=
  record.label.packet.type = 2 →
    record.label.reply =
      some
        (earliest record.before.registered
          record.label.packet.filenames)

/--
The first registration with a name that the requested one is part of has the
requested file, or it has the port of the first one that has.
-/
def Unmistaken (record : Record History Served) : Prop :=
  record.label.packet.type = 2 →
    ∀ packet ∈ record.before.registered.find? fun packet =>
        packet.HasPart record.label.packet.filenames,
      packet.Has record.label.packet.filenames ∨
        ∃ owner ∈ record.before.registered.find? fun packet =>
            packet.Has record.label.packet.filenames,
          owner.prt = packet.prt

/-! ## Parts and names -/

/-- For one name, `strstr` finds the parts of names. -/
theorem mentions_iff_hasPart
    {request packet : Pack} (oneName : request.OneName) :
    packet.Mentions request.filenames ↔
      packet.HasPart request.filenames := by
  constructor
  · intro part
    exact exists_word_of_infix separator oneName.2 oneName.1 part
  · rintro ⟨name, member, part⟩
    exact part.trans (solid_of_mem_words separator member).2.2

theorem Pack.Has.hasPart
    {file : List Byte} {packet : Pack} (has : packet.Has file) :
    packet.HasPart file :=
  ⟨_, has, List.infix_rfl⟩

variable
    {registered : List Pack} {file : List Byte}

/-- Who has the file is found among those that have it as a part. -/
theorem find_has_of_part
    {packet : Pack}
    (part : (registered.find? fun packet => packet.HasPart file) =
      some packet)
    (has : packet.Has file) :
    (registered.find? fun packet => packet.Has file) = some packet := by
  rw [List.find?_eq_some_iff_append] at part ⊢
  rcases part with ⟨_, before, after, shape, earlier⟩
  refine ⟨by simpa using has, before, after, shape, ?_⟩
  intro other member
  have apart := earlier other member
  simp only [Bool.not_eq_true', decide_eq_false_iff_not] at apart ⊢
  exact fun has => apart has.hasPart

theorem find_has_none
    (part : (registered.find? fun packet => packet.HasPart file) = none) :
    (registered.find? fun packet => packet.Has file) = none := by
  rw [List.find?_eq_none] at part ⊢
  intro packet member has
  apply part packet member
  simpa using (of_decide_eq_true has).hasPart

/-- What the first part finds and what the first name finds agree. -/
theorem parts_agree_iff
    (visible : ∀ packet ∈ registered, packet.prt ≠ 0) :
    ((registered.find? fun packet =>
          packet.HasPart file).map Pack.prt).getD 0 =
        earliest registered file ↔
      ∀ packet ∈ registered.find? fun packet => packet.HasPart file,
        packet.Has file ∨
          ∃ owner ∈ registered.find? fun packet => packet.Has file,
            owner.prt = packet.prt := by
  cases part : registered.find? fun packet => packet.HasPart file with
  | none => simp [earliest, find_has_none part]
  | some packet =>
      have nonzero := visible packet (List.mem_of_find?_eq_some part)
      simp only [Option.map_some, Option.getD_some, Option.mem_def,
        Option.some.injEq, forall_eq']
      constructor
      · intro same
        cases owned : registered.find? fun packet => packet.Has file with
        | none =>
            rw [earliest, owned] at same
            exact absurd same nonzero
        | some owner =>
            rw [earliest, owned] at same
            exact Or.inr ⟨owner, rfl, same.symm⟩
      · rintro (has | ⟨owner, owned, same⟩)
        · rw [earliest, find_has_of_part part has]
          rfl
        · rw [earliest, owned]
          exact same.symm

/-! ## Runs of the directory -/

variable
    {initial : List Slot} {directory : Directory} {packet : Pack}

/-- What is sent for a lookup. -/
theorem lookup_reply
    (holds : directory.Holds initial registered)
    (marked : Marked initial registered.length)
    (looksUp : packet.LooksUp) (oneName : packet.OneName) :
    (directory.handle packet).reply =
      some
        (((registered.find? fun other =>
          other.HasPart packet.filenames).map Pack.prt).getD 0) := by
  have found := (find_marked holds marked looksUp.2.2).1
  have same : (fun other : Pack =>
        decide (other.Mentions packet.filenames)) =
      fun other => decide (other.HasPart packet.filenames) := by
    funext other
    exact decide_eq_decide.mpr (mentions_iff_hasPart oneName)
  rw [same] at found
  simp [Directory.handle, looksUp.1, found]

/-- Step lemma for a lookup. -/
theorem lookup_right_iff
    (holds : directory.Holds initial registered)
    (marked : Marked initial registered.length)
    (looksUp : packet.LooksUp) (oneName : packet.OneName)
    (after : History) :
    Right
        ⟨⟨directory, registered⟩,
          ⟨packet, (directory.handle packet).reply⟩, after⟩ ↔
      Unmistaken
        ⟨⟨directory, registered⟩,
          ⟨packet, (directory.handle packet).reply⟩, after⟩ := by
  rw [Right, Unmistaken, lookup_reply holds marked looksUp oneName]
  simp only [looksUp.1, forall_const, Option.some.injEq]
  rcases holds.filled with ⟨_, records, _⟩
  exact parts_agree_iff (records_visible records)

/-- Step lemma for a registration: nothing is sent. -/
theorem register_right_iff
    (registers : packet.Registers) (before after : History)
    (reply : Option Int) :
    Right ⟨before, ⟨packet, reply⟩, after⟩ ↔
      Unmistaken ⟨before, ⟨packet, reply⟩, after⟩ := by
  simp [Right, Unmistaken, registers.1]

/-- The run lemma, from any table that holds some registrations. -/
theorem lookups_right_from
    (rooms : ∀ slot ∈ initial, slot.files.length = 100)
    (size : initial.length = 50)
    (blank : ∀ slot ∈ initial, slot.port = 0)
    (packets : List Pack)
    (kinds : ∀ packet ∈ packets,
      packet.Registers ∨ packet.LooksUp ∧ packet.OneName)
    (holds : directory.Holds initial registered)
    (few : registered.length + registrations packets < 50) :
    ∃ records final,
      execute History.perform ⟨directory, registered⟩ packets =
          some (records, final) ∧
        ((∀ record ∈ records, Right record) ↔
          ∀ record ∈ records, Unmistaken record) := by
  have marks : ∀ count, count < 50 → Marked initial count := by
    intro count inside
    rw [← size] at inside
    exact
      ⟨initial[count], List.getElem?_eq_getElem inside,
        blank _ (List.getElem_mem inside)⟩
  induction packets generalizing directory registered with
  | nil => exact ⟨[], _, rfl, by simp⟩
  | cons packet packets induction =>
      have later := fun other member =>
        kinds other (List.mem_cons_of_mem packet member)
      rcases kinds packet List.mem_cons_self with
        registers | ⟨looksUp, oneName⟩
      · have more : registrations (packet :: packets) =
            registrations packets + 1 := by
          simp [registrations, registers.1]
        rw [more] at few
        rcases register_sound_iff holds rooms (by omega) registers with
          ⟨call, next, _, decides, held, goes_on⟩
        have handled := goes_on (decides.mpr (marks _ (by omega)))
        have length : (registered ++ [packet]).length =
            registered.length + 1 := List.length_append
        rcases induction later held (by omega) with
          ⟨records, final, ran, decided⟩
        refine
          ⟨⟨⟨directory, registered⟩,
              ⟨packet, (directory.handle packet).reply⟩,
              ⟨next, registered ++ [packet]⟩⟩ :: records,
            final, ?_, ?_⟩
        · rw [execute, History.perform, handled]
          simp [registers.1, ran]
        · rw [List.forall_mem_cons, List.forall_mem_cons, decided,
            register_right_iff registers]
      · have same : registrations (packet :: packets) =
            registrations packets := by
          simp [registrations, looksUp.1]
        rw [same] at few
        have marked := marks registered.length (by omega)
        rcases lookup_marked holds marked looksUp with
          ⟨_, _, _, handled⟩
        rcases induction later holds few with
          ⟨records, final, ran, decided⟩
        refine
          ⟨⟨⟨directory, registered⟩,
              ⟨packet, (directory.handle packet).reply⟩,
              ⟨directory, registered⟩⟩ :: records,
            final, ?_, ?_⟩
        · rw [execute, History.perform, handled]
          simp [looksUp.1, ran]
        · rw [List.forall_mem_cons, List.forall_mem_cons, decided,
            lookup_right_iff holds marked looksUp oneName]

/--
For every sequence of fewer than 50 registrations and any lookups on a zeroed
table: the server serves them all, and all replies are those of the earliest
registration with the file exactly if no lookup is mistaken.
-/
theorem lookups_right_iff
    (initial : List Slot) (size : initial.length = 50)
    (rooms : ∀ slot ∈ initial, slot.files.length = 100)
    (blank : ∀ slot ∈ initial, slot.port = 0)
    (packets : List Pack)
    (kinds : ∀ packet ∈ packets,
      packet.Registers ∨ packet.LooksUp ∧ packet.OneName)
    (few : registrations packets < 50) :
    ∃ records final,
      execute History.perform ⟨⟨initial, 0⟩, []⟩ packets =
          some (records, final) ∧
        ((∀ record ∈ records, Right record) ↔
          ∀ record ∈ records, Unmistaken record) :=
  lookups_right_from rooms size blank packets kinds
    (holds_start initial) (by simpa using few)

instance (record : Record History Served) :
    Decidable (Right record) :=
  inferInstanceAs (Decidable (_ → _ = _))

instance (record : Record History Served) :
    Decidable (Unmistaken record) :=
  inferInstanceAs
    (Decidable (_ → ∀ packet ∈ _, _ ∨ ∃ owner ∈ _, _ = _))

/-- Registrations of "a b" and "c", and lookups of b, c and d. -/
def distinctNames : List Pack :=
  [packOf 1 5000 [97, 32, 98], packOf 2 0 [98], packOf 1 5001 [99],
    packOf 2 0 [99], packOf 2 0 [100]]

theorem lookups_right_distinct :
    ∃ records final,
      execute History.perform ⟨⟨zeroTable, 0⟩, []⟩ distinctNames =
          some (records, final) ∧
        ∀ record ∈ records, Right record := by
  rcases lookups_right_iff zeroTable rfl zeroTable_rooms
      (fun slot member => by rw [List.eq_of_mem_replicate member])
      distinctNames (by decide) (by decide) with
    ⟨records, final, ran, decided⟩
  have unmistaken :
      (execute History.perform ⟨⟨zeroTable, 0⟩, []⟩ distinctNames).map
        (fun result =>
          result.1.all fun record => decide (Unmistaken record)) =
        some true := by
    decide +kernel
  simp only [ran, Option.map_some, Option.some.injEq, List.all_eq_true,
    decide_eq_true_eq] at unmistaken
  exact ⟨records, final, ran, decided.mpr unmistaken⟩

/-- With the list "ab" registered, a lookup of a gets its port. -/
theorem part_of_name_found :
    ¬ ∀ (initial : List Slot), initial.length = 50 →
        (∀ slot ∈ initial, slot.files.length = 100) →
        (∀ slot ∈ initial, slot.port = 0) →
        ∀ packets : List Pack,
          (∀ packet ∈ packets,
            packet.Registers ∨ packet.LooksUp ∧ packet.OneName) →
          registrations packets < 50 →
            ∃ records final,
              execute History.perform ⟨⟨initial, 0⟩, []⟩ packets =
                  some (records, final) ∧
                ∀ record ∈ records, Right record := by
  intro claim
  rcases claim zeroTable rfl zeroTable_rooms
      (fun slot member => by rw [List.eq_of_mem_replicate member])
      [packOf 1 5000 [97, 98], packOf 2 0 [97]] (by decide)
      (by decide) with
    ⟨records, final, ran, right⟩
  have wrong :
      (execute History.perform ⟨⟨zeroTable, 0⟩, []⟩
          [packOf 1 5000 [97, 98], packOf 2 0 [97]]).map
        (fun result =>
          result.1.all fun record => decide (Right record)) =
        some false := by
    decide +kernel
  rw [ran, Option.map_some, Option.some.injEq, List.all_eq_false]
    at wrong
  rcases wrong with ⟨record, recorded, mistaken⟩
  exact mistaken (decide_eq_true (right record recorded))

end NetworkingLab.PeerDirectory
