import NetworkingLab.Foundation.CString
import NetworkingLab.Foundation.Sentinel
import Mathlib.Data.List.Forall2
import Mathlib.Data.List.Infix

/-!
# The table of the peer directory

The directory server keeps a port and a list of file names for each peer that
has registered, in an array `head` of 50 slots on its stack.  `find` and
`printlist` go through it up to the first slot with port 0.  Nothing writes
that slot: it is what the array held when the server started.
-/

namespace NetworkingLab.PeerDirectory

open NetworkingLab.Foundation.CString
open NetworkingLab.Foundation.Sentinel

/-- `struct pack`, what peers send. -/
structure Pack where
  type : Int
  prt : Int
  filenames : List Byte
  deriving DecidableEq

/-- `struct packlist`, a slot of the table. -/
structure Slot where
  port : Int
  files : List Byte

/-- `strstr(haystack, needle) != NULL`. -/
def strstr (haystack needle : List Byte) : Option Bool :=
  if 0 ∈ haystack ∧ 0 ∈ needle then
    some (decide (cString needle <:+: cString haystack))
  else
    none

/-- The loop test of `find` and `printlist`. -/
def Slot.isEnd (slot : Slot) : Bool :=
  decide (slot.port = 0)

/-- The body of `find` at a slot. -/
def Slot.compare (file : List Byte) (slot : Slot) : Visit Int :=
  match strstr slot.files file with
  | none => .unreadable
  | some true => .done slot.port
  | some false => .next

/-- The body of `printlist` at a slot. -/
def Slot.print (slot : Slot) : Visit Empty :=
  if 0 ∈ slot.files then .next else .unreadable

/-- The slots `find` goes through, and the port it finds. -/
def find (file : List Byte) (head : List Slot) : Walk Int :=
  walk Slot.isEnd (Slot.compare file) 0 head

/-- The slots `printlist` goes through. -/
def printlist (head : List Slot) : Walk Empty :=
  walk Slot.isEnd Slot.print 0 head

/-- The variables of the directory server. -/
structure Directory where
  head : List Slot
  peercnt : Nat

/-- A registration is written to slot `peercnt`. -/
def Directory.store (directory : Directory) (packet : Pack) :
    Option (List Slot) :=
  match directory.head[directory.peercnt]? with
  | none => none
  | some slot =>
      (strcpy slot.files packet.filenames).map fun files =>
        directory.head.set directory.peercnt ⟨packet.prt, files⟩

/-- A call of `find` or `printlist`: filled slots, table, inspected slots. -/
structure Call where
  filled : Nat
  head : List Slot
  inspected : List Nat

/--
What the server does with a pack: the calls it makes, its state after them and
the number it sends.  Without a state the pack has led outside the table.
-/
structure Handling where
  calls : List Call
  next : Option Directory
  reply : Option Int

/-- The branches for a pack that has been received. -/
def Directory.handle (directory : Directory) (packet : Pack) :
    Handling :=
  if packet.type = 1 then
    match directory.store packet with
    | none => ⟨[], none, none⟩
    | some head =>
        let printed := printlist head
        ⟨[⟨directory.peercnt + 1, head, printed.inspected⟩],
          printed.outcome.map fun _ => ⟨head, directory.peercnt + 1⟩,
          none⟩
  else if packet.type = 2 then
    let found := find packet.filenames directory.head
    ⟨[⟨directory.peercnt, directory.head, found.inspected⟩],
      found.outcome.map fun _ => directory,
      found.outcome.map fun port => port.getD 0⟩
  else
    ⟨[], some directory, none⟩

/-- The names in the pack are a string in 100 bytes. -/
def Pack.Text (packet : Pack) : Prop :=
  packet.filenames.length = 100 ∧ 0 ∈ packet.filenames

instance (packet : Pack) : Decidable packet.Text :=
  inferInstanceAs (Decidable (_ ∧ _))

/-- A registration with a port. -/
def Pack.Registers (packet : Pack) : Prop :=
  packet.type = 1 ∧ packet.prt ≠ 0 ∧ packet.Text

instance (packet : Pack) : Decidable packet.Registers :=
  inferInstanceAs (Decidable (_ ∧ _ ∧ _))

/-- A lookup. -/
def Pack.LooksUp (packet : Pack) : Prop :=
  packet.type = 2 ∧ packet.Text

instance (packet : Pack) : Decidable packet.LooksUp :=
  inferInstanceAs (Decidable (_ ∧ _))

/-! ## What the table holds -/

/-- The slot has been filled by this registration. -/
structure Slot.Records (slot : Slot) (packet : Pack) : Prop where
  port : slot.port = packet.prt
  visible : packet.prt ≠ 0
  files : cString slot.files = cString packet.filenames
  terminated : 0 ∈ slot.files

/--
The registrations stand in the first slots in their order, the other slots are
as they were initially.
-/
structure Directory.Holds (directory : Directory)
    (initial : List Slot) (registered : List Pack) : Prop where
  count : directory.peercnt = registered.length
  filled : ∃ taken, List.Forall₂ Slot.Records taken registered ∧
    directory.head = taken ++ initial.drop registered.length

/-- The slot behind `count` others ends the table. -/
def Marked (initial : List Slot) (count : Nat) : Prop :=
  ∃ slot, initial[count]? = some slot ∧ slot.port = 0

theorem holds_start (initial : List Slot) :
    Directory.Holds ⟨initial, 0⟩ initial [] :=
  ⟨rfl, [], .nil, rfl⟩

theorem records_mem
    {taken : List Slot} {registered : List Pack}
    (records : List.Forall₂ Slot.Records taken registered)
    {slot : Slot} (member : slot ∈ taken) :
    slot.port ≠ 0 ∧ 0 ∈ slot.files := by
  induction records with
  | nil => cases member
  | cons here _ induction =>
      rcases List.mem_cons.mp member with rfl | later
      · refine ⟨?_, here.terminated⟩
        rw [here.port]
        exact here.visible
      · exact induction later

theorem records_visible
    {taken : List Slot} {registered : List Pack}
    (records : List.Forall₂ Slot.Records taken registered) :
    ∀ packet ∈ registered, packet.prt ≠ 0 := by
  intro packet member
  induction records with
  | nil => cases member
  | cons here _ induction =>
      rcases List.mem_cons.mp member with rfl | later
      · exact here.visible
      · exact induction later

theorem Marked.drop
    {initial : List Slot} {count : Nat} (marked : Marked initial count) :
    ∃ mark rest, initial.drop count = mark :: rest ∧
      mark.isEnd = true := by
  rcases marked with ⟨slot, here, ends⟩
  rw [List.getElem?_eq_some_iff] at here
  rcases here with ⟨inside, rfl⟩
  refine ⟨_, _, List.drop_eq_getElem_cons inside, ?_⟩
  simpa [Slot.isEnd] using ends

variable
    {initial : List Slot} {directory : Directory}
    {registered : List Pack} {packet : Pack}

/-- A registration fills the next slot. -/
theorem Directory.Holds.store
    (holds : directory.Holds initial registered)
    (rooms : ∀ slot ∈ initial, slot.files.length = 100)
    (free : registered.length < initial.length)
    (registers : packet.Registers) :
    ∃ head, directory.store packet = some head ∧
      Directory.Holds ⟨head, directory.peercnt + 1⟩ initial
        (registered ++ [packet]) := by
  rcases holds with ⟨count, taken, records, head⟩
  rcases registers with ⟨_, visible, size, terminated⟩
  have length := records.length_eq
  have dropped := List.drop_eq_getElem_cons free
  have room := rooms _ (List.getElem_mem free)
  have here : directory.head[directory.peercnt]? =
      some initial[registered.length] := by
    rw [head, count, dropped, List.getElem?_append_right length.le,
      length, Nat.sub_self]
    rfl
  have fits : (cString packet.filenames).length <
      initial[registered.length].files.length := by
    rw [room, ← size]
    exact cString_length_lt terminated
  obtain ⟨files, copied⟩ : ∃ files,
      strcpy initial[registered.length].files packet.filenames =
        some files :=
    ⟨_, (strcpy_eq_some_iff _ _ _).mpr ⟨⟨terminated, fits⟩, rfl⟩⟩
  have written : directory.head.set directory.peercnt
      ⟨packet.prt, files⟩ =
        taken ++ [⟨packet.prt, files⟩] ++
          initial.drop (registered.length + 1) := by
    rw [head, count, dropped, List.set_append_right _ _ length.le,
      length, Nat.sub_self, List.set_cons_zero, List.append_assoc,
      List.singleton_append]
  refine
    ⟨directory.head.set directory.peercnt ⟨packet.prt, files⟩, ?_, ?_⟩
  · simp [Directory.store, here, copied]
  · constructor
    · simp [count]
    · refine ⟨taken ++ [⟨packet.prt, files⟩], ?_, ?_⟩
      · apply List.rel_append records
        exact
          .cons
            ⟨rfl, visible, strcpy_text copied, strcpy_terminated copied⟩
            .nil
      · simpa using written

/-! ## The two loops over the table -/

theorem records_isEnd
    {taken : List Slot}
    (records : List.Forall₂ Slot.Records taken registered)
    {slot : Slot} (member : slot ∈ taken) : slot.isEnd = false := by
  simpa [Slot.isEnd] using (records_mem records member).1

theorem records_print
    {taken : List Slot}
    (records : List.Forall₂ Slot.Records taken registered)
    {slot : Slot} (member : slot ∈ taken) : slot.print = .next :=
  if_pos (records_mem records member).2

/-- `printlist` goes behind the filled slots. -/
theorem printlist_inspects
    (holds : directory.Holds initial registered) :
    registered.length ∈ (printlist directory.head).inspected := by
  rcases holds with ⟨_, taken, records, head⟩
  rw [printlist, head,
    walk_append 0 taken _ (fun _ => records_isEnd records)
      (fun _ => records_print records),
    Nat.zero_add, records.length_eq]
  exact List.mem_append_right _ (mem_inspected _ _)

/-- At an end mark behind the filled slots `printlist` stops. -/
theorem printlist_marked
    (holds : directory.Holds initial registered)
    (marked : Marked initial registered.length) :
    (printlist directory.head).outcome.isSome ∧
      ∀ j ∈ (printlist directory.head).inspected,
        j ≤ registered.length := by
  rcases holds with ⟨_, taken, records, head⟩
  rcases marked.drop with ⟨mark, rest, dropped, ends⟩
  have readable : ∀ slot ∈ taken, slot.print ≠ .unreadable := by
    intro slot member
    simp [records_print records member]
  have walked := walk_marked 0 taken rest
    (fun _ => records_isEnd records) readable ends
  rw [Nat.zero_add, records.length_eq] at walked
  rw [printlist, head, dropped]
  exact ⟨by simp [walked.1], walked.2⟩

/-- The requested name is part of the list's string. -/
def Pack.Mentions (file : List Byte) (packet : Pack) : Prop :=
  cString file <:+: cString packet.filenames

instance (file : List Byte) (packet : Pack) :
    Decidable (packet.Mentions file) :=
  inferInstanceAs (Decidable (_ <:+: _))

/-- What `find` does at the slot of a registration. -/
theorem Slot.Records.compare
    {slot : Slot} (records : slot.Records packet)
    {file : List Byte} (terminated : 0 ∈ file) :
    slot.compare file =
      if packet.Mentions file then .done packet.prt else .next := by
  have same : cString file <:+: cString slot.files ↔
      packet.Mentions file := by
    rw [records.files, Pack.Mentions]
  by_cases mentions : packet.Mentions file
  · have part := same.mpr mentions
    simp [Slot.compare, strstr, records.terminated, terminated, part,
      mentions, records.port]
  · have apart : ¬ cString file <:+: cString slot.files :=
      fun part => mentions (same.mp part)
    simp [Slot.compare, strstr, records.terminated, terminated, apart,
      mentions]

theorem records_compare
    {taken : List Slot}
    (records : List.Forall₂ Slot.Records taken registered)
    {file : List Byte} (terminated : 0 ∈ file) :
    (∀ slot ∈ taken, slot.compare file ≠ .unreadable) ∧
      taken.findSome? (fun slot => (slot.compare file).answer) =
        (registered.find? fun packet =>
          packet.Mentions file).map Pack.prt := by
  induction records with
  | nil => simp
  | @cons slot packet taken registered here _ induction =>
      have first := here.compare terminated
      rw [List.findSome?_cons, List.find?_cons, first]
      by_cases mentions : packet.Mentions file
      · simp only [mentions, if_true, decide_true, Visit.answer,
          Option.map_some, and_true]
        intro other member
        rcases List.mem_cons.mp member with rfl | later
        · simp [first, mentions]
        · exact induction.1 other later
      · simp only [mentions, if_false, decide_false, Visit.answer]
        refine ⟨?_, induction.2⟩
        intro other member
        rcases List.mem_cons.mp member with rfl | later
        · simp [first, mentions]
        · exact induction.1 other later

/-- At an end mark behind the filled slots `find` has its answer. -/
theorem find_marked
    (holds : directory.Holds initial registered)
    (marked : Marked initial registered.length)
    {file : List Byte} (terminated : 0 ∈ file) :
    (find file directory.head).outcome =
        some ((registered.find? fun packet =>
          packet.Mentions file).map Pack.prt) ∧
      ∀ j ∈ (find file directory.head).inspected,
        j ≤ registered.length := by
  rcases holds with ⟨_, taken, records, head⟩
  rcases marked.drop with ⟨mark, rest, dropped, ends⟩
  rcases records_compare records terminated with ⟨readable, answers⟩
  have walked := walk_marked 0 taken rest
    (fun _ => records_isEnd records) readable ends
  rw [Nat.zero_add, records.length_eq, answers] at walked
  rw [find, head, dropped]
  exact walked

/-! ## A zeroed table -/

/-- A table of zeroed slots. -/
def zeroTable : List Slot :=
  List.replicate 50 ⟨0, List.replicate 100 0⟩

/-- A pack with a text of names. -/
def packOf (type prt : Int) (text : List Byte) : Pack :=
  ⟨type, prt, text ++ List.replicate (100 - text.length) 0⟩

theorem zeroTable_rooms :
    ∀ slot ∈ zeroTable, slot.files.length = 100 := by
  intro slot member
  rw [List.eq_of_mem_replicate member]
  exact List.length_replicate

theorem zeroTable_marked {count : Nat} (inside : count < 50) :
    Marked zeroTable count := by
  refine ⟨⟨0, List.replicate 100 0⟩, ?_, rfl⟩
  rw [zeroTable, List.getElem?_replicate, if_pos inside]

end NetworkingLab.PeerDirectory
