import NetworkingLab.Foundation.CString

/-!
# Messages passed on through one block

A program that receives every message into the start of one block, and passes
on the string that stands there, passes on more than the message when the block
holds older bytes behind it, and less when the message holds a zero byte.

`echo_eq_flatten_iff` says for which messages the bytes passed on are the bytes
received.
-/

namespace NetworkingLab.Foundation.Echo

open NetworkingLab.Foundation.CString

/--
For each message, what is in the block up to its first zero byte is passed on.
`none` stands for a block in which `strlen` finds none.
-/
def echo : List (List Byte) → List Byte → Option (List Byte)
  | [], _ => some []
  | message :: messages, block =>
      let block := overwrite message block
      match strlen block with
      | none => none
      | some length =>
          (echo messages block).map
            fun passed => block.take length ++ passed

/-! ## One message -/

/-- The string in the block is passed on before the next message comes. -/
theorem echo_cons_eq_some_iff
    (message : List Byte) (messages : List (List Byte))
    (block passed : List Byte) :
    echo (message :: messages) block = some passed ↔
      0 ∈ overwrite message block ∧
        ∃ later,
          echo messages (overwrite message block) = some later ∧
            cString (overwrite message block) ++ later = passed := by
  by_cases terminated : 0 ∈ overwrite message block
  · have counted := (strlen_eq_some_iff _ _).mpr ⟨terminated, rfl⟩
    simp [echo, counted, take_strlen counted, terminated]
  · simp [echo, strlen, terminated]

/-- A message is followed by a zero byte in the block and holds none. -/
def Ends (message block : List Byte) : Prop :=
  NulFree message ∧ block[message.length]? = some 0

/-- The string that is passed on for a message without zero bytes. -/
theorem cString_overwrite
    {message : List Byte} (free : NulFree message) (block : List Byte) :
    cString (overwrite message block) =
      message ++ cString (block.drop message.length) :=
  cString_append_of_nulFree free _

/-- Behind a message without zero bytes the block has its terminator. -/
theorem mem_overwrite_iff
    {message : List Byte} (free : NulFree message) (block : List Byte) :
    0 ∈ overwrite message block ↔ 0 ∈ block.drop message.length := by
  rw [overwrite, List.mem_append]
  constructor
  · rintro (inside | behind)
    · exact absurd rfl (free 0 inside)
    · exact behind
  · exact Or.inr

/-- The string is the message exactly if the block has a zero behind it. -/
theorem ends_iff_silent
    {message : List Byte} (free : NulFree message) (block : List Byte) :
    Ends message block ↔
      0 ∈ block.drop message.length ∧
        cString (block.drop message.length) = [] := by
  have first : (block.drop message.length)[0]? =
      block[message.length]? := by
    rw [List.getElem?_drop, Nat.add_zero]
  constructor
  · rintro ⟨_, zero⟩
    rw [← first] at zero
    have terminated := List.mem_of_getElem? zero
    exact ⟨terminated, (cString_eq_nil_iff terminated).mpr zero⟩
  · rintro ⟨terminated, silent⟩
    rw [cString_eq_nil_iff terminated, first] at silent
    exact ⟨free, silent⟩

/-- What is passed on holds no zero byte. -/
theorem echo_nulFree
    {messages : List (List Byte)} {block passed : List Byte}
    (echoed : echo messages block = some passed) :
    NulFree passed := by
  induction messages generalizing block passed with
  | nil =>
      cases echoed
      exact nulFree_nil
  | cons message messages induction =>
      rcases (echo_cons_eq_some_iff _ _ _ _).mp echoed with
        ⟨_, later, rest, rfl⟩
      rw [nulFree_append_iff]
      exact ⟨nulFree_cString _, induction rest⟩

/-- No received byte is left out when none of them is zero. -/
theorem flatten_length_le
    {messages : List (List Byte)} {block passed : List Byte}
    (free : NulFree messages.flatten)
    (echoed : echo messages block = some passed) :
    messages.flatten.length ≤ passed.length := by
  induction messages generalizing block passed with
  | nil => exact Nat.zero_le _
  | cons message messages induction =>
      rw [List.flatten_cons, nulFree_append_iff] at free
      rcases (echo_cons_eq_some_iff _ _ _ _).mp echoed with
        ⟨_, later, rest, rfl⟩
      have tail := induction free.2 rest
      rw [cString_overwrite free.1]
      simp only [List.flatten_cons, List.length_append] at tail ⊢
      omega

/-- Behind each message the block that receives it holds a zero byte. -/
def TerminatedAll : List (List Byte) → List Byte → Prop
  | [], _ => True
  | message :: messages, block =>
      0 ∈ block.drop message.length ∧
        TerminatedAll messages (overwrite message block)

/-- The messages, each with the older bytes up to the next zero byte. -/
def spilled : List (List Byte) → List Byte → List Byte
  | [], _ => []
  | message :: messages, block =>
      message ++ cString (block.drop message.length) ++
        spilled messages (overwrite message block)

/-- What is passed on for messages without zero bytes. -/
theorem echo_eq_some_iff
    {messages : List (List Byte)} (free : NulFree messages.flatten)
    (block passed : List Byte) :
    echo messages block = some passed ↔
      TerminatedAll messages block ∧ spilled messages block = passed := by
  induction messages generalizing block passed with
  | nil => simp [echo, TerminatedAll, spilled]
  | cons message messages induction =>
      rw [List.flatten_cons, nulFree_append_iff] at free
      rw [echo_cons_eq_some_iff, mem_overwrite_iff free.1,
        cString_overwrite free.1]
      constructor
      · rintro ⟨zero, later, rest, rfl⟩
        rcases (induction free.2 _ later).mp rest with ⟨zeros, rfl⟩
        exact ⟨⟨zero, zeros⟩, rfl⟩
      · rintro ⟨⟨zero, zeros⟩, rfl⟩
        exact ⟨zero, _, (induction free.2 _ _).mpr ⟨zeros, rfl⟩, rfl⟩

/-- The rounds in which every message ends where it was received. -/
def EndsAll : List (List Byte) → List Byte → Prop
  | [], _ => True
  | message :: messages, block =>
      Ends message block ∧ EndsAll messages (overwrite message block)

/-- A first round that adds bytes is never made up for by the later ones. -/
theorem silent_of_echo
    {message : List Byte} {messages : List (List Byte)}
    {block later : List Byte}
    (free : NulFree (message :: messages).flatten)
    (rest : echo messages (overwrite message block) = some later)
    (whole : cString (overwrite message block) ++ later =
      (message :: messages).flatten) :
    cString (block.drop message.length) = [] ∧
      later = messages.flatten := by
  rw [List.flatten_cons, nulFree_append_iff] at free
  have bound := flatten_length_le free.2 rest
  rw [cString_overwrite free.1, List.flatten_cons, List.append_assoc]
    at whole
  have tail := List.append_cancel_left whole
  have total := congrArg List.length tail
  rw [List.length_append] at total
  have silent : cString (block.drop message.length) = [] := by
    apply List.length_eq_zero_iff.mp
    omega
  rw [silent, List.nil_append] at tail
  exact ⟨silent, tail⟩

theorem echo_eq_flatten_iff_endsAll
    (messages : List (List Byte)) (block : List Byte) :
    echo messages block = some messages.flatten ↔
      EndsAll messages block := by
  induction messages generalizing block with
  | nil => simp [echo, EndsAll]
  | cons message messages induction =>
      rw [echo_cons_eq_some_iff, EndsAll, ← induction]
      constructor
      · rintro ⟨terminated, later, rest, whole⟩
        have free : NulFree (message :: messages).flatten := by
          rw [← whole, nulFree_append_iff]
          exact ⟨nulFree_cString _, echo_nulFree rest⟩
        rcases silent_of_echo free rest whole with ⟨silent, rfl⟩
        rw [List.flatten_cons, nulFree_append_iff] at free
        rw [mem_overwrite_iff free.1] at terminated
        exact ⟨(ends_iff_silent free.1 _).mpr ⟨terminated, silent⟩, rest⟩
      · rintro ⟨ends, rest⟩
        have free := ends.1
        rcases (ends_iff_silent free _).mp ends with
          ⟨terminated, silent⟩
        refine ⟨(mem_overwrite_iff free _).mpr terminated, _, rest, ?_⟩
        rw [cString_overwrite free, silent, List.append_nil,
          List.flatten_cons]

/-! ## All messages -/

/--
The messages that are passed on unchanged: no zero byte, messages that never
get shorter, and a zero in the block behind the place of each message.
-/
structure Kept (messages : List (List Byte)) (block : List Byte) :
    Prop where
  nulFree : NulFree messages.flatten
  growing : messages.Pairwise fun earlier later =>
    earlier.length ≤ later.length
  zeros : ∀ message ∈ messages, block[message.length]? = some 0

theorem endsAll_iff_kept
    (messages : List (List Byte)) (block : List Byte) :
    EndsAll messages block ↔ Kept messages block := by
  induction messages generalizing block with
  | nil =>
      constructor
      · intro _
        exact ⟨nulFree_nil, .nil, by simp⟩
      · intro _
        exact trivial
  | cons message messages induction =>
      rw [EndsAll, induction]
      constructor
      · rintro ⟨⟨free, zero⟩, later⟩
        have longer : ∀ other ∈ messages,
            message.length ≤ other.length := by
          intro other member
          by_contra shorter
          have inside : other.length < message.length := by omega
          have found := later.zeros other member
          rw [overwrite, List.getElem?_append_left inside,
            List.getElem?_eq_getElem inside, Option.some.injEq] at found
          exact free _ (List.getElem_mem inside) found
        refine ⟨?_, ?_, ?_⟩
        · rw [List.flatten_cons, nulFree_append_iff]
          exact ⟨free, later.nulFree⟩
        · exact List.pairwise_cons.mpr ⟨longer, later.growing⟩
        · intro other member
          rcases List.mem_cons.mp member with rfl | tail
          · exact zero
          · rw [← getElem?_overwrite_of_le (longer other tail)]
            exact later.zeros other tail
      · intro kept
        have free := kept.nulFree
        rw [List.flatten_cons, nulFree_append_iff] at free
        have growing := List.pairwise_cons.mp kept.growing
        refine ⟨⟨free.1, kept.zeros message (by simp)⟩, ?_⟩
        refine ⟨free.2, growing.2, ?_⟩
        intro other member
        rw [getElem?_overwrite_of_le (growing.1 other member)]
        exact kept.zeros other (by simp [member])

/--
The bytes passed on are the bytes received if and only if none of them is
zero, no message is shorter than an earlier one, and the block held a zero
byte where each message ends.
-/
theorem echo_eq_flatten_iff
    (messages : List (List Byte)) (block : List Byte) :
    echo messages block = some messages.flatten ↔ Kept messages block :=
  (echo_eq_flatten_iff_endsAll messages block).trans
    (endsAll_iff_kept messages block)

end NetworkingLab.Foundation.Echo
