import NetworkingLab.StringSearch.Program

/-!
# The strings in memory

The program reads `s` and `t` into `string1` and `string2` and copies `s` twice
into `string3`.  Between the copies it leaves out a byte, so that `string3` is
the string `s` alone.
-/

namespace NetworkingLab.StringSearch

open NetworkingLab.Foundation.CString
open NetworkingLab.Foundation.ByteMemory
open StateTransition (Reaches)

/-- A text without newline and zero bytes. -/
def Plain (text : List Byte) : Prop :=
  NulFree text ∧ 10 ∉ text

instance (text : List Byte) : Decidable (Plain text) :=
  inferInstanceAs (Decidable (NulFree text ∧ 10 ∉ text))

/-- Two strings that fit the reserved buffers. -/
structure Strings where
  s : List Byte
  t : List Byte
  s_plain : Plain s
  t_plain : Plain t
  s_fits : s.length ≤ 24
  t_fits : t.length ≤ 49

/-- The input: both strings on lines of their own. -/
def Strings.stdin (strings : Strings) (rest : List Byte) : List Byte :=
  strings.s ++ 10 :: (strings.t ++ 10 :: rest)

/-! ## Reading -/

section

variable {ebx ecx : Nat} {memory : Nat → Byte} {stdout : List Byte}

theorem read_newline
    (again finished label : Label) (rest : List Byte) :
    read again finished ⟨label, ebx, ecx, memory, 10 :: rest, stdout⟩ =
      ⟨finished, ebx, ecx, Function.update memory temp 10, rest,
        stdout⟩ := by
  simp [read, State.readByte, State.write, State.jmp]

theorem read_byte
    (again finished label : Label) {byte : Byte} (other : byte ≠ 10)
    (rest : List Byte) :
    read again finished ⟨label, ebx, ecx, memory, byte :: rest, stdout⟩ =
      ⟨again, ebx + 1, ecx,
        Function.update (Function.update memory temp byte) ebx byte, rest,
        stdout⟩ := by
  simp [read, State.readByte, State.write, State.jmp, other]

variable (ebx ecx memory stdout)

/-- A line is stored from `ebx` on. -/
theorem reaches_read
    {again finished : Label}
    (entry : ∀ state : State, state.label = again →
      step state = some (read again finished state))
    {line : List Byte} (absent : 10 ∉ line) (rest : List Byte)
    (fits : ebx + line.length ≤ temp) :
    Reaches step
      ⟨again, ebx, ecx, memory, line ++ 10 :: rest, stdout⟩
      ⟨finished, ebx + line.length, ecx,
        Function.update (store memory ebx line) temp 10, rest, stdout⟩ := by
  induction line generalizing ebx memory with
  | nil =>
      apply reaches_step
      rw [entry _ rfl, List.nil_append, read_newline]
      rfl
  | cons byte line induction =>
      rw [List.mem_cons, not_or] at absent
      rw [List.length_cons] at fits ⊢
      have here : temp ≠ ebx := by
        omega
      have first := entry
        ⟨again, ebx, ecx, memory, byte :: line ++ 10 :: rest, stdout⟩ rfl
      rw [List.cons_append, read_byte _ _ _ (Ne.symm absent.1),
        Function.update_comm here] at first
      have later := induction (ebx + 1)
        (Function.update (Function.update memory ebx byte) temp byte)
        absent.2 (by omega)
      rw [update_store_update, Nat.add_assoc, Nat.add_comm 1] at later
      exact (reaches_step first).trans later

/-- The memory after a line was read to an address. -/
def readLine (memory : Nat → Byte) (address : Nat) (line : List Byte) :
    Nat → Byte :=
  Function.update
    (Function.update (store memory address line) temp 10)
    (address + line.length) 0

theorem holds_readLine
    (memory : Nat → Byte) {address : Nat} {line : List Byte}
    (fits : address + line.length < temp) :
    Holds (readLine memory address line) address (line ++ [0]) := by
  rw [holds_append_iff]
  constructor
  · apply Holds.update _ (Or.inr (Nat.le_refl _))
    exact (holds_store memory address line).update
      (Or.inr (Nat.le_of_lt fits)) 10
  · exact ⟨Function.update_self _ _ _, trivial⟩

/-- Beside the line only `temp` is written. -/
theorem readLine_of_outside
    (memory : Nat → Byte) {address i : Nat} {line : List Byte}
    (other : i ≠ temp)
    (outside : i < address ∨ address + line.length < i) :
    readLine memory address line i = memory i := by
  have terminator : i ≠ address + line.length := by
    omega
  rw [readLine, Function.update_of_ne terminator,
    Function.update_of_ne other]
  exact store_of_outside (outside.imp_right Nat.le_of_lt)

theorem reaches_endRead1
    {line : List Byte} (absent : 10 ∉ line) (rest : List Byte)
    (fits : string1 + line.length ≤ temp) :
    Reaches step
      ⟨.read1, string1, ecx, memory, line ++ 10 :: rest, stdout⟩
      ⟨.read2, string2, ecx, readLine memory string1 line, rest,
        stdout ++ message2⟩ := by
  have entry : ∀ state : State, state.label = .read1 →
      step state = some (read .read1 .endRead1 state) := by
    rintro ⟨⟩ rfl
    rfl
  have line_read :=
    reaches_read string1 ecx memory stdout entry absent rest fits
  exact line_read.trans (reaches_step rfl)

theorem reaches_endRead2
    {line : List Byte} (absent : 10 ∉ line) (rest : List Byte)
    (fits : string2 + line.length ≤ temp) :
    Reaches step
      ⟨.read2, string2, ecx, memory, line ++ 10 :: rest, stdout⟩
      ⟨.mix, string1, string3,
        Function.update (readLine memory string2 line) looper 0, rest,
        stdout⟩ := by
  have entry : ∀ state : State, state.label = .read2 →
      step state = some (read .read2 .endRead2 state) := by
    rintro ⟨⟩ rfl
    rfl
  have line_read :=
    reaches_read string2 ecx memory stdout entry absent rest fits
  exact line_read.trans (reaches_step rfl)

/-! ## Copying -/

/-- One copy of the string at `ebx`. -/
theorem reaches_reInitStr1
    {text : List Byte} (free : NulFree text) (stdin : List Byte)
    (holds : Holds memory ebx (text ++ [0]))
    (more : memory looper ≠ 2)
    (behind : ebx + text.length < ecx)
    (fits : ecx + text.length ≤ looper) :
    Reaches step
      ⟨.mix, ebx, ecx, memory, stdin, stdout⟩
      ⟨.reInitStr1, ebx + text.length, ecx + text.length,
        store memory ecx text, stdin, stdout⟩ := by
  induction text generalizing ebx ecx memory with
  | nil =>
      apply reaches_step
      simp [step, mix, more, holds.1, State.jmp, store]
  | cons c text induction =>
      rw [nulFree_cons_iff] at free
      rw [List.cons_append, holds_cons_iff] at holds
      rw [List.length_cons] at behind fits ⊢
      have copied :
          step ⟨.mix, ebx, ecx, memory, stdin, stdout⟩ =
            some ⟨.reInitLoopRet, ebx + 1, ecx,
              Function.update memory ecx c, stdin, stdout⟩ := by
        simp [step, mix, more, holds.1, free.1, State.write, State.jmp]
      have moved :
          step ⟨.reInitLoopRet, ebx + 1, ecx,
              Function.update memory ecx c, stdin, stdout⟩ =
            some ⟨.mix, ebx + 1, ecx + 1,
              Function.update memory ecx c, stdin, stdout⟩ :=
        rfl
      have other : looper ≠ ecx := by
        omega
      have tail : Holds (Function.update memory ecx c) (ebx + 1)
          (text ++ [0]) := by
        apply holds.2.update
        rw [List.length_append, List.length_singleton]
        omega
      have later := induction (ebx + 1) (ecx + 1) _ free.2 tail
        (by rwa [Function.update_of_ne other]) (by omega) (by omega)
      rw [Nat.add_assoc, Nat.add_assoc, Nat.add_comm 1] at later
      exact (reaches_step copied).trans ((reaches_step moved).trans later)

/-- The memory after one copy. -/
def copy (memory : Nat → Byte) (address : Nat) (text : List Byte) :
    Nat → Byte :=
  Function.update (store memory address text) looper (memory looper + 1)

theorem holds_copy
    (memory : Nat → Byte) {address : Nat} {text : List Byte}
    (fits : address + text.length ≤ looper) :
    Holds (copy memory address text) address text :=
  (holds_store memory address text).update (Or.inr fits) _

theorem copy_of_outside
    (memory : Nat → Byte) {address i : Nat} {text : List Byte}
    (other : i ≠ looper)
    (outside : i < address ∨ address + text.length ≤ i) :
    copy memory address text i = memory i := by
  rw [copy, Function.update_of_ne other]
  exact store_of_outside outside

/-- After a copy the program starts again at `string1`. -/
theorem reaches_mix
    {text : List Byte} (free : NulFree text) (stdin : List Byte)
    (holds : Holds memory string1 (text ++ [0]))
    (more : memory looper ≠ 2)
    (behind : string1 + text.length < ecx)
    (fits : ecx + text.length ≤ looper) :
    Reaches step
      ⟨.mix, string1, ecx, memory, stdin, stdout⟩
      ⟨.mix, string1, ecx + text.length + 1, copy memory ecx text, stdin,
        stdout⟩ := by
  have copied := reaches_reInitStr1 string1 ecx memory stdout free stdin
    holds more behind fits
  have again :
      step ⟨.reInitStr1, string1 + text.length, ecx + text.length,
          store memory ecx text, stdin, stdout⟩ =
        some ⟨.reInitLoopRet, string1, ecx + text.length,
          copy memory ecx text, stdin, stdout⟩ := by
    simp only [step, reInitStr1, State.write, State.jmp, copy]
    rw [store_of_outside (Or.inr fits)]
  have moved :
      step ⟨.reInitLoopRet, string1, ecx + text.length,
          copy memory ecx text, stdin, stdout⟩ =
        some ⟨.mix, string1, ecx + text.length + 1,
          copy memory ecx text, stdin, stdout⟩ :=
    rfl
  exact copied.trans ((reaches_step again).trans (reaches_step moved))

theorem reaches_checkForStart
    (stdin : List Byte) (twice : memory looper = 2) :
    Reaches step
      ⟨.mix, ebx, ecx, memory, stdin, stdout⟩
      ⟨.checkForStart, string2, string3, Function.update memory ecx 0,
        stdin, stdout⟩ := by
  have done :
      step ⟨.mix, ebx, ecx, memory, stdin, stdout⟩ =
        some ⟨.retmix, ebx, ecx, memory, stdin, stdout⟩ := by
    simp only [step, mix, if_pos twice]
    rfl
  exact (reaches_step done).trans (reaches_step rfl)

end

/-! ## The memory between the loops -/

/-- The memory when both strings are read. -/
structure Ready (strings : Strings) (memory : Nat → Byte) : Prop where
  s_read : Holds memory string1 (strings.s ++ [0])
  t_read : Holds memory string2 (strings.t ++ [0])
  blank : ∀ i, string3 ≤ i → i < temp → memory i = 0
  no_copy : memory looper = 0

theorem ready_readLine (strings : Strings) :
    Ready strings
      (Function.update
        (readLine (readLine (fun _ => 0) string1 strings.s) string2
          strings.t)
        looper 0) := by
  have s_fits := strings.s_fits
  have t_fits := strings.t_fits
  constructor
  · have first := holds_readLine (fun _ => 0)
      (show string1 + strings.s.length < temp by
        simp only [string1, temp]
        omega)
    apply first.congr
    intro i above below
    simp only [string1, List.length_append, List.length_singleton] at below
    rw [Function.update_of_ne (by simp only [looper]; omega)]
    apply readLine_of_outside
    · simp only [temp]
      omega
    · simp only [string2]
      omega
  · apply Holds.update
    · apply holds_readLine
      simp only [string2, temp]
      omega
    · simp only [string2, looper, List.length_append,
        List.length_singleton]
      omega
  · intro i above below
    simp only [string3, temp] at above below
    rw [Function.update_of_ne (by simp only [looper]; omega),
      readLine_of_outside, readLine_of_outside]
    all_goals
      simp only [string1, string2, temp]
      omega
  · exact Function.update_self _ _ _

/-- Both strings are read. -/
theorem reaches_ready (strings : Strings) (rest : List Byte) :
    ∃ memory, Ready strings memory ∧
      Reaches step (initial (strings.stdin rest))
        ⟨.mix, string1, string3, memory, rest, message1 ++ message2⟩ := by
  have s_fits := strings.s_fits
  have t_fits := strings.t_fits
  refine ⟨_, ready_readLine strings, ?_⟩
  have entry :
      step (initial (strings.stdin rest)) =
        some ⟨.read1, string1, 0, fun _ => 0, strings.stdin rest,
          message1⟩ :=
    rfl
  have first := reaches_endRead1 0 (fun _ => 0) message1
    strings.s_plain.2 (strings.t ++ 10 :: rest)
    (by simp only [string1, temp]; omega)
  have second := reaches_endRead2 0
    (readLine (fun _ => 0) string1 strings.s) (message1 ++ message2)
    strings.t_plain.2 rest
    (by simp only [string2, temp]; omega)
  exact (reaches_step entry).trans (first.trans second)

/-- The memory when `string3` is written. -/
structure Doubled (strings : Strings) (memory : Nat → Byte) : Prop where
  t_kept : Holds memory string2 (strings.t ++ [0])
  s_copied : Holds memory string3 (strings.s ++ 0 :: (strings.s ++ [0, 0]))

section

variable {strings : Strings} {memory : Nat → Byte}

/-- The memory after both copies and the terminator. -/
def Strings.copies (strings : Strings) (memory : Nat → Byte) :
    Nat → Byte :=
  let second := string3 + strings.s.length + 1
  Function.update
    (copy (copy memory string3 strings.s) second strings.s)
    (second + strings.s.length + 1) 0

/-- The bytes in front of `string3` and those that are left out stay. -/
theorem copies_of_outside
    {i : Nat} (below : i < temp)
    (outside : i < string3 ∨ i = string3 + strings.s.length ∨
      string3 + strings.s.length + 1 + strings.s.length = i) :
    strings.copies memory i = memory i := by
  have other : i ≠ looper := by
    simp only [temp] at below
    simp only [looper]
    omega
  have terminator :
      i ≠ string3 + strings.s.length + 1 + strings.s.length + 1 := by
    omega
  simp only [Strings.copies]
  rw [Function.update_of_ne terminator, copy_of_outside _ other (by omega),
    copy_of_outside _ other (by omega)]

/-- The terminator stands behind the byte that the second copy leaves out. -/
theorem copies_terminator (strings : Strings) (memory : Nat → Byte) :
    strings.copies memory
      (string3 + strings.s.length + 1 + strings.s.length + 1) = 0 :=
  Function.update_self _ _ _

theorem Ready.doubled (ready : Ready strings memory) :
    Doubled strings (strings.copies memory) := by
  have s_fits := strings.s_fits
  have t_fits := strings.t_fits
  constructor
  · apply ready.t_read.congr
    intro i above below
    simp only [string2, List.length_append, List.length_singleton] at below
    apply copies_of_outside
    · simp only [temp]
      omega
    · simp only [string3]
      omega
  · have first : Holds (strings.copies memory) string3 strings.s := by
      have copied := holds_copy memory
        (show string3 + strings.s.length ≤ looper by
          simp only [string3, looper]
          omega)
      apply copied.congr
      intro i above below
      simp only [Strings.copies]
      rw [Function.update_of_ne (by omega)]
      apply copy_of_outside
      · simp only [string3] at below
        simp only [looper]
        omega
      · omega
    have second : Holds (strings.copies memory)
        (string3 + strings.s.length + 1) strings.s := by
      apply Holds.update _ (Or.inr (Nat.le_succ _))
      apply holds_copy
      simp only [string3, looper]
      omega
    have left_out (i : Nat)
        (place : i = string3 + strings.s.length ∨
          string3 + strings.s.length + 1 + strings.s.length = i) :
        strings.copies memory i = 0 := by
      have below : i < temp := by
        simp only [string3] at place
        simp only [temp]
        omega
      rw [copies_of_outside below (Or.inr place)]
      exact ready.blank i (by omega) below
    simp only [holds_append_iff, holds_cons_iff, holds_nil, and_true]
    exact ⟨first, left_out _ (Or.inl rfl), second,
      left_out _ (Or.inr rfl), copies_terminator strings memory⟩

/-- Both copies are made. -/
theorem Ready.reaches_search
    (ready : Ready strings memory) (rest stdout : List Byte) :
    Reaches step
      ⟨.mix, string1, string3, memory, rest, stdout⟩
      ⟨.checkForStart, string2, string3, strings.copies memory, rest,
        stdout⟩ := by
  have s_fits := strings.s_fits
  have free := strings.s_plain.1
  have zero := ready.no_copy
  have once : copy memory string3 strings.s looper = 1 := by
    rw [copy, Function.update_self, zero]
    rfl
  have string1_kept :
      Holds (copy memory string3 strings.s) string1 (strings.s ++ [0]) := by
    apply ready.s_read.congr
    intro i above below
    simp only [string1, List.length_append, List.length_singleton] at below
    apply copy_of_outside
    · simp only [looper]
      omega
    · simp only [string3]
      omega
  have twice :
      copy (copy memory string3 strings.s)
        (string3 + strings.s.length + 1) strings.s looper = 2 := by
    rw [copy, Function.update_self, once]
    rfl
  have first := reaches_mix string3 memory stdout free rest ready.s_read
    (by rw [zero]; decide)
    (by simp only [string1, string3]; omega)
    (by simp only [string3, looper]; omega)
  have second := reaches_mix (string3 + strings.s.length + 1) _ stdout
    free rest string1_kept (by rw [once]; decide)
    (by simp only [string1, string3]; omega)
    (by simp only [string3, looper]; omega)
  exact first.trans
    (second.trans (reaches_checkForStart _ _ _ _ rest twice))

end

end NetworkingLab.StringSearch
