import NetworkingLab.Foundation.GreedyMatch
import NetworkingLab.StringSearch.Doubling

/-!
# The search of the string program

The search compares the byte at `ecx` with the byte at `ebx`.  A comparison that
fails goes on behind the byte at `ecx`, but `ebx` stays where it is: it is not
set back to the start of `string2`.  What the search finds is therefore a
subsequence, and not a substring.

`printsYes_iff` says when the program prints "yes", and `decides_iff` for which
strings it decides whether the second occurs in the first followed by itself.
-/

namespace NetworkingLab.StringSearch

open NetworkingLab.Foundation.CString
open NetworkingLab.Foundation.ByteMemory
open NetworkingLab.Foundation.GreedyMatch
open StateTransition (Reaches eval)

/-! ## The search over a list of bytes -/

/--
The search for the rest of a pattern.  The flag says that the last byte of the
text was found (`checkRemain`); a byte that is not found is passed over, and a
zero byte too if the flag is set.
-/
def search (remain : Bool) : List Byte → List Byte → Bool
  | _, [] => remain
  | [], _ :: _ => false
  | c :: text, p :: pattern =>
      if c = p then
        search true text pattern
      else if c = 0 ∧ remain = false then
        false
      else
        search false text (p :: pattern)

@[simp]
theorem search_nil_right (remain : Bool) (text : List Byte) :
    search remain text [] = remain := by
  cases text <;> rw [search]

theorem search_cons_self
    (remain : Bool) (c : Byte) (text pattern : List Byte) :
    search remain (c :: text) (c :: pattern) = search true text pattern := by
  rw [search, if_pos rfl]

theorem search_zero
    {p : Byte} (nonzero : p ≠ 0) (text pattern : List Byte) :
    search false (0 :: text) (p :: pattern) = false := by
  rw [search, if_neg nonzero.symm, if_pos ⟨rfl, rfl⟩]

theorem search_cons_of_ne
    {remain : Bool} {c p : Byte} (other : c ≠ p)
    (passed : c ≠ 0 ∨ remain = true) (text pattern : List Byte) :
    search remain (c :: text) (p :: pattern) =
      search false text (p :: pattern) := by
  have passes : ¬ (c = 0 ∧ remain = false) := by
    rintro ⟨zero, start⟩
    rcases passed with nonzero | middle
    · exact nonzero zero
    · rw [start] at middle
      cases middle
  rw [search, if_neg other, if_neg passes]

/-! ## The search of the program -/

/-- The label at which the search stands. -/
def searchLabel (remain : Bool) : Label :=
  if remain then .checkRemain else .checkForStart

/-- The label at which it ends. -/
def answerLabel (found : Bool) : Label :=
  if found then .printYes else .printNo

section

variable
    {ebx ecx : Nat} {memory : Nat → Byte} (stdin stdout : List Byte)

theorem reaches_printNo (ended : memory ecx = 0) :
    Reaches step
      ⟨.checkForStart, ebx, ecx, memory, stdin, stdout⟩
      ⟨.printNo, ebx, ecx, memory, stdin, stdout⟩ := by
  apply reaches_step
  simp only [step, checkForStart, if_pos ended]
  rfl

theorem reaches_printYes (ended : memory ebx = 0) :
    Reaches step
      ⟨.checkRemain, ebx, ecx, memory, stdin, stdout⟩
      ⟨.printYes, ebx, ecx, memory, stdin, stdout⟩ := by
  apply reaches_step
  simp only [step, checkRemain, if_pos ended]
  rfl

/-- A byte of the pattern is found. -/
theorem reaches_found
    (remain : Bool) {p : Byte} (text_byte : memory ecx = p)
    (pattern_byte : memory ebx = p) (nonzero : p ≠ 0) :
    Reaches step
      ⟨searchLabel remain, ebx, ecx, memory, stdin, stdout⟩
      ⟨.checkRemain, ebx + 1, ecx + 1, memory, stdin, stdout⟩ := by
  have found :
      step ⟨.checkRemain, ebx, ecx, memory, stdin, stdout⟩ =
        some ⟨.checkRemain, ebx + 1, ecx + 1, memory, stdin, stdout⟩ := by
    simp [step, checkRemain, text_byte, pattern_byte, nonzero, State.jmp]
  cases remain with
  | true => exact reaches_step found
  | false =>
      have begins :
          step ⟨.checkForStart, ebx, ecx, memory, stdin, stdout⟩ =
            some ⟨.checkRemain, ebx, ecx, memory, stdin, stdout⟩ := by
        simp [step, checkForStart, text_byte, pattern_byte, nonzero,
          State.jmp]
      exact (reaches_step begins).trans (reaches_step found)

/-- A byte is passed over, and the pattern is not set back. -/
theorem reaches_passed
    (remain : Bool) {c p : Byte} (text_byte : memory ecx = c)
    (pattern_byte : memory ebx = p) (other : c ≠ p)
    (going : if remain then p ≠ 0 else c ≠ 0) :
    Reaches step
      ⟨searchLabel remain, ebx, ecx, memory, stdin, stdout⟩
      ⟨.checkForStart, ebx, ecx + 1, memory, stdin, stdout⟩ := by
  have leaves :
      step ⟨searchLabel remain, ebx, ecx, memory, stdin, stdout⟩ =
        some ⟨.checkRemainRet, ebx, ecx, memory, stdin, stdout⟩ := by
    cases remain with
    | true =>
        have more : p ≠ 0 := going
        simp [step, searchLabel, checkRemain, text_byte, pattern_byte, more,
          other, State.jmp]
    | false =>
        have more : c ≠ 0 := going
        simp [step, searchLabel, checkForStart, text_byte, pattern_byte,
          more, other, State.jmp]
  exact (reaches_step leaves).trans (reaches_step rfl)

/-- With no pattern left the answer is given by the label. -/
theorem reaches_answer_nil
    (remain : Bool) {text : List Byte}
    (text_holds : Holds memory ecx (text ++ [0, 0]))
    (ended : memory ebx = 0) :
    ∃ ecx',
      Reaches step
        ⟨searchLabel remain, ebx, ecx, memory, stdin, stdout⟩
        ⟨answerLabel remain, ebx, ecx', memory, stdin, stdout⟩ := by
  cases remain with
  | true => exact ⟨_, reaches_printYes stdin stdout ended⟩
  | false =>
      -- the terminator of the pattern is not found, and the text ends
      induction text generalizing ecx with
      | nil => exact ⟨_, reaches_printNo stdin stdout text_holds.1⟩
      | cons c text induction =>
          rcases text_holds with ⟨first, text_holds⟩
          by_cases zero : c = 0
          · rw [zero] at first
            exact ⟨_, reaches_printNo stdin stdout first⟩
          · have passed :=
              reaches_passed stdin stdout false first ended zero zero
            rcases induction text_holds with ⟨ecx', later⟩
            exact ⟨ecx', passed.trans later⟩

/-- The program searches as `search` does. -/
theorem reaches_answer
    {pattern : List Byte} (free : NulFree pattern) (remain : Bool)
    {text : List Byte} (text_holds : Holds memory ecx (text ++ [0, 0]))
    (pattern_holds : Holds memory ebx (pattern ++ [0])) :
    ∃ ebx' ecx',
      Reaches step
        ⟨searchLabel remain, ebx, ecx, memory, stdin, stdout⟩
        ⟨answerLabel (search remain (text ++ [0, 0]) pattern), ebx', ecx',
          memory, stdin, stdout⟩ := by
  induction text generalizing pattern remain ebx ecx with
  | nil =>
      cases pattern with
      | nil =>
          rw [search_nil_right]
          exact ⟨ebx, reaches_answer_nil stdin stdout remain text_holds
            pattern_holds.1⟩
      | cons p pattern =>
          rcases text_holds with ⟨first, second, -⟩
          have nonzero := ((nulFree_cons_iff p pattern).mp free).1
          cases remain with
          | false =>
              rw [List.nil_append, search_zero nonzero]
              exact ⟨_, _, reaches_printNo stdin stdout first⟩
          | true =>
              -- the first zero is passed over, and the second ends the search
              have passed := reaches_passed stdin stdout true first
                pattern_holds.1 nonzero.symm nonzero
              rw [List.nil_append, search_cons_of_ne nonzero.symm (Or.inr rfl),
                search_zero nonzero]
              exact ⟨_, _,
                passed.trans (reaches_printNo stdin stdout second)⟩
  | cons c text induction =>
      cases pattern with
      | nil =>
          rw [search_nil_right]
          exact ⟨ebx, reaches_answer_nil stdin stdout remain text_holds
            pattern_holds.1⟩
      | cons p pattern =>
          rcases text_holds with ⟨first, text_holds⟩
          have pattern_free := (nulFree_cons_iff p pattern).mp free
          by_cases same : c = p
          · subst same
            have found := reaches_found stdin stdout remain first
              pattern_holds.1 pattern_free.1
            obtain ⟨ebx', ecx', later⟩ :=
              induction pattern_free.2 true text_holds pattern_holds.2
            rw [List.cons_append, search_cons_self]
            exact ⟨ebx', ecx', found.trans later⟩
          · by_cases stopped : c = 0 ∧ remain = false
            · rcases stopped with ⟨rfl, rfl⟩
              rw [List.cons_append, search_zero pattern_free.1]
              exact ⟨_, _, reaches_printNo stdin stdout first⟩
            · have going : c ≠ 0 ∨ remain = true := by
                rw [not_and_or, Bool.not_eq_false] at stopped
                exact stopped
              have passed := reaches_passed stdin stdout remain first
                pattern_holds.1 same (by
                  cases remain with
                  | true => exact pattern_free.1
                  | false => simpa using going)
              rcases induction free false text_holds pattern_holds with
                ⟨ebx', ecx', later⟩
              rw [List.cons_append, search_cons_of_ne same going]
              exact ⟨ebx', ecx', passed.trans later⟩

end

/-! ## What the search finds -/

/--
Over a text that ends with the byte `c` and a zero, the search finds the
pattern in the text, or finds `c` last and goes on behind the zero.
-/
theorem search_append_zero_iff
    {text : List Byte} {c : Byte} (text_free : NulFree (text ++ [c]))
    (later : List Byte) {pattern : List Byte} (free : NulFree pattern)
    (nonempty : pattern ≠ []) (remain : Bool) :
    search remain (text ++ c :: 0 :: later) pattern = true ↔
      pattern.Sublist (text ++ [c]) ∨
        ∃ rest, unmatched text pattern = c :: rest ∧
          search false later rest = true := by
  induction text generalizing pattern remain with
  | nil =>
      rcases List.exists_cons_of_ne_nil nonempty with ⟨p, pattern, rfl⟩
      rw [List.nil_append, nulFree_cons_iff] at text_free
      rw [nulFree_cons_iff] at free
      rw [List.nil_append, List.nil_append, unmatched_nil_left]
      by_cases same : c = p
      · subst same
        rw [search_cons_self, List.cons_sublist_cons]
        cases pattern with
        | nil => simp
        | cons q pattern =>
            have other := ((nulFree_cons_iff q pattern).mp free.2).1.symm
            rw [search_cons_of_ne other (Or.inr rfl)]
            simp
      · rw [search_cons_of_ne same (Or.inl text_free.1), search_zero free.1,
          cons_sublist_cons_of_ne_iff same]
        constructor
        · intro found
          cases found
        · rintro (part | ⟨rest, parts, _⟩)
          · cases part
          · cases parts
            exact absurd rfl same
  | cons b text induction =>
      rcases List.exists_cons_of_ne_nil nonempty with ⟨p, pattern, rfl⟩
      rw [List.cons_append, nulFree_cons_iff] at text_free
      rw [List.cons_append, List.cons_append]
      by_cases same : b = p
      · subst same
        rw [nulFree_cons_iff] at free
        rw [search_cons_self, List.cons_sublist_cons, unmatched_cons_self]
        by_cases whole : pattern = []
        · rw [whole]
          simp
        · exact induction text_free.2 free.2 whole true
      · rw [search_cons_of_ne same (Or.inl text_free.1),
          cons_sublist_cons_of_ne_iff same, unmatched_cons_of_ne same]
        exact induction text_free.2 free nonempty false

/--
What the program finds: a subsequence of `s`, or a text of which a part is
found in `s`, with the last byte of `s` as its end, and the rest in `s` again.
-/
def Found (s t : List Byte) : Prop :=
  t ≠ [] ∧
    (t.Sublist s ∨
      ∃ text c front rest, s = text ++ [c] ∧ t = front ++ c :: rest ∧
        front.Sublist text ∧ ¬ (front ++ [c]).Sublist text ∧
        rest.Sublist s)

theorem nulFree_unmatched
    {text pattern rest : List Byte} {c : Byte} (free : NulFree pattern)
    (left_over : unmatched text pattern = c :: rest) :
    NulFree rest := by
  rcases (unmatched_eq_cons_iff _ _ _ _).mp left_over with
    ⟨front, rfl, _, _⟩
  rw [nulFree_append_iff, nulFree_cons_iff] at free
  exact free.2.2

/-- Behind the second copy nothing is found any more. -/
theorem search_second_iff
    {text : List Byte} {c : Byte} (text_free : NulFree (text ++ [c]))
    {pattern : List Byte} (free : NulFree pattern) (nonempty : pattern ≠ []) :
    search false (text ++ c :: 0 :: [0]) pattern = true ↔
      pattern.Sublist (text ++ [c]) := by
  rw [search_append_zero_iff text_free [0] free nonempty]
  constructor
  · rintro (part | ⟨rest, left_over, found⟩)
    · exact part
    · cases rest with
      | nil => cases found
      | cons p rest =>
          have rest_free := nulFree_unmatched free left_over
          rw [nulFree_cons_iff] at rest_free
          rw [search_zero rest_free.1] at found
          cases found
  · exact Or.inl

/-- The search over the two copies. -/
theorem search_copies_iff
    {s t : List Byte} (s_free : NulFree s) (t_free : NulFree t) :
    search false (s ++ 0 :: (s ++ [0, 0])) t = true ↔ Found s t := by
  by_cases empty : t = []
  · rw [empty, search_nil_right]
    simp [Found]
  · rcases List.eq_nil_or_concat' s with rfl | ⟨text, c, rfl⟩
    · rcases List.exists_cons_of_ne_nil empty with ⟨p, pattern, rfl⟩
      rw [nulFree_cons_iff] at t_free
      rw [List.nil_append, search_zero t_free.1]
      simp [Found]
    · have copies : text ++ [c] ++ 0 :: (text ++ [c] ++ [0, 0]) =
          text ++ c :: 0 :: (text ++ c :: 0 :: [0]) := by
        simp
      rw [copies, search_append_zero_iff s_free _ t_free empty]
      constructor
      · rintro (part | ⟨rest, left_over, found⟩)
        · exact ⟨empty, Or.inl part⟩
        · have rest_free := nulFree_unmatched t_free left_over
          rcases (unmatched_eq_cons_iff _ _ _ _).mp left_over with
            ⟨front, parts, before, maximal⟩
          cases rest with
          | nil => cases text <;> cases found
          | cons p rest =>
              rw [search_second_iff s_free rest_free
                (List.cons_ne_nil p rest)] at found
              exact ⟨empty, Or.inr ⟨text, c, front, p :: rest, rfl, parts,
                before, maximal, found⟩⟩
      · rintro ⟨_, part | ⟨text', c', front, rest, same, parts, before,
          maximal, found⟩⟩
        · exact Or.inl part
        · rcases List.append_inj' same rfl with ⟨rfl, last⟩
          cases last
          have left_over := (unmatched_eq_cons_iff text t c rest).mpr
            ⟨front, parts, before, maximal⟩
          by_cases done : rest = []
          · -- the last byte of `s` is the last byte of `t`
            left
            rw [parts, done]
            exact before.append (List.Sublist.refl [c])
          · right
            have rest_free := nulFree_unmatched t_free left_over
            exact ⟨rest, left_over,
              (search_second_iff s_free rest_free done).mpr found⟩

/-! ## The answer -/

def PrintsYes (final : State) : Prop :=
  final.stdout = message1 ++ message2 ++ message3

/-- The program ends, and its answer is that of the search. -/
theorem ends_with_answer (strings : Strings) (rest : List Byte) :
    ∃ final ∈ eval step (initial (strings.stdin rest)),
      Doubled strings final.memory ∧
        (PrintsYes final ↔ Found strings.s strings.t) := by
  rcases reaches_ready strings rest with ⟨memory, ready, read⟩
  have doubled := ready.doubled
  have text_holds : Holds (strings.copies memory) string3
      ((strings.s ++ 0 :: strings.s) ++ [0, 0]) := by
    rw [List.append_assoc]
    exact doubled.s_copied
  rcases reaches_answer rest (message1 ++ message2)
    strings.t_plain.1 false text_holds doubled.t_kept with
    ⟨ebx, ecx, answered⟩
  have searched := (ready.reaches_search rest (message1 ++ message2)).trans
    answered
  rw [List.append_assoc, List.cons_append] at searched
  have verdict := search_copies_iff strings.s_plain.1 strings.t_plain.1
  rw [← verdict]
  generalize search false (strings.s ++ 0 :: (strings.s ++ [0, 0]))
    strings.t = found at searched
  cases found with
  | true =>
      have printed := (read.trans searched).trans (reaches_step rfl)
      refine ⟨_, StateTransition.mem_eval.mpr ⟨printed, rfl⟩, doubled, ?_⟩
      exact iff_of_true rfl rfl
  | false =>
      have printed := (read.trans searched).trans (reaches_step rfl)
      refine ⟨_, StateTransition.mem_eval.mpr ⟨printed, rfl⟩, doubled, ?_⟩
      apply iff_of_false
      · intro yes
        cases yes
      · exact Bool.false_ne_true

/--
What is claimed of the program: it writes `s` followed by `s` into `string3`,
ends, and prints "yes" exactly if `t` occurs there.
-/
def Decides (strings : Strings) (rest : List Byte) : Prop :=
  ∃ final ∈ eval step (initial (strings.stdin rest)),
    Holds final.memory string3 (strings.s ++ strings.s) ∧
      (PrintsYes final ↔ strings.t <:+: strings.s ++ strings.s)

/-- A zero byte separates the copies, unless there is nothing to separate. -/
theorem Doubled.not_joined
    {strings : Strings} {memory : Nat → Byte}
    (doubled : Doubled strings memory) (filled : strings.s ≠ []) :
    ¬ Holds memory string3 (strings.s ++ strings.s) := by
  intro joined
  have first := (holds_append_iff _ _ _ _).mp doubled.s_copied
  have second := (holds_append_iff _ _ _ _).mp joined
  have free := strings.s_plain.1
  cases s : strings.s with
  | nil => exact filled s
  | cons c tail =>
      rw [s] at first second free
      have zero : c = 0 := second.2.1.symm.trans first.2.1
      exact ((nulFree_cons_iff c tail).mp free).1 zero

/--
The program does what it should exactly for an empty `s` and a `t` that is not
empty.
-/
theorem decides_iff (strings : Strings) (rest : List Byte) :
    Decides strings rest ↔ strings.s = [] ∧ strings.t ≠ [] := by
  rcases ends_with_answer strings rest with ⟨final, ends, doubled, answer⟩
  have exact_final : Decides strings rest ↔
      Holds final.memory string3 (strings.s ++ strings.s) ∧
        (PrintsYes final ↔ strings.t <:+: strings.s ++ strings.s) := by
    constructor
    · rintro ⟨other, ends', decided⟩
      cases Part.mem_unique ends ends'
      exact decided
    · intro decided
      exact ⟨final, ends, decided⟩
  rw [exact_final, answer]
  constructor
  · rintro ⟨joined, verdict⟩
    have empty : strings.s = [] := by
      by_contra filled
      exact doubled.not_joined filled joined
    refine ⟨empty, fun nothing => ?_⟩
    have found := verdict.mpr (by rw [nothing]; exact List.nil_infix)
    exact found.1 nothing
  · rintro ⟨empty, nonempty⟩
    rw [empty]
    simp [Found, nonempty]

theorem abc_plain : Plain [97, 98, 99] := by
  decide

theorem ac_plain : Plain [97, 99] := by
  decide

theorem abc_fits : [97, 98, 99].length ≤ 24 := by
  decide

theorem ac_fits : [97, 99].length ≤ 49 := by
  decide

/-- The strings "abc" and "ac". -/
def abcAndAc : Strings where
  s := [97, 98, 99]
  t := [97, 99]
  s_plain := abc_plain
  t_plain := ac_plain
  s_fits := abc_fits
  t_fits := ac_fits

/-- The answer to "abc" and "ac" is "yes", but "ac" is not in "abcabc". -/
theorem ac_found_in_abc :
    (∃ final ∈ eval step (initial (abcAndAc.stdin [])),
        PrintsYes final ∧ ¬ abcAndAc.t <:+: abcAndAc.s ++ abcAndAc.s) ∧
      ¬ Decides abcAndAc [] := by
  rcases ends_with_answer abcAndAc [] with ⟨final, ends, _, answer⟩
  have part : abcAndAc.t.Sublist abcAndAc.s := by
    decide
  have found : Found abcAndAc.s abcAndAc.t :=
    ⟨List.cons_ne_nil _ _, Or.inl part⟩
  have absent : ¬ abcAndAc.t <:+: abcAndAc.s ++ abcAndAc.s := by
    decide
  refine ⟨⟨final, ends, answer.mpr found, absent⟩, ?_⟩
  rintro ⟨other, ends', _, verdict⟩
  cases Part.mem_unique ends ends'
  exact absent (verdict.mp (answer.mpr found))

end NetworkingLab.StringSearch
