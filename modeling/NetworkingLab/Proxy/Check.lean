import NetworkingLab.Foundation.CString
import Mathlib.Data.List.Infix

/-!
# The word filter of the proxy

`check` looks for the offensive word in the target.  One loop drives two
indices: `start` is the place tried in the target and `i` the number of bytes
that agree there.  The loop only tests the byte at `start` for the end of the
target, but the byte it compares is never behind the terminator.

`check_spec` says that the answer is the right one.  In a target without
terminator the loop ends only if it finds the word (`check_eq_some_iff`).
-/

namespace NetworkingLab.Proxy

open NetworkingLab.Foundation.CString

/--
The loop of `check`.  `none` stands for a read outside an array; the number
bounds the rounds.
-/
def checkLoop (ur off : List Byte) : Nat → Nat → Nat → Option Bool
  | 0, _, _ => none
  | rounds + 1, i, start =>
      match ur[start]? with
      | none => none
      | some current =>
          if current = 0 then
            some false
          else
            match ur[i + start]?, off[i]? with
            | some c, some d =>
                if c = d then
                  match off[i + 1]? with
                  | none => none
                  | some next =>
                      if next = 0 then
                        some true
                      else
                        checkLoop ur off rounds (i + 1) start
                else
                  checkLoop ur off rounds 0 (start + 1)
            | _, _ => none

/-- `check`; the rounds suffice for every pair of strings. -/
def check (ur off : List Byte) : Option Bool :=
  checkLoop ur off ((ur.length + 1) * (off.length + 1)) 0 0

/-! ## Occurrences -/

section Occurrences

variable {word text : List Byte}

/-- The first `count` bytes of the word stand in the text at `start`. -/
def Agrees (word text : List Byte) (start count : Nat) : Prop :=
  ∀ k < count, text[k + start]? = word[k]?

theorem agrees_zero (start : Nat) : Agrees word text start 0 :=
  fun _ impossible => absurd impossible (Nat.not_lt_zero _)

theorem agrees_succ_iff (start count : Nat) :
    Agrees word text start (count + 1) ↔
      Agrees word text start count ∧
        text[count + start]? = word[count]? := by
  constructor
  · intro agrees
    exact ⟨fun k inside => agrees k (Nat.lt_succ_of_lt inside),
      agrees count (Nat.lt_succ_self count)⟩
  · rintro ⟨agrees, last⟩ k inside
    rcases Nat.lt_succ_iff_lt_or_eq.mp inside with earlier | rfl
    · exact agrees k earlier
    · exact last

/-- The word occurs exactly if all of it agrees somewhere. -/
theorem infix_iff_agrees :
    word <:+: text ↔ ∃ start, Agrees word text start word.length := by
  constructor
  · rintro ⟨before, after, rfl⟩
    refine ⟨before.length, fun k inside => ?_⟩
    rw [List.append_assoc, Nat.add_comm,
      List.getElem?_append_right (Nat.le_add_right _ _),
      Nat.add_sub_cancel_left, List.getElem?_append_left inside]
  · rintro ⟨start, agrees⟩
    have isPrefix : word <+: text.drop start := by
      rw [List.prefix_iff_getElem?]
      intro k inside
      rw [List.getElem?_drop, Nat.add_comm, agrees k inside,
        List.getElem?_eq_getElem inside]
    exact isPrefix.isInfix.trans (List.drop_suffix _ _).isInfix

/-- Bytes that agree lie in the text. -/
theorem Agrees.add_le
    {start count : Nat} (agrees : Agrees word text start count)
    (bound : count ≤ word.length) (inside : start ≤ text.length) :
    count + start ≤ text.length := by
  cases count with
  | zero => simpa using inside
  | succ k =>
      have last := agrees k (Nat.lt_succ_self k)
      rw [List.getElem?_eq_getElem (show k < word.length by omega)]
        at last
      have := (List.getElem?_eq_some_iff.mp last).1
      omega

end Occurrences

/-! ## The loop -/

/-- What the loop has found out when it is at `i` and `start`. -/
structure Searching (word text : List Byte) (i start : Nat) : Prop where
  inside : start ≤ text.length
  pending : i < word.length
  agrees : Agrees word text start i
  missed : ∀ earlier < start, ¬ Agrees word text earlier word.length

/-- Behind the last place there is no occurrence of a non-empty word. -/
theorem Searching.not_infix
    {word text : List Byte} {i : Nat}
    (searching : Searching word text i text.length) :
    ¬ word <:+: text := by
  rw [infix_iff_agrees]
  rintro ⟨start, agrees⟩
  rcases Nat.lt_or_ge start text.length with inside | behind
  · exact searching.missed start inside agrees
  · have pending := searching.pending
    have first := agrees 0 (by omega)
    rw [List.getElem?_eq_none (by omega),
      List.getElem?_eq_getElem (by omega)] at first
    cases first

/-- One more byte agrees, and the word is not at its end. -/
theorem Searching.extend
    {word text : List Byte} {i start : Nat}
    (searching : Searching word text i start)
    (same : text[i + start]? = word[i]?) (more : i + 1 < word.length) :
    Searching word text (i + 1) start where
  inside := searching.inside
  pending := more
  agrees := (agrees_succ_iff start i).mpr ⟨searching.agrees, same⟩
  missed := searching.missed

/-- The last byte of the word agrees. -/
theorem Searching.found
    {word text : List Byte} {i start : Nat}
    (searching : Searching word text i start)
    (same : text[i + start]? = word[i]?) (last : i + 1 = word.length) :
    word <:+: text := by
  apply infix_iff_agrees.mpr
  refine ⟨start, ?_⟩
  rw [← last]
  exact (agrees_succ_iff start i).mpr ⟨searching.agrees, same⟩

/-- A byte differs: the next place is tried from its first byte on. -/
theorem Searching.restart
    {word text : List Byte} {i start : Nat}
    (searching : Searching word text i start)
    (more : start < text.length)
    (differs : text[i + start]? ≠ word[i]?) :
    Searching word text 0 (start + 1) where
  inside := more
  pending := Nat.zero_lt_of_lt searching.pending
  agrees := agrees_zero _
  missed := by
    intro earlier before agrees
    rcases Nat.lt_succ_iff_lt_or_eq.mp before with inside | rfl
    · exact searching.missed earlier inside agrees
    · exact differs (agrees i searching.pending)

/-- A bound on the rounds that the search still takes. -/
def roundsLeft (word text : List Byte) (i start : Nat) : Nat :=
  (text.length - start) * word.length + (word.length - i)

/-- A round inside the text finds the word or goes on with the search. -/
theorem Searching.round
    {ur off : List Byte} (offEnds : 0 ∈ off) {i start : Nat}
    (searching : Searching (cString off) (cString ur) i start)
    (more : start < (cString ur).length)
    {c : Byte} (cRead : ur[i + start]? = some c)
    (cText : c ≠ 0 → (cString ur)[i + start]? = some c)
    (rounds : Nat) :
    (checkLoop ur off (rounds + 1) i start = some true ∧
        cString off <:+: cString ur) ∨
      ∃ i' start',
        checkLoop ur off (rounds + 1) i start =
            checkLoop ur off rounds i' start' ∧
          Searching (cString off) (cString ur) i' start' ∧
          roundsLeft (cString off) (cString ur) i' start' <
            roundsLeft (cString off) (cString ur) i start := by
  have pending := searching.pending
  have currentRead := getElem?_of_lt_cString more
  rw [List.getElem?_eq_getElem more] at currentRead
  have nonzero := nulFree_cString ur _ (List.getElem_mem more)
  rcases getElem?_of_le_cString offEnds (Nat.le_of_lt pending) with
    ⟨d, dRead, dEnd, dText⟩
  have inWord : d ≠ 0 :=
    fun zero => Nat.ne_of_lt pending (dEnd.mp zero)
  simp only [checkLoop, currentRead, nonzero, if_false, cRead, dRead]
  by_cases same : c = d
  · rcases getElem?_of_le_cString offEnds pending with
      ⟨next, nextRead, nextEnd, _⟩
    have agree : (cString ur)[i + start]? = (cString off)[i]? := by
      rw [cText (same ▸ inWord), dText inWord, same]
    simp only [same, if_true, nextRead]
    by_cases complete : next = 0
    · have occurs := searching.found agree (nextEnd.mp complete)
      exact Or.inl ⟨if_pos complete, occurs⟩
    · have unfinished : i + 1 < (cString off).length :=
        Nat.lt_of_le_of_ne pending
          fun last => complete (nextEnd.mpr last)
      refine Or.inr ⟨i + 1, start, if_neg complete,
        searching.extend agree unfinished, ?_⟩
      simp only [roundsLeft]
      omega
  · have differs : (cString ur)[i + start]? ≠ (cString off)[i]? := by
      rw [dText inWord]
      intro found
      have inText := (List.getElem?_eq_some_iff.mp found).1
      have read := getElem?_of_lt_cString inText
      rw [cRead, found, Option.some.injEq] at read
      exact same read
    refine Or.inr ⟨0, start + 1, if_neg same,
      searching.restart more differs, ?_⟩
    have step : (cString ur).length - start =
        (cString ur).length - (start + 1) + 1 := by
      omega
    simp only [roundsLeft]
    rw [step, Nat.succ_mul]
    omega

/-- From every point of the search the loop gives the right answer. -/
theorem checkLoop_spec
    {ur off : List Byte} (urEnds : 0 ∈ ur) (offEnds : 0 ∈ off)
    {rounds i start : Nat}
    (searching : Searching (cString off) (cString ur) i start)
    (enough : roundsLeft (cString off) (cString ur) i start ≤ rounds) :
    checkLoop ur off rounds i start =
      some (decide (cString off <:+: cString ur)) := by
  induction rounds generalizing i start with
  | zero =>
      have pending := searching.pending
      simp only [roundsLeft] at enough
      omega
  | succ rounds induction =>
      rcases getElem?_of_le_cString urEnds searching.inside with
        ⟨current, currentRead, currentEnd, _⟩
      by_cases ended : current = 0
      · have last := currentEnd.mp ended
        rw [last] at searching
        simp [checkLoop, currentRead, ended, searching.not_infix]
      · have more : start < (cString ur).length :=
          Nat.lt_of_le_of_ne searching.inside
            fun last => ended (currentEnd.mpr last)
        have bound := searching.agrees.add_le
          (Nat.le_of_lt searching.pending) searching.inside
        rcases getElem?_of_le_cString urEnds bound with
          ⟨c, cRead, _, cText⟩
        rcases searching.round offEnds more cRead cText rounds with
          ⟨found, occurs⟩ | ⟨i', start', step, later, fewer⟩
        · rw [found]
          simp [occurs]
        · rw [step]
          exact induction later (by omega)

/-- A word that occurs is found before the text is left. -/
theorem checkLoop_found
    {ur off : List Byte} (offEnds : 0 ∈ off)
    (occurs : cString off <:+: cString ur)
    {rounds i start : Nat}
    (searching : Searching (cString off) (cString ur) i start)
    (enough : roundsLeft (cString off) (cString ur) i start ≤ rounds) :
    checkLoop ur off rounds i start = some true := by
  induction rounds generalizing i start with
  | zero =>
      have pending := searching.pending
      simp only [roundsLeft] at enough
      omega
  | succ rounds induction =>
      have pending := searching.pending
      rcases infix_iff_agrees.mp occurs with ⟨place, agrees⟩
      have before : start ≤ place := by
        by_contra passed
        exact searching.missed place (Nat.not_le.mp passed) agrees
      -- the last byte of the occurrence bounds every read of the round
      have last := agrees ((cString off).length - 1) (by omega)
      rw [List.getElem?_eq_getElem (i := (cString off).length - 1)
        (by omega)] at last
      have inside := (List.getElem?_eq_some_iff.mp last).1
      have bound : i + start < (cString ur).length := by omega
      have cText := List.getElem?_eq_getElem bound
      have cRead := (getElem?_of_lt_cString bound).trans cText
      rcases searching.round offEnds (by omega) cRead
          (fun _ => cText) rounds with
        ⟨found, _⟩ | ⟨i', start', step, later, fewer⟩
      · exact found
      · rw [step]
        exact induction later (by omega)

/-- Without a terminator the loop answers only when the word occurs. -/
theorem occurs_of_checkLoop
    {ur off : List Byte} (offEnds : 0 ∈ off) (endless : 0 ∉ ur)
    {rounds i start : Nat} {bit : Bool}
    (searching : Searching (cString off) (cString ur) i start)
    (answer : checkLoop ur off rounds i start = some bit) :
    cString off <:+: cString ur := by
  have free := nulFree_of_not_mem endless
  have whole := cString_of_nulFree free
  induction rounds generalizing i start with
  | zero => cases answer
  | succ rounds induction =>
      cases first : ur[start]? with
      | none => simp [checkLoop, first] at answer
      | some current =>
          have nonzero := free current (List.mem_of_getElem? first)
          cases second : ur[i + start]? with
          | none => simp [checkLoop, first, nonzero, second] at answer
          | some c =>
              have more := (List.getElem?_eq_some_iff.mp first).1
              rw [← whole] at more
              rcases searching.round offEnds more second
                  (fun _ => by rw [whole, second]) rounds with
                ⟨_, occurs⟩ | ⟨i', start', step, later, _⟩
              · exact occurs
              · rw [step] at answer
                exact induction later answer

/-- The search before its first round. -/
theorem searching_start
    {word text : List Byte} (nonempty : word ≠ []) :
    Searching word text 0 0 where
  inside := Nat.zero_le _
  pending := List.length_pos_iff.mpr nonempty
  agrees := agrees_zero 0
  missed _ impossible := absurd impossible (Nat.not_lt_zero _)

/-- The rounds of `check` suffice. -/
theorem roundsLeft_le (ur off : List Byte) :
    roundsLeft (cString off) (cString ur) 0 0 ≤
      (ur.length + 1) * (off.length + 1) := by
  have urBound := cString_length_le ur
  have offBound := cString_length_le off
  calc
    ((cString ur).length - 0) * (cString off).length +
        ((cString off).length - 0) =
        ((cString ur).length + 1) * (cString off).length := by
      rw [Nat.sub_zero, Nat.sub_zero, Nat.succ_mul]
    _ ≤ (ur.length + 1) * (off.length + 1) :=
      Nat.mul_le_mul (by omega) (by omega)

/-- `check` decides whether the word occurs in the target. -/
theorem check_spec
    {ur off : List Byte} (urEnds : 0 ∈ ur) (offEnds : 0 ∈ off)
    (nonempty : cString off ≠ []) :
    check ur off = some (decide (cString off <:+: cString ur)) :=
  checkLoop_spec urEnds offEnds (searching_start nonempty)
    (roundsLeft_le ur off)

/--
`check` is the search for a substring.  Whatever stands behind the terminators
makes no difference, and nothing needs to stand there: no byte behind them is
read.
-/
theorem check_substring
    (ur off behindUr behindOff : List Byte)
    (urFree : NulFree ur) (offFree : NulFree off)
    (nonempty : off ≠ []) :
    check (ur ++ 0 :: behindUr) (off ++ 0 :: behindOff) =
      some (decide (off <:+: ur)) := by
  have urText := cString_append_zero urFree behindUr
  have offText := cString_append_zero offFree behindOff
  rw [check_spec (by simp) (by simp) (by rwa [offText])]
  simp only [urText, offText]

/-- The word `ab` is found behind an `a` that is no start of it. -/
theorem check_substring_ab :
    check ([97, 97, 98] ++ 0 :: []) ([97, 98] ++ 0 :: []) =
      some (decide ([97, 98] <:+: ([97, 97, 98] : List Byte))) :=
  check_substring [97, 97, 98] [97, 98] [] [] (by decide) (by decide)
    (List.cons_ne_nil 97 [98])

/-- When the search stays inside the target, and what it answers then. -/
theorem check_eq_some_iff
    {ur off : List Byte} (offEnds : 0 ∈ off)
    (nonempty : cString off ≠ []) (bit : Bool) :
    check ur off = some bit ↔
      (0 ∈ ur ∨ cString off <:+: ur) ∧
        bit = decide (cString off <:+: cString ur) := by
  by_cases urEnds : 0 ∈ ur
  · rw [check_spec urEnds offEnds nonempty, Option.some.injEq]
    simp [urEnds, eq_comm]
  · have start : Searching (cString off) (cString ur) 0 0 :=
      searching_start nonempty
    have whole := cString_of_nulFree (nulFree_of_not_mem urEnds)
    by_cases occurs : cString off <:+: cString ur
    · have found := checkLoop_found offEnds occurs start
        (roundsLeft_le ur off)
      rw [check, found, Option.some.injEq]
      rw [whole] at occurs ⊢
      simp [occurs, eq_comm]
    · rw [whole] at occurs ⊢
      constructor
      · intro answer
        have found := occurs_of_checkLoop offEnds urEnds start answer
        rw [whole] at found
        exact absurd found occurs
      · rintro ⟨here, _⟩
        exact (here.elim urEnds occurs).elim

end NetworkingLab.Proxy
