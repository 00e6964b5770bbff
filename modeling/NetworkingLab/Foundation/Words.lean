import Mathlib.Data.List.TakeWhile
import Mathlib.Tactic.Common

/-!
# Words

The words of a list are its maximal runs of elements that are not blank.  A
scanner that skips blanks and then takes elements up to the next blank reads
the words one after another, and text appended behind a blank adds its own
words and changes no other.
-/

namespace NetworkingLab.Foundation.Words

variable {α : Type*} (blank : α → Bool)

/-- The maximal runs of elements that are not blank. -/
def words (input : List α) : List (List α) :=
  (input.splitOnP blank).filter fun word => !word.isEmpty

/-- No element is blank. -/
def Solid (text : List α) : Prop :=
  ∀ element ∈ text, blank element = false

instance (text : List α) : Decidable (Solid blank text) :=
  List.decidableBAll (fun element => blank element = false) text

@[simp]
theorem words_nil : words blank [] = [] := by
  simp [words]

theorem words_append_blank
    (front back : List α) {separator : α}
    (isBlank : blank separator = true) :
    words blank (front ++ separator :: back) =
      words blank front ++ words blank back := by
  rw [words, List.splitOnP_append_cons front back isBlank,
    List.filter_append]
  rfl

theorem words_cons_blank
    {separator : α} (back : List α)
    (isBlank : blank separator = true) :
    words blank (separator :: back) = words blank back := by
  simpa using words_append_blank blank [] back isBlank

theorem words_solid
    {text : List α} (solid : Solid blank text) (nonempty : text ≠ []) :
    words blank text = [text] := by
  rw [words, List.splitOnP_eq_singleton solid]
  simp [nonempty]

theorem words_solid_append
    {text : List α} (solid : Solid blank text) (nonempty : text ≠ [])
    {separator : α} (back : List α) (isBlank : blank separator = true) :
    words blank (text ++ separator :: back) = text :: words blank back := by
  rw [words_append_blank blank text back isBlank,
    words_solid blank solid nonempty, List.singleton_append]

theorem words_replicate_append
    {separator : α} (count : Nat) (back : List α)
    (isBlank : blank separator = true) :
    words blank (List.replicate count separator ++ back) =
      words blank back := by
  induction count with
  | zero => rfl
  | succ count induction =>
      rw [List.replicate_succ, List.cons_append,
        words_cons_blank blank _ isBlank, induction]

/-- Leading blanks belong to no word. -/
theorem words_dropWhile (input : List α) :
    words blank (input.dropWhile blank) = words blank input := by
  induction input with
  | nil => rfl
  | cons head tail induction =>
      by_cases isBlank : blank head = true
      · rw [List.dropWhile_cons_of_pos isBlank, induction,
          words_cons_blank blank tail isBlank]
      · rw [List.dropWhile_cons_of_neg isBlank]

theorem solid_takeWhile (input : List α) :
    Solid blank (input.takeWhile fun element => !blank element) := by
  intro element member
  simpa using List.mem_takeWhile_imp member

/-- A list that does not start with a blank starts with its first word. -/
theorem words_eq_cons
    {input : List α} (nonempty : input ≠ [])
    (start : input.dropWhile blank = input) :
    (input.takeWhile fun element => !blank element) ≠ [] ∧
      words blank input =
        (input.takeWhile fun element => !blank element) ::
          words blank (input.dropWhile fun element => !blank element) := by
  have head : (input.takeWhile fun element => !blank element) ≠ [] := by
    cases input with
    | nil => exact absurd rfl nonempty
    | cons first rest =>
        have solid : blank first = false := by
          by_contra isBlank
          have shorter := congrArg List.length start
          rw [List.dropWhile_cons_of_pos (by simpa using isBlank)]
            at shorter
          have bound := List.length_dropWhile_le blank rest
          simp only [List.length_cons] at shorter
          omega
        simp [solid]
  refine ⟨head, ?_⟩
  have solid := solid_takeWhile blank input
  have split : (input.takeWhile fun element => !blank element) ++
      (input.dropWhile fun element => !blank element) = input :=
    List.takeWhile_append_dropWhile
  cases rest : input.dropWhile fun element => !blank element with
  | nil =>
      rw [rest, List.append_nil] at split
      rw [words_nil, split]
      exact words_solid blank (split ▸ solid) nonempty
  | cons separator back =>
      have isBlank : blank separator = true := by
        have stopped := List.head_dropWhile_not
          (fun element => !blank element) (l := input) (by simp [rest])
        simpa [rest] using stopped
      rw [words_cons_blank blank back isBlank]
      rw [rest] at split
      calc
        words blank input =
            words blank ((input.takeWhile fun element =>
              !blank element) ++ separator :: back) := by rw [split]
        _ = _ := words_solid_append blank solid head back isBlank

/-! ## Parts of words -/

/-- Induction along the blanks of a list. -/
theorem blank_induction
    {motive : List α → Prop}
    (last : ∀ text, Solid blank text → motive text)
    (front : ∀ text separator back, Solid blank text →
      blank separator = true → motive back →
        motive (text ++ separator :: back))
    (input : List α) : motive input := by
  have general : ∀ text, Solid blank text → motive (text ++ input) := by
    induction input with
    | nil =>
        intro text solid
        rw [List.append_nil]
        exact last text solid
    | cons head tail induction =>
        intro text solid
        by_cases isBlank : blank head = true
        · exact front text head tail solid isBlank
            (induction [] (by simp [Solid]))
        · rw [← List.singleton_append, ← List.append_assoc]
          apply induction
          intro element member
          rcases List.mem_append.mp member with inside | here
          · exact solid element inside
          · rw [List.mem_singleton.mp here]
            simpa using isBlank
  exact general [] (by simp [Solid])

/-- The words hold the elements that are not blank, in their order. -/
theorem words_flatten (input : List α) :
    (words blank input).flatten =
      input.filter fun element => !blank element := by
  have kept : ∀ text, Solid blank text →
      (text.filter fun element => !blank element) = text := by
    intro text solid
    apply List.filter_eq_self.mpr
    intro element member
    simp [solid element member]
  induction input using blank_induction blank with
  | last text solid =>
      rw [kept text solid]
      by_cases empty : text = []
      · simp [empty]
      · simp [words_solid blank solid empty]
  | front text separator back solid isBlank induction =>
      rw [List.filter_append, kept text solid,
        List.filter_cons_of_neg (by simp [isBlank]), ← induction]
      by_cases empty : text = []
      · simp [empty, words_cons_blank blank back isBlank]
      · rw [words_solid_append blank solid empty back isBlank,
          List.flatten_cons]

/-- The words of a list without blanks. -/
theorem mem_words_solid_iff
    {text word : List α} (solid : Solid blank text) :
    word ∈ words blank text ↔ word ≠ [] ∧ word = text := by
  by_cases empty : text = []
  · simp [empty]
  · rw [words_solid blank solid empty, List.mem_singleton]
    constructor
    · rintro rfl
      exact ⟨empty, rfl⟩
    · rintro ⟨_, rfl⟩
      rfl

theorem solid_of_mem_words
    {input word : List α} (member : word ∈ words blank input) :
    Solid blank word ∧ word ≠ [] ∧ word <:+: input := by
  induction input using blank_induction blank with
  | last text solid =>
      rcases (mem_words_solid_iff blank solid).mp member with
        ⟨nonempty, rfl⟩
      exact ⟨solid, nonempty, List.infix_rfl⟩
  | front text separator back solid isBlank induction =>
      rw [words_append_blank blank text back isBlank, List.mem_append]
        at member
      rcases member with here | later
      · rcases (mem_words_solid_iff blank solid).mp here with
          ⟨nonempty, rfl⟩
        exact ⟨solid, nonempty, List.infix_append [] _ _⟩
      · rcases induction later with ⟨wordSolid, nonempty, part⟩
        have tail : back <:+: text ++ separator :: back :=
          ⟨text ++ [separator], [], by simp⟩
        exact ⟨wordSolid, nonempty, part.trans tail⟩

/-- A part without blanks lies on one side of every blank. -/
theorem infix_append_blank
    {text front back : List α} {separator : α}
    (solid : Solid blank text) (isBlank : blank separator = true)
    (part : text <:+: front ++ separator :: back) :
    text <:+: front ∨ text <:+: back := by
  have outside : separator ∉ text := by
    intro member
    rw [solid separator member] at isBlank
    cases isBlank
  rcases part with ⟨before, after, whole⟩
  rcases List.append_eq_append_iff.mp whole with
    ⟨rest, left, _⟩ | ⟨rest, left, right⟩
  · left
    exact ⟨before, rest, left.symm⟩
  · rcases List.append_eq_append_iff.mp left with
      ⟨inner, _, text_eq⟩ | ⟨inner, _, rest_eq⟩
    · cases rest with
      | nil =>
          left
          exact ⟨before, [], by simpa using left⟩
      | cons first more =>
          rw [List.cons_append, List.cons.injEq] at right
          rcases right with ⟨rfl, _⟩
          exact absurd (by simp [text_eq]) outside
    · cases inner with
      | nil =>
          rw [List.nil_append] at rest_eq
          subst rest_eq
          cases rest with
          | nil =>
              left
              exact List.nil_infix
          | cons first more =>
              rw [List.cons_append, List.cons.injEq] at right
              rcases right with ⟨rfl, _⟩
              exact absurd (by simp) outside
      | cons first more =>
          right
          rw [rest_eq, List.cons_append, List.cons_append,
            List.cons.injEq] at right
          exact ⟨more, after, right.2.symm⟩

/-- A part without blanks lies in one word. -/
theorem exists_word_of_infix
    {input text : List α} (solid : Solid blank text)
    (nonempty : text ≠ []) (part : text <:+: input) :
    ∃ word ∈ words blank input, text <:+: word := by
  induction input using blank_induction blank with
  | last whole wholeSolid =>
      have inhabited : whole ≠ [] := by
        rintro rfl
        exact nonempty (List.infix_nil.mp part)
      refine ⟨whole, ?_, part⟩
      rw [words_solid blank wholeSolid inhabited]
      exact List.mem_singleton.mpr rfl
  | front first separator back firstSolid isBlank induction =>
      rw [words_append_blank blank first back isBlank]
      rcases infix_append_blank blank solid isBlank part with here | later
      · have inhabited : first ≠ [] := by
          rintro rfl
          exact nonempty (List.infix_nil.mp here)
        refine ⟨first, ?_, here⟩
        rw [words_solid blank firstSolid inhabited]
        exact List.mem_append_left _ (List.mem_singleton.mpr rfl)
      · rcases induction later with ⟨word, member, inside⟩
        exact ⟨word, List.mem_append_right _ member, inside⟩

/-! ## Appending text -/

/-- The last element, if there is one, is blank. -/
def EndsBlank (input : List α) : Prop :=
  ∀ last ∈ input.getLast?, blank last = true

/-- Text behind a blank end adds its own words. -/
theorem words_append_of_endsBlank
    {input : List α} (ends : EndsBlank blank input) (back : List α) :
    words blank (input ++ back) =
      words blank input ++ words blank back := by
  rcases List.eq_nil_or_concat input with rfl | ⟨front, last, rfl⟩
  · simp
  · have isBlank : blank last = true := ends last (by simp)
    rw [List.concat_eq_append, List.append_assoc,
      List.singleton_append, words_append_blank blank front _ isBlank,
      words_append_blank blank front [] isBlank]
    simp

/-- Text without blanks behind another end prolongs the last word. -/
theorem words_append_length
    {input text : List α} (ends : ¬ EndsBlank blank input)
    (solid : Solid blank text) :
    (words blank (input ++ text)).length =
      (words blank input).length := by
  induction input using blank_induction blank with
  | last whole wholeSolid =>
      have nonempty : whole ≠ [] := by
        rintro rfl
        exact ends (by simp [EndsBlank])
      have joined : Solid blank (whole ++ text) := by
        intro element member
        rcases List.mem_append.mp member with here | there
        · exact wholeSolid element here
        · exact solid element there
      rw [words_solid blank joined (by simp [nonempty]),
        words_solid blank wholeSolid nonempty]
      rfl
  | front first separator back _ isBlank induction =>
      have later : ¬ EndsBlank blank back := by
        intro blankEnd
        apply ends
        intro last member
        cases back with
        | nil =>
            have here : separator = last := by simpa using member
            rw [← here]
            exact isBlank
        | cons head tail =>
            apply blankEnd last
            simpa using member
      rw [List.append_assoc, List.cons_append,
        words_append_blank blank first _ isBlank,
        words_append_blank blank first back isBlank, List.length_append,
        List.length_append, induction later]

end NetworkingLab.Foundation.Words
