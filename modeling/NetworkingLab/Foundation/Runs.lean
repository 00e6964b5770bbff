import Mathlib.Logic.Relation
import Mathlib.Tactic.Common

/-!
# Runs of labelled transition systems

A run records every step it took: the state before, the label and the state
after.  `Run.forall_good_iff` compares two properties of the recorded steps, a
desired one and a guard that can be read off before the step: when the guard
decides the desired property at every state of an invariant that guarded steps
preserve, a whole run has the desired property exactly if all its steps were
guarded.  `Run.forall_good` is the direction that is left where the guard is
only sufficient.  `Run.exists_not_good` finds a run that ends at a bad state,
from a measure that steps at good states can lower.

`execute` computes runs of systems whose steps are computable.
-/

namespace NetworkingLab.Foundation.Runs

variable {State Label : Type*}

/-- One step of a run. -/
structure Record (State Label : Type*) where
  before : State
  label : Label
  after : State

/-- The runs of `step` from `start`, with their records in order. -/
inductive Run
    (step : State → Label → State → Prop) (start : State) :
    List (Record State Label) → State → Prop where
  | nil : Run step start [] start
  | snoc
      {records : List (Record State Label)}
      {current next : State} {label : Label}
      (run : Run step start records current)
      (move : step current label next) :
      Run step start (records ++ [⟨current, label, next⟩]) next

variable
    {step : State → Label → State → Prop}
    {start final : State}
    {records : List (Record State Label)}

namespace Run

/-- Every record of a run is a step. -/
theorem step_of_mem
    (run : Run step start records final)
    {record : Record State Label} (member : record ∈ records) :
    step record.before record.label record.after := by
  induction run with
  | nil => cases member
  | snoc _ move induction =>
      rcases List.mem_append.mp member with earlier | last
      · exact induction earlier
      · rw [List.mem_singleton.mp last]
        exact move

/--
A guard that decides the desired property of each step, at the states of an
invariant which guarded steps preserve, decides it for the whole run.
-/
theorem forall_good_iff
    {Inv : State → Prop}
    {Good Guard : Record State Label → Prop}
    (initial : Inv start)
    (decides :
      ∀ current label next,
        Inv current → step current label next →
          (Good ⟨current, label, next⟩ ↔
            Guard ⟨current, label, next⟩))
    (preserved :
      ∀ current label next,
        Inv current → step current label next →
          Guard ⟨current, label, next⟩ → Inv next)
    (run : Run step start records final) :
    ((∀ record ∈ records, Good record) ↔
        ∀ record ∈ records, Guard record) ∧
      ((∀ record ∈ records, Guard record) → Inv final) := by
  induction run with
  | nil => simp [initial]
  | @snoc records current next label _ move induction =>
      obtain ⟨equivalent, carried⟩ := induction
      simp only [List.mem_append, List.mem_singleton, or_imp,
        forall_and, forall_eq]
      constructor
      · constructor
        · rintro ⟨earlier, last⟩
          have guarded := equivalent.mp earlier
          exact
            ⟨guarded,
              (decides _ _ _ (carried guarded) move).mp last⟩
        · rintro ⟨guarded, last⟩
          exact
            ⟨equivalent.mpr guarded,
              (decides _ _ _ (carried guarded) move).mpr last⟩
      · rintro ⟨guarded, last⟩
        exact preserved _ _ _ (carried guarded) move last

/--
When every guarded step from an invariant keeps the invariant and is good, a
run of guarded steps is good throughout.
-/
theorem forall_good
    {Inv : State → Prop}
    {Good Guard : Record State Label → Prop}
    (initial : Inv start)
    (guarded :
      ∀ current label next,
        Inv current → step current label next →
          Guard ⟨current, label, next⟩ →
            Good ⟨current, label, next⟩ ∧ Inv next)
    (run : Run step start records final)
    (guards : ∀ record ∈ records, Guard record) :
    (∀ record ∈ records, Good record) ∧ Inv final := by
  induction run with
  | nil => simp [initial]
  | @snoc records current next label _ move induction =>
      simp only [List.mem_append, List.mem_singleton, or_imp,
        forall_and, forall_eq] at guards ⊢
      obtain ⟨earlier, holds⟩ := induction guards.1
      obtain ⟨last, kept⟩ := guarded _ _ _ holds move guards.2
      exact ⟨⟨earlier, last⟩, kept⟩

/-- What holds at the start and is kept by every step holds at the end. -/
theorem invariant
    (Inv : State → Prop) (initial : Inv start)
    (preserved :
      ∀ current label next,
        Inv current → step current label next → Inv next)
    (run : Run step start records final) :
    Inv final := by
  induction run with
  | nil => exact initial
  | snoc _ move induction => exact preserved _ _ _ induction move

/-- A run may be continued by another. -/
theorem append
    {middle : State} {later : List (Record State Label)}
    (first : Run step start records middle)
    (second : Run step middle later final) :
    Run step start (records ++ later) final := by
  induction second with
  | nil => simpa using first
  | snoc _ move induction =>
      rw [← List.append_assoc]
      exact .snoc induction move

/--
When every good state of an invariant has a step that lowers a measure, some
run ends at a state that is not good.
-/
theorem exists_not_good
    {Inv Good : State → Prop} (measure : State → Nat)
    (progress :
      ∀ current, Inv current → Good current →
        ∃ label next, step current label next ∧ Inv next ∧
          measure next < measure current)
    (initial : Inv start) :
    ∃ records final, Run step start records final ∧ ¬ Good final := by
  induction bound : measure start using Nat.strongRecOn
    generalizing start with
  | ind bound induction =>
      subst bound
      by_cases good : Good start
      · rcases progress start initial good with
          ⟨label, next, move, kept, lower⟩
        rcases induction (measure next) lower kept rfl with
          ⟨records, final, run, bad⟩
        have first : Run step start [⟨start, label, next⟩] next :=
          .snoc .nil move
        exact ⟨_, final, first.append run, bad⟩
      · exact ⟨[], start, .nil, good⟩

end Run

/-! ## Computed runs -/

/-- Perform the inputs in order and record the steps. -/
def execute {Input : Type*}
    (perform : State → Input → Option (Label × State)) :
    State → List Input → Option (List (Record State Label) × State)
  | state, [] => some ([], state)
  | state, input :: inputs =>
      match perform state input with
      | none => none
      | some (label, next) =>
          (execute perform next inputs).map
            fun result => (⟨state, label, next⟩ :: result.1, result.2)

theorem execute_run {Input : Type*}
    {perform : State → Input → Option (Label × State)}
    (sound :
      ∀ current input label next,
        perform current input = some (label, next) →
          step current label next)
    {inputs : List Input}
    (computed : execute perform start inputs = some (records, final)) :
    Run step start records final := by
  induction inputs generalizing start records with
  | nil =>
      cases computed
      exact .nil
  | cons input inputs induction =>
      rw [execute] at computed
      split at computed
      · cases computed
      · next label next performed =>
          simp only [Option.map_eq_some_iff, Prod.mk.injEq] at computed
          rcases computed with ⟨⟨later, stop⟩, ran, rfl, rfl⟩
          have first : Run step start [⟨start, label, next⟩] next :=
            .snoc .nil (sound _ _ _ _ performed)
          exact first.append (induction ran)

end NetworkingLab.Foundation.Runs
