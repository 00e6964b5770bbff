import Mathlib.Data.List.Basic
import Mathlib.Tactic.Common

/-!
# Machines that answer their inputs

A machine takes inputs one after another; it answers each and goes on, or
refuses it with an error and stops.  Two implementations of one interface are
two machines over different states.  `answers_eq` is the simulation rule for
them: when related states answer alike and stay related, the two machines give
the same answers to every list of inputs.  `run_keeps` is the induction over
one run.

The relation may depend on the inputs that are still to come, so that it can
carry a budget.
-/

namespace NetworkingLab.Foundation.Machines

/-- One input: an error, or an answer and the next state. -/
abbrev Machine (State Input Output Error : Type*) :=
  State → Input → Except Error (Output × State)

variable {State Left Right Input Output Error : Type*}

/-- The answers to a list of inputs, the last of which may be an error. -/
def answers (machine : Machine State Input Output Error) :
    State → List Input → List (Except Error Output)
  | _, [] => []
  | state, input :: inputs =>
      match machine state input with
      | .error error => [.error error]
      | .ok (output, next) =>
          .ok output :: answers machine next inputs

/-- The state behind a list of inputs, none of which is refused. -/
def after (machine : Machine State Input Output Error) :
    State → List Input → Option State
  | state, [] => some state
  | state, input :: inputs =>
      match machine state input with
      | .error _ => none
      | .ok (_, next) => after machine next inputs

section Steps

variable
    {machine : Machine State Input Output Error} {state next : State}
    {input : Input} {output : Output}

theorem answers_refused
    {error : Error} (refused : machine state input = .error error)
    (inputs : List Input) :
    answers machine state (input :: inputs) = [.error error] := by
  rw [answers, refused]

theorem answers_answered
    (answered : machine state input = .ok (output, next))
    (inputs : List Input) :
    answers machine state (input :: inputs) =
      .ok output :: answers machine next inputs := by
  rw [answers, answered]

theorem after_refused
    {error : Error} (refused : machine state input = .error error)
    (inputs : List Input) :
    after machine state (input :: inputs) = none := by
  rw [after, refused]

theorem after_answered
    (answered : machine state input = .ok (output, next))
    (inputs : List Input) :
    after machine state (input :: inputs) = after machine next inputs := by
  rw [after, answered]

end Steps

/-- A result with a property, or an error that is allowed. -/
inductive Ends {Result : Type*} (Allowed : Error → Prop)
    (Post : Result → Prop) : Except Error Result → Prop where
  | refused {error : Error} (allowed : Allowed error) :
      Ends Allowed Post (.error error)
  | answered {result : Result} (post : Post result) :
      Ends Allowed Post (.ok result)

section Results

variable
    {First Second : Type*} {Allowed : Error → Prop}
    {result : Except Error First}

theorem Ends.imp
    {Post Weaker : First → Prop} (ends : Ends Allowed Post result)
    (weaker : ∀ result, Post result → Weaker result) :
    Ends Allowed Weaker result := by
  cases ends with
  | refused allowed => exact .refused allowed
  | answered post => exact .answered (weaker _ post)

theorem Ends.map
    {Post : Second → Prop} {f : First → Second}
    (ends : Ends Allowed (fun first => Post (f first)) result) :
    Ends Allowed Post (result.map f) := by
  cases ends with
  | refused allowed => exact .refused allowed
  | answered post => exact .answered post

end Results

/-- One result: its answer is good, and the next state has the invariant. -/
inductive Keeps (Good : Except Error Output → Prop) (Inv : State → Prop) :
    Except Error (Output × State) → Prop where
  | refused {error : Error} (good : Good (.error error)) :
      Keeps Good Inv (.error error)
  | answered
      {output : Output} {next : State}
      (good : Good (.ok output)) (inv : Inv next) :
      Keeps Good Inv (.ok (output, next))

/-- What every input keeps holds of all answers and behind the last one. -/
theorem run_keeps
    {machine : Machine State Input Output Error}
    {Good : Except Error Output → Prop} {Inv : State → Prop}
    {inputs : List Input} {state : State}
    (keeps : ∀ input ∈ inputs, ∀ state, Inv state →
      Keeps Good Inv (machine state input))
    (initial : Inv state) :
    (∀ answer ∈ answers machine state inputs, Good answer) ∧
      ∀ final, after machine state inputs = some final → Inv final := by
  induction inputs generalizing state with
  | nil =>
      refine ⟨by simp [answers], ?_⟩
      rintro final ⟨⟩
      exact initial
  | cons input inputs induction =>
      have kept := keeps input List.mem_cons_self state initial
      generalize taken : machine state input = result at kept
      cases kept with
      | refused good =>
          rw [answers_refused taken, after_refused taken]
          simpa using good
      | answered good inv =>
          rw [answers_answered taken, after_answered taken]
          obtain ⟨rest, final⟩ := induction
            (fun later member =>
              keeps later (List.mem_cons_of_mem _ member)) inv
          exact ⟨List.forall_mem_cons.mpr ⟨good, rest⟩, final⟩

/-- Two results with the same answer and related states, or the same error. -/
inductive Agree (Related : Left → Right → Prop) :
    Except Error (Output × Left) → Except Error (Output × Right) →
      Prop where
  | refused (error : Error) : Agree Related (.error error) (.error error)
  | answered
      {left : Left} {right : Right} (output : Output)
      (related : Related left right) :
      Agree Related (.ok (output, left)) (.ok (output, right))

/-- What is known of the right state holds beside the relation. -/
theorem Agree.and
    {Related : Left → Right → Prop} {Known : Right → Prop}
    {left : Except Error (Output × Left)}
    {right : Except Error (Output × Right)}
    (agree : Agree Related left right)
    (known : ∀ output next, right = .ok (output, next) → Known next) :
    Agree (fun left right => Related left right ∧ Known right) left
      right := by
  cases agree with
  | refused error => exact .refused error
  | answered output related =>
      exact .answered output ⟨related, known _ _ rfl⟩

/-- Machines that simulate each other step by step answer alike. -/
theorem answers_eq
    {leftMachine : Machine Left Input Output Error}
    {rightMachine : Machine Right Input Output Error}
    (Related : List Input → Left → Right → Prop)
    (simulates :
      ∀ input inputs left right, Related (input :: inputs) left right →
        Agree (Related inputs) (leftMachine left input)
          (rightMachine right input))
    {inputs : List Input} {left : Left} {right : Right}
    (related : Related inputs left right) :
    answers leftMachine left inputs = answers rightMachine right inputs := by
  induction inputs generalizing left right with
  | nil => rfl
  | cons input inputs induction =>
      have agree := simulates input inputs left right related
      generalize leftResult : leftMachine left input = leftTaken at agree
      generalize rightResult : rightMachine right input = rightTaken
        at agree
      cases agree with
      | refused error =>
          rw [answers_refused leftResult, answers_refused rightResult]
      | answered output next =>
          rw [answers_answered leftResult, answers_answered rightResult,
            induction next]

end NetworkingLab.Foundation.Machines
