import NetworkingLab.Proxy.Forwarding

/-!
# The addresses of a host

The proxy connects to the addresses of a host in turn and leaves the loop when
`connect` has returned more than 0.  But `connect` returns 0 or -1, so all
addresses are tried, and the last one decides.

`falls_back_iff` says for which addresses this is the same as to stop at the
first one that can be reached.
-/

namespace NetworkingLab.Proxy

open NetworkingLab.Foundation.CString

/-- An address with what `socket` and `connect` return for it. -/
structure Attempt where
  address : InAddr
  cfd : Int
  cres : Int
  result : cres = 0 ∨ cres = -1

/-- The loop over the addresses, with its passes in order. -/
def tryAddresses : List Attempt → List Attempt
  | [] => []
  | attempt :: later =>
      if 0 < attempt.cres then
        [attempt]
      else
        attempt :: tryAddresses later

/-- What the proxy does behind the loop. -/
inductive Decision where
  | hostDown
  | proceed (cfd : Int)
  deriving DecidableEq

/--
The test `cres < 0` behind the loop.  `cfd` and `cres` are those of the last
pass; without a pass they have no value.
-/
def decideHost (attempts : List Attempt) : Option Decision :=
  (tryAddresses attempts).getLast?.map fun last =>
    if last.cres < 0 then .hostDown else .proceed last.cfd

/--
The host is down if all addresses refuse; else the proxy goes on with the first
one that does not, and tries no other behind it.
-/
structure FallsBack (attempts : List Attempt) : Prop where
  hostDown : decideHost attempts = some .hostDown ↔
    ∀ attempt ∈ attempts, attempt.cres = -1
  first : decideHost attempts ≠ some .hostDown →
    ∃ front reached back,
      attempts = front ++ reached :: back ∧
        (∀ attempt ∈ front, attempt.cres = -1) ∧ reached.cres = 0 ∧
        decideHost attempts = some (.proceed reached.cfd) ∧
        tryAddresses attempts = front ++ [reached]

/-! ## The loop -/

theorem Attempt.not_pos (attempt : Attempt) : ¬ 0 < attempt.cres := by
  rcases attempt.result with success | failure
  · rw [success]
    decide
  · rw [failure]
    decide

/-- No address ends the loop. -/
theorem tryAddresses_eq (attempts : List Attempt) :
    tryAddresses attempts = attempts := by
  induction attempts with
  | nil => rfl
  | cons attempt later induction =>
      rw [tryAddresses, if_neg attempt.not_pos, induction]

/-- The last address decides. -/
theorem decideHost_append (front : List Attempt) (last : Attempt) :
    decideHost (front ++ [last]) =
      some (if last.cres < 0 then .hostDown else .proceed last.cfd) := by
  rw [decideHost, tryAddresses_eq, List.getLast?_append]
  rfl

/-- The loop of a round is this one. -/
theorem connectLoop_eq
    {attempts : List Attempt} {connect : InAddr → Int}
    (returned : ∀ attempt ∈ attempts,
      connect attempt.address = attempt.cres) :
    connectLoop connect (attempts.map Attempt.address) =
      (tryAddresses attempts).map
        fun attempt => (attempt.address, attempt.cres) := by
  induction attempts with
  | nil => rfl
  | cons attempt later induction =>
      have here := returned attempt List.mem_cons_self
      have rest := induction fun other member =>
        returned other (List.mem_cons_of_mem _ member)
      rw [List.map_cons, connectLoop, tryAddresses, here, rest,
        if_neg attempt.not_pos, if_neg attempt.not_pos]
      rfl

/-! ## Hosts whose last address is the first that answers -/

/--
The proxy falls back as it should if and only if no address in front of the last
one can be reached.
-/
theorem falls_back_iff
    (attempts : List Attempt) (nonempty : attempts ≠ []) :
    FallsBack attempts ↔
      ∀ attempt ∈ attempts.dropLast, attempt.cres = -1 := by
  obtain ⟨front, last, rfl⟩ :=
    List.eq_nil_or_concat' attempts |>.resolve_left nonempty
  have decided := decideHost_append front last
  rw [List.dropLast_concat]
  rcases last.result with reached | refused
  · have up : decideHost (front ++ [last]) = some (.proceed last.cfd) := by
      rw [decided, reached]
      rfl
    constructor
    · intro falls
      have other : decideHost (front ++ [last]) ≠ some .hostDown := by
        rw [up]
        intro same
        cases same
      rcases falls.first other with ⟨early, _, _, _, down, _, _, all⟩
      rw [tryAddresses_eq] at all
      rw [(List.append_inj' all rfl).1]
      exact down
    · intro down
      constructor
      · rw [up]
        constructor
        · intro same
          cases same
        · intro all
          have absurdly := all last (by simp)
          rw [reached] at absurdly
          cases absurdly
      · intro _
        exact ⟨front, last, [], rfl, down, reached, up,
          tryAddresses_eq _⟩
  · have down : decideHost (front ++ [last]) = some .hostDown := by
      rw [decided, refused]
      rfl
    constructor
    · intro falls attempt member
      exact falls.hostDown.mp down attempt (List.mem_append_left _ member)
    · intro early
      constructor
      · constructor
        · intro _ attempt member
          rcases List.mem_append.mp member with before | here
          · exact early attempt before
          · rw [List.mem_singleton.mp here]
            exact refused
        · intro _
          exact down
      · intro other
        exact absurd down other

/-- An address that refuses, and one that answers. -/
def refusing : Attempt :=
  ⟨1, 4, -1, Or.inr rfl⟩

def answering : Attempt :=
  ⟨2, 5, 0, Or.inl rfl⟩

theorem falls_back_last : FallsBack [refusing, answering] := by
  apply (falls_back_iff _ (List.cons_ne_nil _ _)).mpr
  intro attempt member
  rw [List.mem_singleton.mp member]
  rfl

/-- With the addresses the other way round the host is taken to be down. -/
theorem reachable_host_down :
    ¬ ∀ attempts : List Attempt, attempts ≠ [] → FallsBack attempts := by
  intro always
  have falls := always [answering, refusing] (List.cons_ne_nil _ _)
  have refused := falls.hostDown.mp rfl answering List.mem_cons_self
  cases refused

end NetworkingLab.Proxy
