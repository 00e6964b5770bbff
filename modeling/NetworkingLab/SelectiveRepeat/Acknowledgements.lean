import NetworkingLab.Foundation.Frontier
import NetworkingLab.SelectiveRepeat.Peer

/-!
# Acknowledgements in any order

A call of `ackprocess` marks one slot of `datato` and moves the base to the
first slot that is not acknowledged.  Acknowledgements may come in any order,
and the same one any number of times.

`acks_confluent` shows that this makes no difference: two lists that name the
same slots leave the same block and the same base.  The base is a frontier of
the acknowledged slots, which later calls only move on.
-/

namespace NetworkingLab.SelectiveRepeat

open NetworkingLab.Foundation.Frontier

/-- One call of `ackprocess` for each pack, with the base it stored. -/
def ackprocessAll :
    List Pack → Buffer → Int → Option (Buffer × Int)
  | [], buffer, base => some (buffer, base)
  | packet :: packets, buffer, base =>
      match ackprocess packet buffer base with
      | none => none
      | some (buffer, base) => ackprocessAll packets buffer base

/-- The block in which the slots with these numbers are acknowledged. -/
def acknowledgeAll (buffer : Buffer) (numbers : List Int) : Buffer :=
  fun k =>
    if ((k : Nat) : Int) ∈ numbers then
      { buffer k with ackno := 1 }
    else
      buffer k

/-- Slot `k` is acknowledged. -/
def Acknowledged (buffer : Buffer) (k : Nat) : Prop :=
  ∃ j : Fin 100, (j : Nat) = k ∧ (buffer j).ackno = 1

/-! ## One call -/

/-- A call marks its slot and moves the base to the frontier. -/
theorem ackprocess_frontier
    (buffer : Buffer) (j : Fin 100)
    {packet : Pack} (number : packet.ackno = (j : Nat))
    {base : Nat} (inside : base ≤ 100) :
    ∃ stop : Nat,
      ackprocess packet buffer base =
          some (acknowledge buffer j, (stop : Int)) ∧
        IsFrontier (Acknowledged (acknowledge buffer j)) 100 base
          stop := by
  rcases ackprocess_spec buffer j number inside with
    ⟨stop, call, lower, upper, below, atStop⟩
  refine ⟨stop, call, lower, upper, ?_, ?_⟩
  · intro k behind before
    have slot : k < 100 := by omega
    exact ⟨⟨k, slot⟩, rfl, below ⟨k, slot⟩ behind before⟩
  · rintro slot ⟨k, same, acked⟩
    exact atStop k same acked

/-! ## Blocks with several marks -/

theorem acknowledgeAll_nil (buffer : Buffer) :
    acknowledgeAll buffer [] = buffer := by
  ext1 k
  simp [acknowledgeAll]

theorem acknowledgeAll_cons
    (buffer : Buffer) (j : Fin 100) (numbers : List Int) :
    acknowledgeAll buffer (((j : Nat) : Int) :: numbers) =
      acknowledgeAll (acknowledge buffer j) numbers := by
  ext1 k
  by_cases same : k = j
  · subst same
    simp [acknowledgeAll, acknowledge]
  · have other : ((k : Nat) : Int) ≠ (j : Nat) := by
      intro equal
      exact same (Fin.ext (Int.ofNat.inj equal))
    simp [acknowledgeAll, acknowledge, same, other]

/-- Only the set of the numbers matters. -/
theorem acknowledgeAll_congr
    (buffer : Buffer) {first second : List Int}
    (same : ∀ number, number ∈ first ↔ number ∈ second) :
    acknowledgeAll buffer first = acknowledgeAll buffer second := by
  ext1 k
  simp only [acknowledgeAll, same]

/-- No slot loses its acknowledgement. -/
theorem Acknowledged.acknowledgeAll
    {buffer : Buffer} {k : Nat} (acked : Acknowledged buffer k)
    (numbers : List Int) :
    Acknowledged (acknowledgeAll buffer numbers) k := by
  rcases acked with ⟨j, same, acked⟩
  refine ⟨j, same, ?_⟩
  simp only [SelectiveRepeat.acknowledgeAll]
  split_ifs
  · rfl
  · exact acked

/-! ## Lists of acknowledgements -/

/-- All packs acknowledge slots of the block. -/
def NumbersSlots (packets : List Pack) : Prop :=
  ∀ packet ∈ packets, ∃ j : Fin 100, packet.ackno = (j : Nat)

theorem ackprocessAll_append
    (earlier later : List Pack) (buffer : Buffer) (base : Int) :
    ackprocessAll (earlier ++ later) buffer base =
      (ackprocessAll earlier buffer base).bind fun state =>
        ackprocessAll later state.1 state.2 := by
  induction earlier generalizing buffer base with
  | nil => rfl
  | cons packet earlier induction =>
      rw [List.cons_append, ackprocessAll, ackprocessAll]
      cases ackprocess packet buffer base with
      | none => rfl
      | some state => exact induction state.1 state.2

theorem ackprocessAll_le
    {packets : List Pack} {buffer marked : Buffer} {base stop : Int}
    (run : ackprocessAll packets buffer base = some (marked, stop)) :
    base ≤ stop := by
  induction packets generalizing buffer base with
  | nil =>
      cases run
      exact Int.le_refl _
  | cons packet packets induction =>
      rw [ackprocessAll] at run
      cases call : ackprocess packet buffer base with
      | none => simp [call] at run
      | some state =>
          rw [call] at run
          exact Int.le_trans (ackprocess_le call) (induction run)

/-- What a list of acknowledgements leaves behind. -/
theorem ackprocessAll_spec
    {packets : List Pack} (numbered : NumbersSlots packets)
    (nonempty : packets ≠ []) (buffer : Buffer)
    {base : Nat} (inside : base ≤ 100) :
    ∃ stop : Nat,
      ackprocessAll packets buffer base =
          some (acknowledgeAll buffer (packets.map Pack.ackno),
            (stop : Int)) ∧
        IsFrontier
          (Acknowledged
            (acknowledgeAll buffer (packets.map Pack.ackno)))
          100 base stop := by
  induction packets generalizing buffer base with
  | nil => exact absurd rfl nonempty
  | cons packet packets induction =>
      rcases numbered packet List.mem_cons_self with ⟨j, number⟩
      rcases ackprocess_frontier buffer j number inside with
        ⟨middle, call, frontier⟩
      rw [ackprocessAll, call, List.map_cons, number,
        acknowledgeAll_cons]
      cases packets with
      | nil =>
          rw [List.map_nil, acknowledgeAll_nil]
          exact ⟨middle, rfl, frontier⟩
      | cons next packets =>
          have later : NumbersSlots (next :: packets) :=
            fun other member =>
              numbered other (List.mem_cons_of_mem _ member)
          rcases induction later (List.cons_ne_nil _ _)
              (acknowledge buffer j) frontier.bound with
            ⟨stop, run, moved⟩
          exact ⟨stop, run,
            frontier.restart (fun k acked => acked.acknowledgeAll _)
              moved⟩

/-- No call for a pack of the list finds a larger base than it leaves. -/
def NeverBack (packets : List Pack) (buffer : Buffer) (base : Int) :
    Prop :=
  ∀ earlier later rest, earlier ++ later ++ rest = packets →
    ∀ before after,
      ackprocessAll earlier buffer base = some before →
      ackprocessAll (earlier ++ later) buffer base = some after →
        before.2 ≤ after.2

theorem neverBack
    (packets : List Pack) (buffer : Buffer) (base : Int) :
    NeverBack packets buffer base := by
  rintro earlier later _ _ before after first second
  rw [ackprocessAll_append, first, Option.bind_some] at second
  exact ackprocessAll_le second

/-- The effect of a list of acknowledgements on the block and the base. -/
structure AckEffect
    (packets : List Pack) (buffer : Buffer) (base : Nat)
    (final : Buffer × Int) : Prop where
  marked : ∀ k : Fin 100,
    ((k : Nat) : Int) ∈ packets.map Pack.ackno →
      final.1 k = { buffer k with ackno := 1 }
  kept : ∀ k : Fin 100,
    ((k : Nat) : Int) ∉ packets.map Pack.ackno →
      final.1 k = buffer k
  forward : NeverBack packets buffer base
  frontier : ∃ stop : Nat, final.2 = stop ∧
    IsFrontier (Acknowledged final.1) 100 base stop

/--
Two lists of acknowledgements that name the same slots have the same effect.
-/
theorem acks_confluent
    (buffer : Buffer) (base : Nat) (inside : base ≤ 100)
    (first second : List Pack) (nonempty : first ≠ [])
    (numbered : NumbersSlots first)
    (same : ∀ number, number ∈ first.map Pack.ackno ↔
      number ∈ second.map Pack.ackno) :
    ∃ final,
      ackprocessAll first buffer base = some final ∧
        ackprocessAll second buffer base = some final ∧
        AckEffect first buffer base final ∧
        AckEffect second buffer base final := by
  have other : second ≠ [] := by
    rintro rfl
    rcases List.exists_mem_of_ne_nil first nonempty with
      ⟨packet, member⟩
    have named := (same packet.ackno).mp (List.mem_map_of_mem member)
    cases named
  have numbered' : NumbersSlots second := by
    intro packet member
    have named := (same packet.ackno).mpr (List.mem_map_of_mem member)
    rcases List.mem_map.mp named with ⟨partner, known, number⟩
    rw [← number]
    exact numbered partner known
  rcases ackprocessAll_spec numbered nonempty buffer inside with
    ⟨stop, run, frontier⟩
  rcases ackprocessAll_spec numbered' other buffer inside with
    ⟨stop', run', frontier'⟩
  rw [← acknowledgeAll_congr buffer same] at run' frontier'
  rw [← frontier.unique frontier'] at run'
  have effect : ∀ packets : List Pack,
      (∀ number, number ∈ first.map Pack.ackno ↔
        number ∈ packets.map Pack.ackno) →
      AckEffect packets buffer base
        (acknowledgeAll buffer (first.map Pack.ackno), (stop : Int)) := by
    intro packets names
    refine ⟨?_, ?_, neverBack packets buffer base, stop, rfl, frontier⟩
    · intro k named
      exact if_pos ((names _).mpr named)
    · intro k unnamed
      exact if_neg fun named => unnamed ((names _).mp named)
  exact ⟨_, run, run', effect first fun _ => Iff.rfl, effect second same⟩

/-- Slots 1 and 0 are acknowledged in two orders, one of them twice. -/
theorem acks_confluent_two :
    ∃ final,
      ackprocessAll [⟨-1, 1, zeroPayload⟩, ⟨-1, 0, zeroPayload⟩] zeroed
          (0 : Nat) = some final ∧
        ackprocessAll
            [⟨-1, 0, zeroPayload⟩, ⟨-1, 1, zeroPayload⟩,
              ⟨-1, 0, zeroPayload⟩]
            zeroed (0 : Nat) = some final ∧
        AckEffect [⟨-1, 1, zeroPayload⟩, ⟨-1, 0, zeroPayload⟩] zeroed 0
          final ∧
        AckEffect
          [⟨-1, 0, zeroPayload⟩, ⟨-1, 1, zeroPayload⟩,
            ⟨-1, 0, zeroPayload⟩]
          zeroed 0 final := by
  apply acks_confluent zeroed 0 (by decide) _ _ (by simp)
  · intro packet member
    simp only [List.mem_cons, List.not_mem_nil, or_false] at member
    rcases member with rfl | rfl
    · exact ⟨1, rfl⟩
    · exact ⟨0, rfl⟩
  · intro number
    simp only [List.map_cons, List.map_nil, List.mem_cons,
      List.not_mem_nil, or_false]
    omega

end NetworkingLab.SelectiveRepeat
