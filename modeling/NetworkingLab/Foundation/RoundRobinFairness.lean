import NetworkingLab.Foundation.DeficitRoundRobin

/-!
# Fairness of deficit round robin

What a flow has left, less the quantum of a turn that is not over, is its own
(`Account.own`).  For two flows that stay in the ring, what they own and which
of them stands in front of the other make up a balance that nothing but sending
changes (`Visit.balance_eq`).  The balance is bounded (`Sound.balance_lt`,
`Sound.lt_balance`), so no flow gets ahead of another by more.

The bounds are wider by a quantum for a flow that was taken out of the ring
during its turn and has come back (`Stale`).
-/

namespace NetworkingLab.Foundation.DeficitRoundRobin

universe u

variable {Flow Packet : Type u} [DecidableEq Flow]
    {size : Packet → Nat} {quantum bound : Int} {s : Robin Flow Packet}

/-! ## Balance -/

/-- Whether one of two flows stands in front of the other. -/
def precedes (i j : Flow) : List Flow → Bool
  | [] => false
  | f :: rest =>
      if f = i then true else if f = j then false else precedes i j rest

theorem precedes_append
    {i j : Flow} {l : List Flow} (member : i ∈ l ∨ j ∈ l)
    (r : List Flow) : precedes i j (l ++ r) = precedes i j l := by
  induction l with
  | nil => simp at member
  | cons f l induction =>
      simp only [List.cons_append, precedes]
      by_cases first : f = i
      · rw [if_pos first, if_pos first]
      · by_cases second : f = j
        · simp [second]
        · rw [if_neg first, if_neg first, if_neg second, if_neg second]
          apply induction
          simpa [Ne.symm first, Ne.symm second] using member

theorem precedes_erase
    {i j f : Flow} (notFirst : f ≠ i) (notSecond : f ≠ j)
    (l : List Flow) : precedes i j (l.erase f) = precedes i j l := by
  induction l with
  | nil => rfl
  | cons g l induction =>
      by_cases same : g = f
      · subst same
        rw [List.erase_cons_head, precedes, if_neg notFirst,
          if_neg notSecond]
      · rw [List.erase_cons_tail (by simpa using same)]
        simp only [precedes, induction]

theorem precedes_of_notMem
    {i j : Flow} {l : List Flow} (member : i ∈ l) (absent : j ∉ l) :
    precedes i j l = true := by
  induction l with
  | nil => exact absurd member List.not_mem_nil
  | cons f l induction =>
      have different : f ≠ j := fun same => absent (by simp [same])
      rw [precedes]
      by_cases first : f = i
      · rw [if_pos first]
      · rw [if_neg first, if_neg different]
        apply induction
        · simpa [Ne.symm first] using member
        · exact fun later => absent (List.mem_cons_of_mem f later)

theorem not_precedes_of_notMem
    {i j : Flow} {l : List Flow} (absent : i ∉ l) :
    precedes i j l = false := by
  induction l with
  | nil => rfl
  | cons f l induction =>
      have different : f ≠ i := fun same => absent (by simp [same])
      rw [precedes, if_neg different,
        induction fun later => absent (List.mem_cons_of_mem f later)]
      exact ite_self false

/-- What two flows own, and a quantum for standing in front. -/
def balance (quantum : Int) (i j : Flow) (s : Robin Flow Packet) : Int :=
  (s.account i).own quantum - (s.account j).own quantum +
    if precedes i j s.ring then quantum else 0

/-- The bytes of a flow in a list of packets. -/
def bytesOf (size : Packet → Nat) (f : Flow)
    (log : List (Flow × Packet)) : Nat :=
  ((packetsOf f log).map size).sum

/-- Step lemma: a visit changes the balance by what is sent, and only so. -/
theorem Visit.balance_eq
    {sent : Option (Flow × Packet)} {next : Robin Flow Packet}
    (visit : Visit size quantum s sent next)
    (sound : Sound size quantum bound s) {i j : Flow} (different : i ≠ j)
    (first : i ∈ next.ring) (second : j ∈ next.ring) :
    balance quantum i j next + bytesOf size i sent.toList -
        bytesOf size j sent.toList =
      balance quantum i j s := by
  have nodup := sound.nodup
  cases visit with
  | @last f others p ring queue enough =>
      rw [ring] at nodup
      have fresh := (List.nodup_cons.mp nodup).1
      have notFirst : i ≠ f := fun same => fresh (same ▸ first)
      have notSecond : j ≠ f := fun same => fresh (same ▸ second)
      simp [balance, bytesOf, packetsOf, ring, precedes,
        Function.update_of_ne notFirst, Function.update_of_ne notSecond,
        Ne.symm notFirst, Ne.symm notSecond]
  | @more f others p q rest ring queue enough =>
      have own : Account.own quantum
          ⟨q :: rest, (s.account f).granted quantum - size p, true⟩ =
            (s.account f).own quantum - size p := by
        have granted := (s.account f).granted_eq quantum
        change (s.account f).granted quantum - size p - quantum = _
        omega
      by_cases isFirst : i = f
      · subst isFirst
        simp only [balance, bytesOf, packetsOf, Function.update_self,
          Function.update_of_ne (Ne.symm different), own,
          Option.toList_some]
        simp [different]
        omega
      · by_cases isSecond : j = f
        · subst isSecond
          simp only [balance, bytesOf, packetsOf, Function.update_self,
            Function.update_of_ne different, own, Option.toList_some]
          simp [Ne.symm different]
          omega
        · simp [balance, bytesOf, packetsOf,
            Function.update_of_ne isFirst, Function.update_of_ne isSecond,
            Ne.symm isFirst, Ne.symm isSecond]
  | @passed f others p rest ring queue short =>
      rw [ring] at nodup
      have fresh := (List.nodup_cons.mp nodup).1
      have own : Account.own quantum
          ⟨p :: rest, (s.account f).granted quantum, false⟩ =
            (s.account f).own quantum + quantum :=
        (s.account f).granted_eq quantum
      simp only [Option.toList_none, bytesOf, packetsOf_nil, List.map_nil,
        List.sum_nil, balance, ring, precedes]
      by_cases isFirst : i = f
      · subst isFirst
        have behind : j ∈ others := by
          simpa [Ne.symm different] using second
        have order : precedes i j (others ++ [i]) = false := by
          rw [precedes_append (Or.inr behind), not_precedes_of_notMem fresh]
        simp only [Function.update_self,
          Function.update_of_ne (Ne.symm different), own, order, if_true,
          Bool.false_eq_true, if_false]
        omega
      · by_cases isSecond : j = f
        · subst isSecond
          have behind : i ∈ others := by
            simpa [different] using first
          have order : precedes i j (others ++ [j]) = true := by
            rw [precedes_append (Or.inl behind),
              precedes_of_notMem behind fresh]
          simp only [Function.update_self,
            Function.update_of_ne different, own, order, if_true,
            if_neg (Ne.symm different), Bool.false_eq_true, if_false]
          omega
        · have behind : i ∈ others := by
            simpa [isFirst] using first
          rw [precedes_append (Or.inl behind),
            Function.update_of_ne isFirst, Function.update_of_ne isSecond,
            if_neg (Ne.symm isFirst), if_neg (Ne.symm isSecond)]
          omega

theorem arrive_balance
    (sound : Sound size quantum bound s) (f : Flow) (p : Packet)
    {i j : Flow} (first : i ∈ s.ring) (second : j ∈ s.ring) :
    balance quantum i j (arrive f p s) = balance quantum i j s := by
  have kept : ∀ g ∈ s.ring, ((arrive f p s).account g).own quantum =
      (s.account g).own quantum := by
    intro g member
    rw [arrive]
    by_cases same : g = f
    · subst same
      rw [if_neg (sound.mem_iff.mp member)]
      simp only [Function.update_self, Account.own]
    · split <;> simp only [Function.update_of_ne same]
  rw [balance, balance, kept i first, kept j second, arrive]
  split
  · rw [precedes_append (Or.inl first)]
  · rfl

theorem Discard.balance_eq
    {f : Flow} {p : Packet} {next : Robin Flow Packet}
    (discard : Discard s f p next) (sound : Sound size quantum bound s)
    {i j : Flow} (first : i ∈ next.ring) (second : j ∈ next.ring) :
    balance quantum i j next = balance quantum i j s := by
  cases discard with
  | last queue =>
      have notFirst := (sound.nodup.mem_erase_iff.mp first).1
      have notSecond := (sound.nodup.mem_erase_iff.mp second).1
      simp only [balance, Function.update_of_ne notFirst,
        Function.update_of_ne notSecond,
        precedes_erase (Ne.symm notFirst) (Ne.symm notSecond)]
  | @more q rest queue =>
      have kept : ∀ g, (Function.update s.account f
          ⟨q :: rest, (s.account f).deficit, (s.account f).turn⟩ g).own
            quantum = (s.account g).own quantum := by
        intro g
        by_cases same : g = f
        · subst same
          simp only [Function.update_self, Account.own]
        · rw [Function.update_of_ne same]
      simp only [balance, kept]

/-! ## Bounds of the balance -/

/-- A flow that has lost its place in front before its turn was over. -/
def Stale (s : Robin Flow Packet) (f : Flow) : Prop :=
  s.ring.head? ≠ some f ∧ (s.account f).turn = true

instance (s : Robin Flow Packet) (f : Flow) : Decidable (Stale s f) :=
  inferInstanceAs (Decidable (_ ∧ _))

/-- The quantum that a flow is behind when its turn was cut off. -/
def lost (quantum : Int) (s : Robin Flow Packet) (f : Flow) : Int :=
  if Stale s f then quantum else 0

/-- What a flow in the ring owns. -/
theorem Sound.own_bounds
    (sound : Sound size quantum bound s) (positive : 0 ≤ quantum)
    {f : Flow} (member : f ∈ s.ring) :
    (s.account f).own quantum < bound ∧
      -quantum ≤ (s.account f).own quantum ∧
      (s.ring.head? ≠ some f →
        -lost quantum s f ≤ (s.account f).own quantum) := by
  have good := sound.good f member
  have low := good.low
  cases turn : (s.account f).turn with
  | false =>
      have own : (s.account f).own quantum = (s.account f).deficit := by
        rw [Account.own, turn]
        rfl
      have high : (s.account f).deficit < bound := by
        rcases good.high with high | ⟨_, turned, _⟩
        · exact high
        · rw [turn] at turned
          cases turned
      have lostNothing : lost quantum s f = 0 := if_neg fun stale => by
        rw [stale.2] at turn
        cases turn
      omega
  | true =>
      have own : (s.account f).own quantum =
          (s.account f).deficit - quantum := by
        rw [Account.own, turn]
        rfl
      refine ⟨?_, by omega, fun behind => ?_⟩
      · rcases good.high with high | ⟨_, _, high⟩ <;> omega
      · have all : lost quantum s f = quantum := if_pos ⟨behind, turn⟩
        omega

omit [DecidableEq Flow] in
theorem lost_nonneg [DecidableEq Flow]
    (positive : 0 ≤ quantum) (f : Flow) : 0 ≤ lost quantum s f := by
  rw [lost]
  split
  · exact positive
  · exact le_refl 0

theorem Sound.balance_lt
    (sound : Sound size quantum bound s) (positive : 0 ≤ quantum)
    {i j : Flow} (different : i ≠ j) (first : i ∈ s.ring)
    (second : j ∈ s.ring) :
    balance quantum i j s < bound + quantum + lost quantum s j := by
  rcases sound.own_bounds positive first with ⟨high, _, _⟩
  rcases sound.own_bounds positive second with ⟨_, low, behind⟩
  have more := @lost_nonneg _ _ quantum s _ positive j
  rw [balance]
  split
  · next order =>
      have notFront : s.ring.head? ≠ some j := by
        intro front
        rcases List.head?_eq_some_iff.mp front with ⟨rest, ring⟩
        rw [ring, precedes, if_neg (Ne.symm different), if_pos rfl] at order
        cases order
      have near := behind notFront
      omega
  · omega

theorem Sound.lt_balance
    (sound : Sound size quantum bound s) (positive : 0 ≤ quantum)
    {i j : Flow} (first : i ∈ s.ring) (second : j ∈ s.ring) :
    -bound - lost quantum s i < balance quantum i j s := by
  rcases sound.own_bounds positive first with ⟨_, low, behind⟩
  rcases sound.own_bounds positive second with ⟨high, _, _⟩
  have more := @lost_nonneg _ _ quantum s _ positive i
  rw [balance]
  split
  · omega
  · next order =>
      have notFront : s.ring.head? ≠ some i := by
        intro front
        rcases List.head?_eq_some_iff.mp front with ⟨rest, ring⟩
        rw [ring, precedes, if_pos rfl] at order
        exact order rfl
      have near := behind notFront
      omega

/-! ## What is lost is lost before -/

theorem Visit.stale
    {sent : Option (Flow × Packet)} {next : Robin Flow Packet}
    (visit : Visit size quantum s sent next) {k : Flow}
    (stale : Stale next k) : Stale s k := by
  rcases stale with ⟨behind, turn⟩
  cases visit with
  | @last f others p ring queue enough =>
      have different : k ≠ f := by
        rintro rfl
        simp at turn
      refine ⟨?_, by simpa only [Function.update_of_ne different] using turn⟩
      rw [ring]
      exact fun front => different (Option.some.inj front).symm
  | @more f others p q rest ring queue enough =>
      have different : k ≠ f := by
        rintro rfl
        exact behind (by rw [ring]; rfl)
      exact ⟨behind, by
        simpa only [Function.update_of_ne different] using turn⟩
  | @passed f others p rest ring queue short =>
      have different : k ≠ f := by
        rintro rfl
        simp at turn
      refine ⟨?_, by simpa only [Function.update_of_ne different] using turn⟩
      rw [ring]
      exact fun front => different (Option.some.inj front).symm

theorem Discard.stale
    {f : Flow} {p : Packet} {next : Robin Flow Packet}
    (discard : Discard s f p next) (sound : Sound size quantum bound s)
    {k : Flow} (member : k ∈ next.ring) (stale : Stale next k) :
    Stale s k := by
  rcases stale with ⟨behind, turn⟩
  cases discard with
  | last queue =>
      have different := (sound.nodup.mem_erase_iff.mp member).1
      simp only [Function.update_of_ne different] at turn
      refine ⟨fun front => behind ?_, turn⟩
      rcases List.head?_eq_some_iff.mp front with ⟨rest, ring⟩
      rw [ring, List.erase_cons_tail (by simpa using different)]
      rfl
  | more queue =>
      refine ⟨behind, ?_⟩
      by_cases same : k = f
      · subst same
        simpa only [Function.update_self] using turn
      · simpa only [Function.update_of_ne same] using turn

theorem arrive_stale
    (sound : Sound size quantum bound s) (f : Flow) (p : Packet)
    {k : Flow} (member : k ∈ s.ring) (stale : Stale (arrive f p s) k) :
    Stale s k := by
  rcases stale with ⟨behind, turn⟩
  rw [arrive] at behind turn
  split at turn
  · next empty =>
      have different : k ≠ f := by
        rintro rfl
        exact (sound.good k member).packets empty
      rw [if_pos empty] at behind
      simp only [Function.update_of_ne different] at turn
      refine ⟨fun front => behind ?_, turn⟩
      rw [List.head?_append, front]
      rfl
  · next packets =>
      rw [if_neg packets] at behind
      refine ⟨behind, ?_⟩
      by_cases same : k = f
      · subst same
        simpa only [Function.update_self] using turn
      · simpa only [Function.update_of_ne same] using turn

/-- A flow loses no more by steps that make no flow stale. -/
theorem lost_le
    {next : Robin Flow Packet} (positive : 0 ≤ quantum) {k : Flow}
    (stale : Stale next k → Stale s k) :
    lost quantum next k ≤ lost quantum s k := by
  rw [lost, lost]
  split
  · next after => rw [if_pos (stale after)]
  · split
    · exact positive
    · exact le_refl 0

/-! ## Runs -/

/--
Packets leave from the front of their flows, and no flow comes in.  Those in
`sent` are paid for, and the balance of the flows that stay changes by them.
-/
structure Leaves (size : Packet → Nat) (quantum bound : Int)
    (s : Robin Flow Packet) (log sent : List (Flow × Packet))
    (next : Robin Flow Packet) : Prop where
  sound : Sound size quantum bound next
  mem : ∀ g ∈ next.ring, g ∈ s.ring
  queue : ∀ g, (s.account g).queue =
    packetsOf g log ++ (next.account g).queue
  tally : ∀ weight : Packet → Nat,
    tally (Account.weigh weight) s =
      (log.map fun entry => weight entry.2).sum +
        tally (Account.weigh weight) next
  balance : ∀ i j, i ≠ j → i ∈ next.ring → j ∈ next.ring →
    balance quantum i j next + bytesOf size i sent - bytesOf size j sent =
      balance quantum i j s
  stale : ∀ k ∈ next.ring, Stale next k → Stale s k

theorem bytesOf_append
    (f : Flow) (log log' : List (Flow × Packet)) :
    bytesOf size f (log ++ log') = bytesOf size f log + bytesOf size f log' := by
  simp [bytesOf, packetsOf_append]

theorem Leaves.refl (sound : Sound size quantum bound s) :
    Leaves size quantum bound s [] [] s where
  sound := sound
  mem _ member := member
  queue _ := rfl
  tally _ := by simp
  balance _ _ _ _ _ := by simp [bytesOf]
  stale _ _ stale := stale

theorem Leaves.trans
    {middle next : Robin Flow Packet}
    {log sent log' sent' : List (Flow × Packet)}
    (first : Leaves size quantum bound s log sent middle)
    (second : Leaves size quantum bound middle log' sent' next) :
    Leaves size quantum bound s (log ++ log') (sent ++ sent') next where
  sound := second.sound
  mem g member := first.mem g (second.mem g member)
  queue g := by
    rw [first.queue, second.queue, packetsOf_append, List.append_assoc]
  tally weight := by
    rw [first.tally, second.tally, List.map_append, List.sum_append,
      Nat.add_assoc]
  balance i j different inFirst inSecond := by
    have here := first.balance i j different (second.mem i inFirst)
      (second.mem j inSecond)
    have there := second.balance i j different inFirst inSecond
    rw [bytesOf_append, bytesOf_append]
    omega
  stale k member after :=
    first.stale k (second.mem k member) (second.stale k member after)

theorem Visit.leaves
    {sent : Option (Flow × Packet)} {next : Robin Flow Packet}
    (visit : Visit size quantum s sent next) (positive : 0 ≤ quantum)
    (sound : Sound size quantum bound s) :
    Leaves size quantum bound s sent.toList sent.toList next where
  sound := visit.sound positive sound
  mem _ member := visit.mem member
  queue := visit.queue
  tally weight := visit.tally_eq weight sound
  balance _ _ different first second :=
    visit.balance_eq sound different first second
  stale _ _ after := visit.stale after

theorem Discard.leaves
    {f : Flow} {p : Packet} {next : Robin Flow Packet}
    (discard : Discard s f p next) (sound : Sound size quantum bound s)
    (member : f ∈ s.ring) :
    Leaves size quantum bound s [(f, p)] [] next where
  sound := discard.sound sound
  mem _ inside := discard.sublist.subset inside
  queue := discard.queue
  tally weight := by
    rw [discard.tally_eq weight sound member]
    simp
  balance i j _ first second := by
    rw [discard.balance_eq sound first second]
    simp [bytesOf]
  stale _ inside after := discard.stale sound inside after

/-- Run lemma: only the packet that is served is paid for. -/
theorem Serves.leaves
    {sent : Flow × Packet} {next : Robin Flow Packet}
    (serves : Serves size quantum s sent next) (positive : 0 ≤ quantum)
    (sound : Sound size quantum bound s) :
    Leaves size quantum bound s [sent] [sent] next := by
  induction serves with
  | now visit => exact visit.leaves positive sound
  | later visit serves induction =>
      have first := visit.leaves positive sound
      exact first.trans (induction first.sound)

/-- Run lemma: nothing that is thrown away is paid for. -/
theorem Sheds.leaves
    {limit : Int} {log : List (Flow × Packet)} {next : Robin Flow Packet}
    (sheds : Sheds size limit s log next)
    (sound : Sound size quantum bound s) :
    Leaves size quantum bound s log [] next := by
  induction sheds with
  | done within => exact .refl sound
  | drop above member longest discard sheds induction =>
      have first := discard.leaves sound member
      exact first.trans (induction first.sound)

theorem Sheds.within
    {limit : Int} {log : List (Flow × Packet)} {next : Robin Flow Packet}
    (sheds : Sheds size limit s log next) :
    tally (Account.weigh size) next ≤ limit := by
  induction sheds with
  | done within => exact within
  | drop above member longest discard sheds induction => exact induction

/-- A flow whose packet is thrown away had more than its share of the limit. -/
theorem Sheds.above_share
    {limit : Int} {log : List (Flow × Packet)} {next : Robin Flow Packet}
    (sheds : Sheds size limit s log next)
    (sound : Sound size quantum bound s) :
    ∀ entry ∈ log,
      limit < s.ring.length * (s.account entry.1).weigh size := by
  induction sheds with
  | done within => simp
  | @drop s middle next f p log above member longest discard sheds
      induction =>
      have first := discard.leaves sound member
      intro entry inside
      rcases List.mem_cons.mp inside with rfl | later
      · have most : tally (Account.weigh size) s ≤
            s.ring.length * (s.account f).weigh size := by
          have each := List.sum_le_card_nsmul
            (s.ring.map fun g => (s.account g).weigh size)
            ((s.account f).weigh size) (by simpa using longest)
          simpa [tally] using each
        have cast : (tally (Account.weigh size) s : Int) ≤
            s.ring.length * (s.account f).weigh size := by
          exact_mod_cast most
        exact above.trans_le cast
      · have fewer : middle.ring.length ≤ s.ring.length :=
          discard.sublist.length_le
        have less : (middle.account entry.1).weigh size ≤
            (s.account entry.1).weigh size := by
          simp only [Account.weigh, first.queue entry.1, List.map_append,
            List.sum_append]
          omega
        have product := Nat.mul_le_mul fewer less
        have cast : (middle.ring.length * (middle.account entry.1).weigh
            size : Int) ≤ s.ring.length * (s.account entry.1).weigh size := by
          exact_mod_cast product
        exact (induction first.sound entry later).trans_le cast

end NetworkingLab.Foundation.DeficitRoundRobin
