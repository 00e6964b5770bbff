import Mathlib.Algebra.BigOperators.Group.List.Basic
import Mathlib.Algebra.Order.BigOperators.Group.List
import Mathlib.Algebra.Order.Ring.Nat
import Mathlib.Data.List.Basic
import Mathlib.Logic.Function.Basic
import Mathlib.Tactic.Common

/-!
# Deficit round robin

Flows with packets stand in a ring.  The flow in front is given a quantum when
its turn begins, sends packets as long as its deficit lasts, and then goes to
the end.  When too many bytes have come in, the longest flows lose packets.

The ring holds exactly the flows with packets (`Sound`), packets leave from the
front of their flows (`Visit.queue`, `Discard.queue`), and when the quantum is
positive the visits come to a packet that is sent (`Sound.serves`): a turn
without a packet brings its flow nearer to one (`Visit.need_lt`).
-/

namespace NetworkingLab.Foundation.DeficitRoundRobin

universe u

/-- What is known of a flow. -/
structure Account (Packet : Type u) where
  queue : List Packet
  deficit : Int
  turn : Bool

/-- The flows with packets, and the accounts of all. -/
structure Robin (Flow Packet : Type u) where
  ring : List Flow
  account : Flow → Account Packet

variable {Flow Packet : Type u} [DecidableEq Flow]

/-- A packet comes in at the end of its flow. -/
def arrive (f : Flow) (p : Packet) (s : Robin Flow Packet) :
    Robin Flow Packet :=
  let a := s.account f
  if a.queue = [] then
    ⟨s.ring ++ [f], Function.update s.account f ⟨[p], 0, a.turn⟩⟩
  else
    ⟨s.ring,
      Function.update s.account f ⟨a.queue ++ [p], a.deficit, a.turn⟩⟩

/-- The deficit of a flow when its turn has begun. -/
def Account.granted (quantum : Int) (a : Account Packet) : Int :=
  if a.turn then a.deficit else a.deficit + quantum

/-- The flow in front sends a packet, or its turn is over. -/
inductive Visit (size : Packet → Nat) (quantum : Int)
    (s : Robin Flow Packet) :
    Option (Flow × Packet) → Robin Flow Packet → Prop where
  | last {f : Flow} {others : List Flow} {p : Packet}
      (ring : s.ring = f :: others) (queue : (s.account f).queue = [p])
      (enough : size p ≤ (s.account f).granted quantum) :
      Visit size quantum s (some (f, p))
        ⟨others, Function.update s.account f ⟨[], 0, false⟩⟩
  | more {f : Flow} {others : List Flow} {p q : Packet}
      {rest : List Packet} (ring : s.ring = f :: others)
      (queue : (s.account f).queue = p :: q :: rest)
      (enough : size p ≤ (s.account f).granted quantum) :
      Visit size quantum s (some (f, p))
        ⟨s.ring, Function.update s.account f
          ⟨q :: rest, (s.account f).granted quantum - size p, true⟩⟩
  | passed {f : Flow} {others : List Flow} {p : Packet}
      {rest : List Packet} (ring : s.ring = f :: others)
      (queue : (s.account f).queue = p :: rest)
      (short : (s.account f).granted quantum < size p) :
      Visit size quantum s none
        ⟨others ++ [f], Function.update s.account f
          ⟨p :: rest, (s.account f).granted quantum, false⟩⟩

/-- Flows are visited until one sends a packet. -/
inductive Serves (size : Packet → Nat) (quantum : Int) :
    Robin Flow Packet → Flow × Packet → Robin Flow Packet → Prop where
  | now {s next : Robin Flow Packet} {sent : Flow × Packet}
      (visit : Visit size quantum s (some sent) next) :
      Serves size quantum s sent next
  | later {s middle next : Robin Flow Packet} {sent : Flow × Packet}
      (visit : Visit size quantum s none middle)
      (serves : Serves size quantum middle sent next) :
      Serves size quantum s sent next

/-- The first packet of a flow is thrown away. -/
inductive Discard (s : Robin Flow Packet) (f : Flow) :
    Packet → Robin Flow Packet → Prop where
  | last {p : Packet} (queue : (s.account f).queue = [p]) :
      Discard s f p
        ⟨s.ring.erase f, Function.update s.account f
          ⟨[], (s.account f).deficit, (s.account f).turn⟩⟩
  | more {p q : Packet} {rest : List Packet}
      (queue : (s.account f).queue = p :: q :: rest) :
      Discard s f p
        ⟨s.ring, Function.update s.account f
          ⟨q :: rest, (s.account f).deficit, (s.account f).turn⟩⟩

/-- What something about the flows in the ring comes to together. -/
def tally (h : Account Packet → Nat) (s : Robin Flow Packet) : Nat :=
  (s.ring.map fun f => h (s.account f)).sum

/-- What the packets of a flow weigh together. -/
def Account.weigh (weight : Packet → Nat) (a : Account Packet) : Nat :=
  (a.queue.map weight).sum

/-- Longest flows lose packets until no more than `limit` bytes are left. -/
inductive Sheds (size : Packet → Nat) (limit : Int) :
    Robin Flow Packet → List (Flow × Packet) → Robin Flow Packet →
      Prop where
  | done {s : Robin Flow Packet}
      (within : tally (Account.weigh size) s ≤ limit) :
      Sheds size limit s [] s
  | drop {s middle next : Robin Flow Packet} {f : Flow} {p : Packet}
      {log : List (Flow × Packet)}
      (above : limit < tally (Account.weigh size) s) (member : f ∈ s.ring)
      (longest : ∀ g ∈ s.ring,
        (s.account g).weigh size ≤ (s.account f).weigh size)
      (discard : Discard s f p middle)
      (sheds : Sheds size limit middle log next) :
      Sheds size limit s ((f, p) :: log) next

/-- The packets of one flow in a list. -/
def packetsOf (f : Flow) (log : List (Flow × Packet)) : List Packet :=
  (log.filter fun entry => entry.1 = f).map Prod.snd

/-! ## The ring -/

/-- A flow with packets; only in front the deficit has a quantum more. -/
structure Account.Good (size : Packet → Nat) (quantum bound : Int)
    (front : Prop) (a : Account Packet) : Prop where
  packets : a.queue ≠ []
  small : ∀ p ∈ a.queue, size p ≤ bound
  low : 0 ≤ a.deficit
  high : a.deficit < bound ∨
    front ∧ a.turn = true ∧ a.deficit < bound + quantum

/-- The ring holds the flows with packets, and no others. -/
structure Sound (size : Packet → Nat) (quantum bound : Int)
    (s : Robin Flow Packet) : Prop where
  nodup : s.ring.Nodup
  good : ∀ f ∈ s.ring,
    (s.account f).Good size quantum bound (s.ring.head? = some f)
  idle : ∀ f, f ∉ s.ring → (s.account f).queue = []

/-- Nothing has arrived yet. -/
def start : Robin Flow Packet :=
  ⟨[], fun _ => ⟨[], 0, false⟩⟩

variable {size : Packet → Nat} {quantum bound : Int}

omit [DecidableEq Flow] in
theorem Sound.start :
    Sound size quantum bound (start : Robin Flow Packet) where
  nodup := List.nodup_nil
  good _ member := nomatch member
  idle _ _ := rfl

omit [DecidableEq Flow] in
theorem Account.Good.mono
    {front front' : Prop} {a : Account Packet}
    (good : a.Good size quantum bound front) (more : front → front') :
    a.Good size quantum bound front' :=
  ⟨good.packets, good.small, good.low,
    good.high.imp_right fun both => ⟨more both.1, both.2⟩⟩

variable {s : Robin Flow Packet}

omit [DecidableEq Flow] in
theorem Sound.mem_iff
    (sound : Sound size quantum bound s) {f : Flow} :
    f ∈ s.ring ↔ (s.account f).queue ≠ [] :=
  ⟨fun member => (sound.good f member).packets, fun packets => by
    by_contra absent
    exact packets (sound.idle f absent)⟩

/-- A flow is written anew and stays where it is. -/
theorem Sound.write
    (sound : Sound size quantum bound s) {f : Flow} {a : Account Packet}
    (good : a.Good size quantum bound (s.ring.head? = some f))
    (member : f ∈ s.ring) :
    Sound size quantum bound
      ⟨s.ring, Function.update s.account f a⟩ where
  nodup := sound.nodup
  good g inside := by
    by_cases same : g = f
    · subst same
      simpa only [Function.update_self] using good
    · simpa only [Function.update_of_ne same] using sound.good g inside
  idle g absent := by
    have different : g ≠ f := fun same => absent (same ▸ member)
    simpa only [Function.update_of_ne different] using sound.idle g absent

/-- A flow leaves the ring. -/
theorem Sound.leave
    (sound : Sound size quantum bound s) {f : Flow} {a : Account Packet}
    (empty : a.queue = []) :
    Sound size quantum bound
      ⟨s.ring.erase f, Function.update s.account f a⟩ where
  nodup := sound.nodup.erase f
  good g inside := by
    rcases sound.nodup.mem_erase_iff.mp inside with ⟨different, before⟩
    simp only [Function.update_of_ne different]
    refine (sound.good g before).mono fun front => ?_
    rcases List.head?_eq_some_iff.mp front with ⟨rest, ring⟩
    rw [ring, List.erase_cons_tail (by simpa using different)]
    rfl
  idle g absent := by
    by_cases same : g = f
    · subst same
      simpa only [Function.update_self] using empty
    · simp only [Function.update_of_ne same]
      exact sound.idle g fun before =>
        absent (sound.nodup.mem_erase_iff.mpr ⟨same, before⟩)

theorem Sound.arrive
    (sound : Sound size quantum bound s) (positive : 0 < bound)
    (f : Flow) {p : Packet} (fits : size p ≤ bound) :
    Sound size quantum bound (arrive f p s) := by
  rw [DeficitRoundRobin.arrive]
  split
  · next empty =>
      have fresh : f ∉ s.ring := fun member =>
        (sound.good f member).packets empty
      refine ⟨?_, ?_, ?_⟩
      · rw [List.nodup_append]
        refine ⟨sound.nodup, by simp, ?_⟩
        intro g inside g' new same
        exact fresh (List.mem_singleton.mp new ▸ same ▸ inside)
      · intro g inside
        by_cases same : g = f
        · subst same
          simp only [Function.update_self]
          exact ⟨by simp, by simpa using fits, le_refl _, Or.inl positive⟩
        · have before : g ∈ s.ring := by simpa [same] using inside
          simp only [Function.update_of_ne same]
          refine (sound.good g before).mono fun front => ?_
          rw [List.head?_append, front]
          rfl
      · intro g absent
        have different : g ≠ f := fun same => absent (by simp [same])
        simp only [Function.update_of_ne different]
        exact sound.idle g fun before => absent (by simp [before])
  · next packets =>
      have member := sound.mem_iff.mpr packets
      have good := sound.good f member
      refine sound.write ⟨by simp, ?_, good.low, good.high⟩ member
      intro q inside
      rcases List.mem_append.mp inside with before | new
      · exact good.small q before
      · exact List.mem_singleton.mp new ▸ fits

/-- Where there is a packet, one can be thrown away. -/
theorem Sound.discard
    (sound : Sound size quantum bound s) {f : Flow} (member : f ∈ s.ring) :
    ∃ p next, Discard s f p next := by
  rcases List.exists_cons_of_ne_nil (sound.good f member).packets with
    ⟨p, rest, queue⟩
  cases rest with
  | nil => exact ⟨p, _, .last queue⟩
  | cons q rest => exact ⟨p, _, .more queue⟩

/-- Where there is a packet, a visit is possible. -/
theorem Sound.visit
    (sound : Sound size quantum bound s) (packets : s.ring ≠ []) :
    ∃ sent next, Visit size quantum s sent next := by
  rcases List.exists_cons_of_ne_nil packets with ⟨f, others, ring⟩
  have good := sound.good f (ring ▸ List.mem_cons_self)
  rcases List.exists_cons_of_ne_nil good.packets with ⟨p, rest, queue⟩
  by_cases enough : size p ≤ (s.account f).granted quantum
  · cases rest with
    | nil => exact ⟨_, _, .last ring queue enough⟩
    | cons q rest => exact ⟨_, _, .more ring queue enough⟩
  · exact ⟨_, _, .passed ring queue (not_le.mp enough)⟩

omit [DecidableEq Flow] in
theorem Account.Good.granted
    {front : Prop} {a : Account Packet} (positive : 0 ≤ quantum)
    (good : a.Good size quantum bound front) :
    0 ≤ a.granted quantum ∧ a.granted quantum < bound + quantum := by
  have low := good.low
  rw [Account.granted]
  rcases good.high with high | ⟨_, turn, high⟩
  · split <;> omega
  · rw [if_pos turn]
    exact ⟨low, high⟩

/-- Step lemma: a visit keeps the ring as it should be. -/
theorem Visit.sound
    {sent : Option (Flow × Packet)} {next : Robin Flow Packet}
    (visit : Visit size quantum s sent next) (positive : 0 ≤ quantum)
    (sound : Sound size quantum bound s) :
    Sound size quantum bound next := by
  cases visit with
  | @last f others p ring queue enough =>
      have erased : others = s.ring.erase f := by
        rw [ring, List.erase_cons_head]
      rw [erased]
      exact sound.leave rfl
  | @more f others p q rest ring queue enough =>
      have member : f ∈ s.ring := ring ▸ List.mem_cons_self
      have good := sound.good f member
      rcases good.granted positive with ⟨_, high⟩
      have small := good.small
      rw [queue] at small
      refine sound.write ⟨by simp, fun r inside =>
        small r (List.mem_cons_of_mem p inside), ?_, ?_⟩ member
      · exact sub_nonneg.mpr enough
      · refine Or.inr ⟨by rw [ring]; rfl, rfl, ?_⟩
        change (s.account f).granted quantum - size p < bound + quantum
        omega
  | @passed f others p rest ring queue short =>
      have member : f ∈ s.ring := ring ▸ List.mem_cons_self
      have good := sound.good f member
      rcases good.granted positive with ⟨low, _⟩
      have fits := good.small p (queue ▸ List.mem_cons_self)
      have nodup := sound.nodup
      rw [ring] at nodup
      have moved : (others ++ [f]).Perm s.ring := by
        rw [ring]
        exact List.perm_append_singleton f others
      refine ⟨moved.nodup_iff.mpr sound.nodup, ?_, ?_⟩
      · intro g inside
        by_cases same : g = f
        · subst same
          simp only [Function.update_self]
          refine ⟨by simp, ?_, low, Or.inl (short.trans_le fits)⟩
          rw [← queue]
          exact good.small
        · simp only [Function.update_of_ne same]
          refine (sound.good g (moved.mem_iff.mp inside)).mono ?_
          intro front
          rw [ring] at front
          exact absurd (Option.some.inj front).symm same
      · intro g absent
        have outside : g ∉ s.ring := fun before =>
          absent (moved.mem_iff.mpr before)
        have different : g ≠ f := fun same => outside (same ▸ member)
        simp only [Function.update_of_ne different]
        exact sound.idle g outside

theorem Discard.sound
    {f : Flow} {p : Packet} {next : Robin Flow Packet}
    (discard : Discard s f p next) (sound : Sound size quantum bound s) :
    Sound size quantum bound next := by
  have member : f ∈ s.ring := sound.mem_iff.mpr (by
    cases discard with
    | last queue => simp [queue]
    | more queue => simp [queue])
  have good := sound.good f member
  cases discard with
  | last queue => exact sound.leave rfl
  | @more q rest queue =>
      have small := good.small
      rw [queue] at small
      exact sound.write ⟨by simp, fun r inside =>
        small r (List.mem_cons_of_mem p inside), good.low, good.high⟩ member

/-! ## Sums over the ring -/

/-- Flows that are not written count as before. -/
theorem map_update
    (h : Account Packet → Nat) (account : Flow → Account Packet)
    {f : Flow} {flows : List Flow} (fresh : f ∉ flows)
    (a : Account Packet) :
    (flows.map fun g => h (Function.update account f a g)) =
      flows.map fun g => h (account g) := by
  apply List.map_congr_left
  intro g inside
  have different : g ≠ f := fun same => fresh (same ▸ inside)
  rw [Function.update_of_ne different]

theorem tally_leave
    (h : Account Packet → Nat) (nodup : s.ring.Nodup)
    {f : Flow} (member : f ∈ s.ring) (a : Account Packet) :
    h (s.account f) +
        tally h ⟨s.ring.erase f, Function.update s.account f a⟩ =
      tally h s := by
  have gone : f ∉ s.ring.erase f := fun inside =>
    (nodup.mem_erase_iff.mp inside).1 rfl
  simp only [tally, map_update h s.account gone]
  exact List.sum_map_erase (fun g => h (s.account g)) member

theorem tally_write
    (h : Account Packet → Nat) (nodup : s.ring.Nodup)
    {f : Flow} (member : f ∈ s.ring) (a : Account Packet) :
    tally h ⟨s.ring, Function.update s.account f a⟩ + h (s.account f) =
      tally h s + h a := by
  have before := tally_leave h nodup member a
  have after := List.sum_map_erase
    (fun g => h (Function.update s.account f a g)) member
  simp only [Function.update_self] at after
  simp only [tally] at before ⊢
  omega

theorem tally_join
    (h : Account Packet → Nat) {f : Flow} (fresh : f ∉ s.ring)
    (a : Account Packet) :
    tally h ⟨s.ring ++ [f], Function.update s.account f a⟩ =
      tally h s + h a := by
  simp [tally, map_update h s.account fresh]

omit [DecidableEq Flow] in
theorem tally_perm
    (h : Account Packet → Nat) {ring : List Flow} (perm : ring.Perm s.ring) :
    tally h ⟨ring, s.account⟩ = tally h s :=
  (perm.map fun f => h (s.account f)).sum_eq

omit [DecidableEq Flow] in
theorem tally_mono
    {h h' : Account Packet → Nat}
    (less : ∀ f ∈ s.ring, h (s.account f) ≤ h' (s.account f)) :
    tally h s ≤ tally h' s :=
  List.sum_le_sum less

theorem le_tally
    (h : Account Packet → Nat) {f : Flow} (member : f ∈ s.ring) :
    h (s.account f) ≤ tally h s := by
  rw [tally, ← List.sum_map_erase (fun g => h (s.account g)) member]
  exact Nat.le_add_right _ _

omit [DecidableEq Flow] in
theorem Account.weigh_mono
    {weight weight' : Packet → Nat} {a : Account Packet}
    (less : ∀ p ∈ a.queue, weight p ≤ weight' p) :
    a.weigh weight ≤ a.weigh weight' :=
  List.sum_le_sum less

/-! ## What happens to the packets -/

@[simp]
theorem packetsOf_nil (g : Flow) :
    packetsOf g ([] : List (Flow × Packet)) = [] :=
  rfl

theorem packetsOf_cons
    (g f : Flow) (p : Packet) (log : List (Flow × Packet)) :
    packetsOf g ((f, p) :: log) =
      if f = g then p :: packetsOf g log else packetsOf g log := by
  by_cases same : f = g <;> simp [packetsOf, same]

theorem packetsOf_append
    (g : Flow) (log log' : List (Flow × Packet)) :
    packetsOf g (log ++ log') = packetsOf g log ++ packetsOf g log' := by
  simp [packetsOf]

theorem arrive_queue (f g : Flow) (p : Packet) (s : Robin Flow Packet) :
    ((arrive f p s).account g).queue =
      (s.account g).queue ++ packetsOf g [(f, p)] := by
  rw [arrive, packetsOf_cons, packetsOf_nil]
  by_cases same : g = f
  · subst same
    rw [if_pos rfl]
    split
    · next empty => simp [empty]
    · simp
  · rw [if_neg (Ne.symm same), List.append_nil]
    split <;> simp [Function.update_of_ne same]

theorem tally_arrive
    (weight : Packet → Nat) (sound : Sound size quantum bound s)
    (f : Flow) (p : Packet) :
    tally (Account.weigh weight) (arrive f p s) =
      tally (Account.weigh weight) s + weight p := by
  rw [arrive]
  split
  · next empty =>
      have fresh : f ∉ s.ring := fun member =>
        (sound.good f member).packets empty
      rw [tally_join _ fresh]
      simp [Account.weigh]
  · next packets =>
      have written := tally_write (Account.weigh weight) sound.nodup
        (sound.mem_iff.mpr packets)
        ⟨(s.account f).queue ++ [p], (s.account f).deficit,
          (s.account f).turn⟩
      simp only [Account.weigh, List.map_append, List.sum_append,
        List.map_cons, List.map_nil, List.sum_singleton] at written ⊢
      omega

/-- Packets leave from the front of their flows. -/
theorem Visit.queue
    {sent : Option (Flow × Packet)} {next : Robin Flow Packet}
    (visit : Visit size quantum s sent next) (g : Flow) :
    (s.account g).queue =
      packetsOf g sent.toList ++ (next.account g).queue := by
  cases visit with
  | @last f others p ring queue enough =>
      by_cases same : g = f
      · subst same
        simp [packetsOf, queue]
      · simp [packetsOf, Function.update_of_ne same, Ne.symm same]
  | @more f others p q rest ring queue enough =>
      by_cases same : g = f
      · subst same
        simp [packetsOf, queue]
      · simp [packetsOf, Function.update_of_ne same, Ne.symm same]
  | @passed f others p rest ring queue short =>
      by_cases same : g = f
      · subst same
        simp [queue]
      · simp [Function.update_of_ne same]

theorem Discard.queue
    {f : Flow} {p : Packet} {next : Robin Flow Packet}
    (discard : Discard s f p next) (g : Flow) :
    (s.account g).queue =
      packetsOf g [(f, p)] ++ (next.account g).queue := by
  by_cases same : g = f
  · subst same
    cases discard with
    | last queue => simp [packetsOf, queue]
    | more queue => simp [packetsOf, queue]
  · cases discard with
    | last queue =>
        simp [packetsOf, Function.update_of_ne same, Ne.symm same]
    | more queue =>
        simp [packetsOf, Function.update_of_ne same, Ne.symm same]

/-- The ring after a visit is a part of the ring before, in any order. -/
theorem Visit.mem
    {sent : Option (Flow × Packet)} {next : Robin Flow Packet}
    (visit : Visit size quantum s sent next) {g : Flow}
    (member : g ∈ next.ring) : g ∈ s.ring := by
  cases visit with
  | last ring queue enough =>
      rw [ring]
      exact List.mem_cons_of_mem _ member
  | more ring queue enough => exact member
  | @passed f others p rest ring queue short =>
      rw [ring]
      exact (List.perm_append_singleton f others).mem_iff.mp member

theorem Discard.sublist
    {f : Flow} {p : Packet} {next : Robin Flow Packet}
    (discard : Discard s f p next) : next.ring.Sublist s.ring := by
  cases discard with
  | last queue => exact List.erase_sublist
  | more queue => exact List.Sublist.refl _

theorem Visit.tally_eq
    {sent : Option (Flow × Packet)} {next : Robin Flow Packet}
    (visit : Visit size quantum s sent next) (weight : Packet → Nat)
    (sound : Sound size quantum bound s) :
    tally (Account.weigh weight) s =
      (sent.toList.map fun entry => weight entry.2).sum +
        tally (Account.weigh weight) next := by
  cases visit with
  | @last f others p ring queue enough =>
      have member : f ∈ s.ring := ring ▸ List.mem_cons_self
      have left := tally_leave (Account.weigh weight) sound.nodup member
        ⟨[], 0, false⟩
      simp only [ring, List.erase_cons_head] at left
      rw [← left]
      simp [Account.weigh, queue]
  | @more f others p q rest ring queue enough =>
      have member : f ∈ s.ring := ring ▸ List.mem_cons_self
      have written := tally_write (Account.weigh weight) sound.nodup member
        ⟨q :: rest, (s.account f).granted quantum - size p, true⟩
      simp only [Account.weigh, queue, List.map_cons, List.sum_cons]
        at written
      simp only [Option.toList_some, List.map_cons, List.map_nil,
        List.sum_singleton]
      omega
  | @passed f others p rest ring queue short =>
      have member : f ∈ s.ring := ring ▸ List.mem_cons_self
      have written := tally_write (Account.weigh weight) sound.nodup member
        ⟨p :: rest, (s.account f).granted quantum, false⟩
      have moved : (others ++ [f]).Perm s.ring := by
        rw [ring]
        exact List.perm_append_singleton f others
      have turned := @tally_perm _ _
        ⟨s.ring, Function.update s.account f
          ⟨p :: rest, (s.account f).granted quantum, false⟩⟩
        (Account.weigh weight) _ moved
      simp only [Account.weigh, queue] at written
      simp only [Option.toList_none, List.map_nil, List.sum_nil, zero_add]
      rw [turned]
      omega

theorem Discard.tally_eq
    {f : Flow} {p : Packet} {next : Robin Flow Packet}
    (discard : Discard s f p next) (weight : Packet → Nat)
    (sound : Sound size quantum bound s) (member : f ∈ s.ring) :
    tally (Account.weigh weight) s =
      weight p + tally (Account.weigh weight) next := by
  cases discard with
  | last queue =>
      rw [← tally_leave (Account.weigh weight) sound.nodup member
        ⟨[], (s.account f).deficit, (s.account f).turn⟩]
      simp [Account.weigh, queue]
  | @more q rest queue =>
      have written := tally_write (Account.weigh weight) sound.nodup member
        ⟨q :: rest, (s.account f).deficit, (s.account f).turn⟩
      simp only [Account.weigh, queue, List.map_cons, List.sum_cons]
        at written
      omega

/-! ## Progress -/

/-- What a flow owns: its deficit without the quantum of this turn. -/
def Account.own (quantum : Int) (a : Account Packet) : Int :=
  if a.turn then a.deficit - quantum else a.deficit

omit [DecidableEq Flow] in
theorem Account.granted_eq (quantum : Int) (a : Account Packet) :
    a.granted quantum = a.own quantum + quantum := by
  rw [Account.granted, Account.own]
  split <;> omega

/-- How far a flow is from sending its first packet. -/
def Account.need (size : Packet → Nat) (quantum : Int)
    (a : Account Packet) : Nat :=
  match a.queue with
  | [] => 0
  | p :: _ => (size p - a.own quantum).toNat

/-- A turn without a packet brings a flow nearer to its first packet. -/
theorem Visit.need_lt
    {next : Robin Flow Packet} (visit : Visit size quantum s none next)
    (positive : 0 < quantum) (sound : Sound size quantum bound s) :
    tally (Account.need size quantum) next <
      tally (Account.need size quantum) s := by
  cases visit with
  | @passed f others p rest ring queue short =>
      have member : f ∈ s.ring := ring ▸ List.mem_cons_self
      have written := tally_write (Account.need size quantum) sound.nodup
        member ⟨p :: rest, (s.account f).granted quantum, false⟩
      have moved : (others ++ [f]).Perm s.ring := by
        rw [ring]
        exact List.perm_append_singleton f others
      have turned := @tally_perm _ _
        ⟨s.ring, Function.update s.account f
          ⟨p :: rest, (s.account f).granted quantum, false⟩⟩
        (Account.need size quantum) _ moved
      have before : (s.account f).need size quantum =
          (size p - (s.account f).own quantum).toNat := by
        rw [Account.need, queue]
      have after : Account.need size quantum
          ⟨p :: rest, (s.account f).granted quantum, false⟩ =
            (size p - (s.account f).granted quantum).toNat :=
        rfl
      rw [turned]
      rw [before, after] at written
      have granted := (s.account f).granted_eq quantum
      omega

/-- Run lemma: the visits come to a packet. -/
theorem Sound.serves
    (sound : Sound size quantum bound s) (positive : 0 < quantum)
    (packets : s.ring ≠ []) :
    ∃ sent next, Serves size quantum s sent next := by
  generalize fuel : tally (Account.need size quantum) s = need
  induction need using Nat.strongRecOn generalizing s with
  | ind need induction =>
      rcases sound.visit packets with ⟨sent, middle, visit⟩
      cases sent with
      | some sent => exact ⟨sent, middle, .now visit⟩
      | none =>
          have packets' : middle.ring ≠ [] := by
            cases visit with
            | passed ring queue short => simp
          rcases induction _
            (fuel ▸ visit.need_lt positive sound)
            (visit.sound positive.le sound) packets' rfl with
            ⟨sent, next, serves⟩
          exact ⟨sent, next, .later visit serves⟩

end NetworkingLab.Foundation.DeficitRoundRobin
