import Mathlib.Order.Lattice
import Mathlib.Tactic.Common

/-!
# Shortest paths by settling nodes

A walk from a source is priced edge by edge, from the left.  Nodes are settled
one after another, always one with the least label, and its edges then lower
the labels of the others.  `Labelled` says what holds in between, `start` and
`settle` are the rules for the two steps, and when every node that is left has
a label at the limit, the labels below it are the least prices
(`Labelled.le_of_walk`).

Only three things are asked of the prices (`CostLaws`).  Addition need not be
associative, so they hold of rounded addition as well.
-/

namespace NetworkingLab.Foundation.ShortestPaths

variable {Node Cost : Type*} [LinearOrder Cost] [Zero Cost] [Add Cost]

/-- Adding a price that is not negative makes nothing cheaper. -/
structure CostLaws (Cost : Type*) [LinearOrder Cost] [Zero Cost]
    [Add Cost] : Prop where
  mono : ∀ {a b : Cost}, a ≤ b → ∀ c, a + c ≤ b + c
  le_right : ∀ (a : Cost) {c : Cost}, 0 ≤ c → a ≤ a + c
  le_left : ∀ {a : Cost}, 0 ≤ a → ∀ c, c ≤ a + c

/-- A walk from `source`: its first node behind it, its last and its price. -/
inductive Walk (price : Node → Node → Cost) (source : Node) :
    Node → Node → Cost → Prop where
  | edge (node : Node) : Walk price source node node (price source node)
  | onward {first node : Node} {cost : Cost}
      (walk : Walk price source first node cost) (next : Node) :
      Walk price source first next (cost + price node next)

theorem Walk.nonneg
    {price : Node → Node → Cost} (laws : CostLaws Cost)
    (positive : ∀ u v, 0 ≤ price u v)
    {source first last : Node} {cost : Cost}
    (walk : Walk price source first last cost) : 0 ≤ cost := by
  induction walk with
  | edge => exact positive source first
  | onward walk next induction =>
      exact induction.trans (laws.le_right _ (positive _ _))

/-- The labels of the nodes while they are settled one after another. -/
structure Labelled (price : Node → Node → Cost) (limit : Cost)
    (Target : Node → Prop) (source : Node) (Settled : Node → Prop)
    (label : Node → Cost) (first : Node → Option Node) : Prop where
  below : ∀ u, Settled u → label u < limit
  ordered : ∀ u w, Settled u → Target w → ¬ Settled w →
    label u ≤ label w
  direct : ∀ w, Target w → label w ≤ price source w
  relaxed : ∀ u w, Settled u → Target w →
    label w ≤ label u + price u w
  reached : ∀ w h, Target w → first w = some h →
    Walk price source h w (label w) ∧ label w < limit
  unreached : ∀ w, Target w → first w = none → label w = limit

namespace Labelled

variable
    {price : Node → Node → Cost} {limit : Cost} {source : Node}
    {Target Settled Settled' : Node → Prop} {label label' : Node → Cost}
    {first first' : Node → Option Node}

omit [Zero Cost] in
/-- Before the first node is settled, every label is that of an edge. -/
theorem start
    (edges : ∀ w, Target w → label w = price source w)
    (reached : ∀ w h, Target w → first w = some h →
      h = w ∧ price source w < limit)
    (unreached : ∀ w, Target w → first w = none →
      price source w = limit) :
    Labelled price limit Target source (fun _ => False) label first where
  below _ settled := settled.elim
  ordered _ _ settled := settled.elim
  direct w target := (edges w target).le
  relaxed _ _ settled := settled.elim
  reached w h target found := by
    obtain ⟨rfl, less⟩ := reached w h target found
    rw [edges h target]
    exact ⟨.edge h, less⟩
  unreached w target absent := by
    rw [edges w target, unreached w target absent]

/-- One node with the least label is settled and its edges are followed. -/
theorem settle
    (laws : CostLaws Cost) (positive : ∀ u v, 0 ≤ price u v)
    (labelled : Labelled price limit Target source Settled label first)
    {o : Node} (target : Target o) (unsettled : ¬ Settled o)
    (less : label o < limit)
    (least : ∀ w, Target w → ¬ Settled w → label o ≤ label w)
    (settles : ∀ u, Settled' u ↔ u = o ∨ Settled u)
    (kept : ∀ u, Settled' u → label' u = label u ∧ first' u = first u)
    (lowered : ∀ w, Target w → ¬ Settled' w →
      label o + price o w < label w ∧ label' w = label o + price o w ∧
          first' w = first o ∨
        label w ≤ label o + price o w ∧ label' w = label w ∧
          first' w = first w) :
    Labelled price limit Target source Settled' label' first' := by
  have same : label' o = label o := (kept o ((settles o).mpr (Or.inl rfl))).1
  -- settling never raises a label, and never lowers one below that of `o`
  have lower : ∀ w, Target w → label' w ≤ label w := by
    intro w targeted
    by_cases settled : Settled' w
    · exact (kept w settled).1.le
    · rcases lowered w targeted settled with ⟨cheaper, new, _⟩ | ⟨_, old, _⟩
      · rw [new]
        exact cheaper.le
      · exact old.le
  have above : ∀ w, Target w → ¬ Settled' w → label o ≤ label' w := by
    intro w targeted settled
    rcases lowered w targeted settled with ⟨_, new, _⟩ | ⟨_, old, _⟩
    · rw [new]
      exact laws.le_right _ (positive o w)
    · rw [old]
      exact least w targeted fun earlier =>
        settled ((settles w).mpr (Or.inr earlier))
  have before : ∀ u, Settled u → label u ≤ label o := fun u settled =>
    labelled.ordered u o settled target unsettled
  refine ⟨?_, ?_, ?_, ?_, ?_, ?_⟩
  · intro u settled
    rw [(kept u settled).1]
    rcases (settles u).mp settled with rfl | earlier
    · exact less
    · exact labelled.below u earlier
  · intro u w settled targeted waiting
    rw [(kept u settled).1]
    rcases (settles u).mp settled with rfl | earlier
    · exact above w targeted waiting
    · exact (before u earlier).trans (above w targeted waiting)
  · intro w targeted
    exact (lower w targeted).trans (labelled.direct w targeted)
  · intro u w settled targeted
    rw [(kept u settled).1]
    rcases (settles u).mp settled with rfl | earlier
    · by_cases done : Settled' w
      · rw [(kept w done).1]
        rcases (settles w).mp done with rfl | former
        · exact laws.le_right _ (positive w w)
        · exact (before w former).trans
            (laws.le_right _ (positive u w))
      · rcases lowered w targeted done with ⟨_, new, _⟩ | ⟨near, old, _⟩
        · exact new.le
        · rw [old]
          exact near
    · exact (lower w targeted).trans (labelled.relaxed u w earlier targeted)
  · intro w h targeted found
    have old : first w = some h → label' w = label w →
        Walk price source h w (label' w) ∧ label' w < limit := by
      intro found same
      rw [same]
      exact labelled.reached w h targeted found
    by_cases done : Settled' w
    · rw [(kept w done).2] at found
      exact old found (kept w done).1
    · rcases lowered w targeted done with
        ⟨cheaper, new, hop⟩ | ⟨_, same, hop⟩
      · rw [hop] at found
        rw [new]
        refine ⟨(labelled.reached o h target found).1.onward w,
          cheaper.trans_le ?_⟩
        cases earlier : first w with
        | none => exact (labelled.unreached w targeted earlier).le
        | some other =>
            exact (labelled.reached w other targeted earlier).2.le
      · rw [hop] at found
        exact old found same
  · intro w targeted absent
    by_cases done : Settled' w
    · rw [(kept w done).2] at absent
      rw [(kept w done).1]
      exact labelled.unreached w targeted absent
    · rcases lowered w targeted done with ⟨_, _, hop⟩ | ⟨_, same, hop⟩
      · rw [hop] at absent
        exact absurd (labelled.unreached o target absent) less.ne
      · rw [hop] at absent
        rw [same]
        exact labelled.unreached w targeted absent

/-- When only labels at the limit are left, the others are least prices. -/
theorem le_of_walk
    (laws : CostLaws Cost) (positive : ∀ u v, 0 ≤ price u v)
    (labelled : Labelled price limit Target source Settled label first)
    (finished : ∀ w, Target w → ¬ Settled w → limit ≤ label w)
    (targets : ∀ u v, price u v < limit → v ≠ source → Target v)
    {h last : Node} {cost : Cost}
    (walk : Walk price source h last cost) (cheap : cost < limit)
    (away : last ≠ source) :
    label last ≤ cost := by
  induction walk with
  | edge => exact labelled.direct h (targets source h cheap away)
  | @onward node cost walk next induction =>
      have priced := walk.nonneg laws positive
      have target := targets node next
        ((laws.le_left priced _).trans_lt cheap) away
      by_cases home : node = source
      · subst home
        exact (labelled.direct next target).trans (laws.le_left priced _)
      · have shorter :=
          (laws.le_right cost (positive node next)).trans_lt cheap
        have near := induction shorter home
        have settled : Settled node := by
          by_contra unsettled
          have inside : Target node := by
            cases walk with
            | edge => exact targets source h shorter home
            | @onward before cost' walk =>
                exact targets before node
                  ((laws.le_left (walk.nonneg laws positive) _).trans_lt
                    shorter) home
          exact absurd (finished node inside unsettled)
            (not_le.mpr (near.trans_lt shorter))
        exact (labelled.relaxed node next settled target).trans
          (laws.mono near _)

end Labelled

end NetworkingLab.Foundation.ShortestPaths
