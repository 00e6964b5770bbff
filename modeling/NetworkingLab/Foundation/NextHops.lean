import Mathlib.Algebra.Order.Monoid.Defs
import Mathlib.Data.Finset.Card
import NetworkingLab.Foundation.ShortestPaths

/-!
# Following next hops

Every node knows, for one destination, a first hop of a cheapest walk, and
nobody knows more.  When every price is positive, the walks that are left get
cheaper at every hop, so whoever follows the hops arrives, meets no node twice
and has paid the least price (`Guided.follow_least`).

Here prices form an ordered monoid in which sums can be cancelled.
-/

namespace NetworkingLab.Foundation.NextHops

open NetworkingLab.Foundation.ShortestPaths

variable {Node Cost : Type*}

/-- Follow the hops to `dst`; `ttl` is taken down at each, and not to 0. -/
def follow [DecidableEq Node] (next : Node → Option Node) (dst : Node) :
    Nat → Node → Option (List Node)
  | 0, node => if node = dst then some [node] else none
  | ttl + 1, node =>
      if node = dst then
        some [node]
      else
        match next node with
        | none => none
        | some hop =>
            if ttl = 0 then
              none
            else
              (follow next dst ttl hop).map (node :: ·)

theorem follow_dst [DecidableEq Node]
    (next : Node → Option Node) (dst : Node) (ttl : Nat) :
    follow next dst ttl dst = some [dst] := by
  cases ttl with
  | zero => exact if_pos rfl
  | succ ttl => exact if_pos rfl

theorem follow_hop [DecidableEq Node]
    {next : Node → Option Node} {dst node hop : Node} {ttl : Nat}
    (away : node ≠ dst) (found : next node = some hop) (enough : ttl ≠ 0) :
    follow next dst (ttl + 1) node =
      (follow next dst ttl hop).map (node :: ·) := by
  rw [follow, if_neg away, found]
  exact if_neg enough

section Prices

variable [AddCommMonoid Cost]

/-- What the edges along a list of nodes cost together. -/
def pathCost (price : Node → Node → Cost) : List Node → Cost
  | u :: v :: rest => price u v + pathCost price (v :: rest)
  | _ => 0

variable {price : Node → Node → Cost}

/-- An edge in front of a walk. -/
theorem walk_cons
    {hop next dst : Node} {cost : Cost}
    (walk : Walk price hop next dst cost) (source : Node) :
    Walk price source hop dst (price source hop + cost) := by
  induction walk with
  | edge => exact (Walk.edge hop).onward next
  | onward walk last induction =>
      rw [← add_assoc]
      exact induction.onward last

/-- A walk is its first edge or goes on behind it. -/
theorem walk_uncons
    {source hop dst : Node} {cost : Cost}
    (walk : Walk price source hop dst cost) :
    hop = dst ∧ cost = price source hop ∨
      ∃ next rest, Walk price hop next dst rest ∧
        cost = price source hop + rest := by
  induction walk with
  | edge => exact Or.inl ⟨rfl, rfl⟩
  | onward walk last induction =>
      right
      rcases induction with ⟨rfl, rfl⟩ | ⟨next, rest, behind, rfl⟩
      · exact ⟨last, _, .edge last, rfl⟩
      · exact ⟨next, _, behind.onward last, add_assoc _ _ _⟩

variable [LinearOrder Cost]

/-- A cheapest walk and its first hop. -/
structure Least (price : Node → Node → Cost) (source dst hop : Node)
    (cost : Cost) : Prop where
  walk : Walk price source hop dst cost
  least : ∀ hop' cost', Walk price source hop' dst cost' → cost ≤ cost'

/-- Wherever there is a walk below the limit, the hop is that of a cheapest. -/
def Guided (price : Node → Node → Cost) (limit : Cost) (dst : Node)
    (next : Node → Option Node) : Prop :=
  ∀ node, node ≠ dst → ∀ h c, Walk price node h dst c → c < limit →
    ∃ hop cost, next node = some hop ∧ Least price node dst hop cost

variable {limit : Cost} {dst : Node} {next : Node → Option Node}

open Classical in
/-- The nodes that are nearer to the destination than `cost`. -/
noncomputable def nearer (price : Node → Node → Cost) (dst : Node)
    (nodes : Finset Node) (cost : Cost) : Finset Node :=
  nodes.filter fun w =>
    w = dst ∨ ∃ hop rest, Walk price w hop dst rest ∧ rest < cost

theorem mem_nearer {nodes : Finset Node} {cost : Cost} {w : Node} :
    w ∈ nearer price dst nodes cost ↔
      w ∈ nodes ∧
        (w = dst ∨
          ∃ hop rest, Walk price w hop dst rest ∧ rest < cost) := by
  classical exact Finset.mem_filter

theorem Least.notMem_nearer
    {nodes : Finset Node} {source hop : Node} {cost : Cost}
    (least : Least price source dst hop cost) (away : source ≠ dst) :
    source ∉ nearer price dst nodes cost := by
  intro member
  rcases (mem_nearer.mp member).2 with same | ⟨_, _, walk, shorter⟩
  · exact away same
  · exact absurd (least.least _ _ walk) (not_le.mpr shorter)

theorem nearer_mono
    {nodes : Finset Node} {cost cost' : Cost} (less : cost ≤ cost') :
    nearer price dst nodes cost ⊆ nearer price dst nodes cost' := by
  intro w member
  rw [mem_nearer] at member ⊢
  refine ⟨member.1, member.2.imp_right ?_⟩
  rintro ⟨hop, rest, walk, shorter⟩
  exact ⟨hop, rest, walk, shorter.trans_le less⟩

variable [IsOrderedCancelAddMonoid Cost]

theorem costLaws : CostLaws Cost where
  mono less c := by
    gcongr
  le_right _ _ nonneg := le_add_of_nonneg_right nonneg
  le_left nonneg _ := le_add_of_nonneg_left nonneg

theorem walk_pos
    (positive : ∀ u v, 0 < price u v) {source hop dst : Node} {cost : Cost}
    (walk : Walk price source hop dst cost) : 0 < cost := by
  cases walk with
  | edge => exact positive source hop
  | onward walk last =>
      exact add_pos_of_nonneg_of_pos
        (walk.nonneg costLaws fun u v => (positive u v).le) (positive _ _)

/-- A walk below the limit starts with an edge below it. -/
theorem first_edge
    (positive : ∀ u v, 0 < price u v) {source hop : Node} {cost : Cost}
    (walk : Walk price source hop dst cost) (cheap : cost < limit) :
    price source hop < limit := by
  rcases walk_uncons walk with ⟨_, sum⟩ | ⟨_, rest, behind, sum⟩
  · rwa [← sum]
  · refine lt_of_le_of_lt ?_ cheap
    rw [sum]
    exact le_add_of_nonneg_right (walk_pos positive behind).le

/-- A walk below the limit ends with an edge below it. -/
theorem last_edge
    (positive : ∀ u v, 0 < price u v) {source hop : Node} {cost : Cost}
    (walk : Walk price source hop dst cost) (cheap : cost < limit) :
    ∃ node, price node dst < limit := by
  cases walk with
  | edge => exact ⟨source, cheap⟩
  | @onward node cost' walk last =>
      have edge : price node dst ≤ cost' + price node dst :=
        le_add_of_nonneg_left (walk_pos positive walk).le
      exact ⟨node, edge.trans_lt cheap⟩

/-- Behind the first hop of a cheapest walk a cheapest walk is left. -/
theorem Least.next_hop
    (positive : ∀ u v, 0 < price u v)
    (guided : Guided price limit dst next)
    {source hop : Node} {cost : Cost}
    (least : Least price source dst hop cost) (cheap : cost < limit)
    (onward : hop ≠ dst) :
    ∃ hop' rest, next hop = some hop' ∧ Least price hop dst hop' rest ∧
      cost = price source hop + rest ∧ rest < cost := by
  rcases walk_uncons least.walk with ⟨same, _⟩ | ⟨_, rest, behind, sum⟩
  · exact absurd same onward
  · have shorter : rest < cost := by
      rw [sum]
      exact lt_add_of_pos_left rest (positive source hop)
    rcases guided hop onward _ rest behind (shorter.trans cheap) with
      ⟨hop', cost', found, nearest⟩
    have lower := nearest.least _ _ behind
    have upper := least.least _ _ (walk_cons nearest.walk source)
    rw [sum] at upper
    have same : cost' = rest :=
      le_antisymm lower (le_of_add_le_add_left upper)
    subst same
    exact ⟨hop', cost', found, nearest, sum, shorter⟩

/-- A cheapest walk that goes to the destination at once is an edge. -/
theorem Least.edge
    (positive : ∀ u v, 0 < price u v)
    {source : Node} {cost : Cost}
    (least : Least price source dst dst cost) :
    cost = price source dst := by
  rcases walk_uncons least.walk with ⟨_, sum⟩ | ⟨_, rest, behind, sum⟩
  · exact sum
  · have upper := least.least _ _ (.edge dst)
    rw [sum] at upper
    have longer := lt_add_of_pos_right (price source dst)
      (walk_pos positive behind)
    exact absurd upper (not_le.mpr longer)

variable [DecidableEq Node]

/-- The induction is on the number of nodes that are nearer. -/
theorem Least.follow
    (positive : ∀ u v, 0 < price u v)
    (guided : Guided price limit dst next)
    {nodes : Finset Node} (dstIn : dst ∈ nodes)
    (closed : ∀ u v, price u v < limit → v ∈ nodes)
    {source hop : Node} {cost : Cost}
    (least : Least price source dst hop cost) (cheap : cost < limit)
    (away : source ≠ dst) (found : next source = some hop) {ttl : Nat}
    (enough : (nearer price dst nodes cost).card < ttl) :
    ∃ path,
      NextHops.follow next dst ttl source = some (source :: path) ∧
      (source :: path).getLast? = some dst ∧ path.Nodup ∧
      pathCost price (source :: path) = cost ∧
      ∀ node ∈ path, node ∈ nearer price dst nodes cost := by
  induction ttl generalizing source hop cost with
  | zero => exact absurd enough (Nat.not_lt_zero _)
  | succ ttl induction =>
      have last : dst ∈ nearer price dst nodes cost :=
        mem_nearer.mpr ⟨dstIn, Or.inl rfl⟩
      have present := Finset.card_pos.mpr ⟨dst, last⟩
      rw [follow_hop away found (by omega)]
      by_cases onward : hop = dst
      · subst onward
        refine ⟨[hop], ?_, rfl, List.nodup_singleton hop, ?_, ?_⟩
        · rw [follow_dst]
          rfl
        · simp [pathCost, least.edge positive]
        · simpa using last
      · rcases least.next_hop positive guided cheap onward with
          ⟨hop', rest, found', least', sum, shorter⟩
        have here : hop ∈ nearer price dst nodes cost :=
          mem_nearer.mpr ⟨closed _ _ (first_edge positive least.walk cheap),
            Or.inr ⟨hop', rest, least'.walk, shorter⟩⟩
        have fewer : (nearer price dst nodes rest).card <
            (nearer price dst nodes cost).card := by
          apply Finset.card_lt_card
          refine ⟨nearer_mono shorter.le, ?_⟩
          intro back
          exact least'.notMem_nearer onward (back here)
        obtain ⟨path, followed, arrives, nodup, total, behind⟩ :=
          induction least' (shorter.trans cheap) onward found' (by omega)
        refine ⟨hop :: path, ?_, arrives, ?_, ?_, ?_⟩
        · rw [followed]
          rfl
        · refine List.nodup_cons.mpr ⟨?_, nodup⟩
          intro again
          exact least'.notMem_nearer onward (behind hop again)
        · rw [pathCost, total, sum]
        · intro node member
          rcases List.mem_cons.mp member with rfl | later
          · exact here
          · exact nearer_mono shorter.le (behind node later)

/--
With room for all nodes in the hop limit, whoever follows the hops arrives
along a path that meets no node twice and costs as little as any walk.
-/
theorem Guided.follow_least
    (positive : ∀ u v, 0 < price u v)
    (guided : Guided price limit dst next)
    {nodes : Finset Node} (closed : ∀ u v, price u v < limit → v ∈ nodes)
    {source h : Node} {c : Cost} (walk : Walk price source h dst c)
    (cheap : c < limit) (sourceIn : source ∈ nodes) (away : source ≠ dst)
    {ttl : Nat} (enough : nodes.card ≤ ttl) :
    ∃ path,
      NextHops.follow next dst ttl source = some (source :: path) ∧
      (source :: path).getLast? = some dst ∧ (source :: path).Nodup ∧
      pathCost price (source :: path) ≤ c ∧
      ∀ h' c', Walk price source h' dst c' →
        pathCost price (source :: path) ≤ c' := by
  rcases guided source away h c walk cheap with ⟨hop, cost, found, least⟩
  have within : cost < limit := (least.least h c walk).trans_lt cheap
  rcases last_edge positive walk cheap with ⟨node, linked⟩
  have dstIn := closed node dst linked
  have fewer : (nearer price dst nodes cost).card < nodes.card := by
    apply Finset.card_lt_card
    refine ⟨fun w member => (mem_nearer.mp member).1, ?_⟩
    intro all
    exact least.notMem_nearer away (all sourceIn)
  rcases least.follow positive guided dstIn closed within away found
      (fewer.trans_le enough) with
    ⟨path, followed, arrives, nodup, total, behind⟩
  refine ⟨path, followed, arrives, ?_, ?_, ?_⟩
  · refine List.nodup_cons.mpr ⟨?_, nodup⟩
    intro again
    exact least.notMem_nearer away (behind source again)
  · rw [total]
    exact least.least h c walk
  · rw [total]
    exact least.least

end Prices

end NetworkingLab.Foundation.NextHops
