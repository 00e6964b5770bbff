import Mathlib.Algebra.Group.Nat.Even
import Mathlib.Algebra.Order.Ring.Nat
import NetworkingLab.Foundation.NextHops
import NetworkingLab.Simulator.Classifier
import NetworkingLab.Simulator.ShortestRoutes

/-!
# Flat routing

When a simulation starts, the next hops are written into the classifiers of the
nodes, and from then on every node sends a packet on with nothing but its own
table.  Which nodes get their routes depends on the loop: behind a missing node
it takes two steps (`populate_routes`).  When no node is missing, a packet
follows a shortest path to its destination and is not dropped on the way as
long as its TTL is not below the number of nodes (`delivered_shortest`).

The head of the link from a node to a neighbour is the number of the neighbour.
-/

namespace NetworkingLab.Simulator

open NetworkingLab.Foundation
open NetworkingLab.Foundation.ShortestPaths

variable {Cost : Type*}

/-! ## The tables of the nodes -/

/-- One round of the inner loop of `populate_flat_classifiers`. -/
def addRoute (logic : RouteLogic Cost) (i : Nat) (table : Classifier Nat)
    (j : Nat) : Option (Classifier Nat) :=
  if i = j then
    some table
  else
    match logic.lookupFlat i j with
    | .ok nh =>
        if 0 ≤ nh then some (table.doInstall j nh.toNat) else some table
    | .error .outsideArray => none
    | .error _ => some table

/-- The routes of one node. -/
def addRoutes (logic : RouteLogic Cost) (nn i : Nat)
    (table : Classifier Nat) : Option (Classifier Nat) :=
  (List.range nn).foldlM (addRoute logic i) (table.setTableSize nn)

/--
`populate_flat_classifiers`, from node `i` on.  The branch for a missing node
increments `i`, and so does the loop.
-/
def populate (logic : RouteLogic Cost) (present : Nat → Bool) (nn i : Nat)
    (tables : Nat → Classifier Nat) : Option (Nat → Classifier Nat) :=
  if i < nn then
    if present i then
      match addRoutes logic nn i (tables i) with
      | none => none
      | some table =>
          populate logic present nn (i + 1)
            (Function.update tables i table)
    else
      populate logic present nn (i + 2) tables
  else
    some tables
  termination_by nn - i

/-- The next hop that a lookup gives. -/
def answered (logic : RouteLogic Cost) (i j : Nat) : Option Nat :=
  match logic.lookupFlat i j with
  | .ok nh => if 0 ≤ nh then some nh.toNat else none
  | .error _ => none

/-- How many nodes are missing directly in front of a node. -/
def gap (present : Nat → Bool) : Nat → Nat
  | 0 => 0
  | i + 1 => if present i then 0 else gap present i + 1

/-- The nodes that the loop gives routes. -/
def Visited (present : Nat → Bool) (i : Nat) : Prop :=
  present i = true ∧ Even (gap present i)

instance (present : Nat → Bool) (i : Nat) :
    Decidable (Visited present i) :=
  inferInstanceAs (Decidable (_ ∧ _))

/-- One missing node hides the node behind it, two hide none. -/
theorem gap_missing
    {present : Nat → Bool} {i : Nat} (missing : ¬ present i = true)
    (even : Even (gap present i)) :
    ¬ Even (gap present (i + 1)) ∧ Even (gap present (i + 2)) := by
  have one : gap present (i + 1) = gap present i + 1 := if_neg missing
  refine ⟨?_, ?_⟩
  · rw [one, Nat.even_add_one]
    exact not_not.mpr even
  · rw [gap]
    split
    · exact Even.zero
    · rw [one, Nat.even_add_one, Nat.even_add_one]
      exact not_not.mpr even

section Populate

variable {logic : RouteLogic Cost}

/-- A lookup between two nodes never leaves the array. -/
def Readable (logic : RouteLogic Cost) : Prop :=
  ∀ i j, logic.lookupFlat i j ≠ .error .outsideArray

theorem addRoute_spec
    (readable : Readable logic) {table : Classifier Nat}
    (wired : table.Wired) (i j : Nat) :
    ∃ next, addRoute logic i table j = some next ∧ next.Wired ∧
      ∀ d, next.find d =
        if d = j ∧ d ≠ i then
          (answered logic i d).or (table.find d)
        else
          table.find d := by
  rw [addRoute]
  by_cases home : i = j
  · subst home
    exact ⟨table, if_pos rfl, wired, fun d => (if_neg (by simp)).symm⟩
  · rw [if_neg home]
    have unchanged : answered logic i j = none → ∀ d, table.find d =
        if d = j ∧ d ≠ i then
          (answered logic i d).or (table.find d)
        else
          table.find d := by
      intro nothing d
      split
      · next here => rw [here.1, nothing, Option.none_or]
      · rfl
    have possible := readable i j
    cases found : logic.lookupFlat i j with
    | error reason =>
        rw [found] at possible
        have nothing : answered logic i j = none := by
          rw [answered, found]
        cases reason with
        | outsideArray => exact absurd rfl possible
        | notComputed => exact ⟨table, rfl, wired, unchanged nothing⟩
        | outOfRange => exact ⟨table, rfl, wired, unchanged nothing⟩
    | ok nh =>
        by_cases hop : 0 ≤ nh
        · rcases Classifier.find_doInstall wired j nh.toNat with ⟨kept, finds⟩
          refine ⟨_, if_pos hop, kept, fun d => ?_⟩
          rw [finds]
          by_cases same : d = j
          · subst same
            rw [if_pos rfl, if_pos ⟨rfl, Ne.symm home⟩, answered, found]
            simp [hop]
          · rw [if_neg same, if_neg fun both => same both.1]
        · have nothing : answered logic i j = none := by
            rw [answered, found]
            exact if_neg hop
          exact ⟨table, if_neg hop, wired, unchanged nothing⟩

/-- The inner loop over any list of destinations. -/
theorem addRoute_all
    (readable : Readable logic) (i : Nat) (js : List Nat)
    {table : Classifier Nat} (wired : table.Wired) :
    ∃ next, js.foldlM (addRoute logic i) table = some next ∧
      next.Wired ∧
      ∀ d, next.find d =
        if d ∈ js ∧ d ≠ i then
          (answered logic i d).or (table.find d)
        else
          table.find d := by
  induction js generalizing table with
  | nil => exact ⟨table, rfl, wired, fun d => (if_neg (by simp)).symm⟩
  | cons j js induction =>
      rcases addRoute_spec readable wired i j with
        ⟨middle, first, wired', finds⟩
      rcases induction wired' with ⟨next, rest, wired'', finds'⟩
      refine ⟨next, ?_, wired'', fun d => ?_⟩
      · rw [List.foldlM_cons, first]
        exact rest
      · rw [finds', finds]
        by_cases home : d = i
        · simp [home]
        · by_cases here : d = j
          · subst here
            simp only [home, ne_eq, not_false_eq_true, and_self, if_true,
              and_true, List.mem_cons, true_or]
            split
            · cases answered logic i d <;> simp
            · rfl
          · simp [home, here]

/-- The node's own routes, behind which its older ones are kept. -/
theorem addRoutes_spec
    (readable : Readable logic) (nn i : Nat) {table : Classifier Nat}
    (wired : table.Wired) :
    ∃ next, addRoutes logic nn i table = some next ∧ next.Wired ∧
      ∀ d, next.find d =
        if d < nn ∧ d ≠ i then
          (answered logic i d).or (table.find d)
        else
          table.find d := by
  have sized : (table.setTableSize nn).Wired := wired
  rcases addRoute_all readable i (List.range nn) sized with
    ⟨next, ran, wired', finds⟩
  simp only [List.mem_range] at finds
  exact ⟨next, ran, wired', finds⟩

/-- Run lemma for the outer loop: it stands behind an even gap. -/
theorem populate_from
    (readable : Readable logic) (present : Nat → Bool) (nn i : Nat)
    (even : Even (gap present i)) {tables : Nat → Classifier Nat}
    (wired : ∀ n, (tables n).Wired) :
    ∃ final, populate logic present nn i tables = some final ∧
      (∀ n, (final n).Wired) ∧
      ∀ n d, (final n).find d =
        if (i ≤ n ∧ n < nn ∧ Visited present n) ∧ d < nn ∧ d ≠ n then
          (answered logic n d).or ((tables n).find d)
        else
          (tables n).find d := by
  fun_induction populate logic present nn i tables with
  | case1 i tables inside here stuck =>
      rcases addRoutes_spec readable nn i (wired i) with ⟨table, ran, _⟩
      rw [stuck] at ran
      cases ran
  | case2 i tables inside here table ran induction =>
      rcases addRoutes_spec readable nn i (wired i) with
        ⟨table', ran', wired', finds⟩
      rw [ran] at ran'
      cases ran'
      have even' : Even (gap present (i + 1)) := by
        rw [gap, if_pos here]
        exact Even.zero
      rcases induction even' (by
        intro n
        rw [Function.update_apply]
        split
        · exact wired'
        · exact wired n) with
        ⟨final, rest, kept, others⟩
      refine ⟨final, rest, kept, fun n d => ?_⟩
      rw [others]
      by_cases same : n = i
      · subst same
        rw [if_neg (by omega), Function.update_self, finds]
        simp [inside, show Visited present n from ⟨here, even⟩]
      · have later : i + 1 ≤ n ↔ i ≤ n := by omega
        simp only [Function.update_of_ne same, later]
  | case3 i tables inside missing induction =>
      rcases gap_missing missing even with ⟨odd, even'⟩
      rcases induction even' wired with ⟨final, rest, kept, others⟩
      refine ⟨final, rest, kept, fun n d => ?_⟩
      have later : (i + 2 ≤ n ∧ n < nn ∧ Visited present n) ↔
          (i ≤ n ∧ n < nn ∧ Visited present n) := by
        refine ⟨fun all => ⟨by omega, all.2⟩, ?_⟩
        rintro ⟨above, within, visited⟩
        refine ⟨?_, within, visited⟩
        have notHere : n ≠ i := fun same => missing (same ▸ visited.1)
        have notNext : n ≠ i + 1 := fun same => odd (same ▸ visited.2)
        omega
      rw [others]
      simp only [later]
  | case4 i tables beyond =>
      refine ⟨tables, rfl, wired, fun n d => (if_neg ?_).symm⟩
      omega

end Populate

/-- After the command `compute` every lookup finds its cell. -/
theorem readable_compute
    [LinearOrder Cost] [Add Cost] (infinity : Cost)
    (left : Nat → Nat → Cost) (logic : RouteLogic Cost) :
    Readable (RouteLogic.compute infinity left logic) := by
  intro i j
  rcases Nat.eq_zero_or_pos logic.adj.side with empty | table
  · -- nothing is computed, and every node is out of range
    rw [RouteLogic.compute, if_pos empty, RouteLogic.lookupFlat]
    cases logic.route <;> simp [empty]
  · rw [RouteLogic.compute_of_pos infinity table]
    by_cases inRange : i + 1 < logic.adj.side ∧ j + 1 < logic.adj.side
    · simp [RouteLogic.lookupFlat_computeRoutes inRange.1 inRange.2]
    · have beyond : logic.adj.side ≤ i + 1 ∨
          logic.adj.side ≤ j + 1 := by
        omega
      simp [RouteLogic.lookupFlat, RouteLogic.computeRoutes, beyond]

/-- A command about nodes below `nn` with a cost that is positive. -/
def LinkCommand.Proper [LinearOrder Cost] [Zero Cost] (infinity : Cost)
    (nn : Nat) : LinkCommand Cost → Prop
  | .insert src dst cost =>
      src < nn ∧ dst < nn ∧ 0 < cost ∧ cost ≤ infinity
  | _ => True

theorem LinkCommand.Proper.small
    [LinearOrder Cost] [Zero Cost] {infinity : Cost} {nn : Nat}
    {command : LinkCommand Cost} (proper : command.Proper infinity nn)
    (few : nn < 2 ^ 15) : command.Small := by
  cases command with
  | insert src dst cost =>
      have srcIn := proper.1
      have dstIn := proper.2.1
      exact ⟨by omega, by omega⟩
  | _ => trivial

/-- Where no node is missing, the loop comes to all. -/
theorem visited_of_complete
    {present : Nat → Bool} {nn : Nat}
    (complete : ∀ node < nn, present node = true) {node : Nat}
    (inside : node < nn) : Visited present node := by
  refine ⟨complete node inside, ?_⟩
  cases node with
  | zero => exact Even.zero
  | succ before =>
      rw [gap, if_pos (complete before (by omega))]
      exact Even.zero

section Packets

variable [AddCommMonoid Cost] [LinearOrder Cost]
    [IsOrderedCancelAddMonoid Cost] {infinity : Cost}

/--
With links of positive cost between nodes below `nn`, none of them missing, a
packet reaches every destination to which there is a path, if its TTL is `nn`
or more: it comes to no node twice, and no path costs less than its own.  The
costs of links are added up without rounding.
-/
theorem delivered_shortest
    (limit : 0 < infinity) (nn : Nat) (few : nn < 2 ^ 15)
    (commands : List (LinkCommand Cost))
    (proper : ∀ command ∈ commands, command.Proper infinity nn)
    (logic : RouteLogic Cost)
    (ran : RouteLogic.script infinity (RouteLogic.start infinity)
      commands = some logic)
    (left : Nat → Nat → Cost) (present : Nat → Bool)
    (complete : ∀ node < nn, present node = true)
    (tables : Nat → Classifier Nat) (wired : ∀ node, (tables node).Wired) :
    let price := linkCost infinity commands fun _ _ => infinity
    logic.InRange ∧
      ∃ final,
        populate (RouteLogic.compute infinity left logic) present nn 0
          tables = some final ∧
        ∀ src dst h c, src ≠ dst → Walk price src h dst c →
          c < infinity → ∀ ttl, nn ≤ ttl →
          ∃ path,
            NextHops.follow (fun node => (final node).find dst) dst ttl
              src = some (src :: path) ∧
            (src :: path).getLast? = some dst ∧ (src :: path).Nodup ∧
            ∀ h' c', Walk price src h' dst c' →
              NextHops.pathCost price (src :: path) ≤ c' := by
  have bounds : ∀ u v,
      let cost := linkCost infinity commands (fun _ _ => infinity) u v
      0 < cost ∧ cost ≤ infinity ∧ (cost < infinity → u < nn ∧ v < nn) := by
    have absent : ∀ u v : Nat, 0 < infinity ∧ infinity ≤ infinity ∧
        (infinity < infinity → u < nn ∧ v < nn) := fun u v =>
      ⟨limit, le_refl _, fun less => absurd less (lt_irrefl _)⟩
    refine @linkCost_induct _ infinity
      (fun u v cost => 0 < cost ∧ cost ≤ infinity ∧
        (cost < infinity → u < nn ∧ v < nn)) absent commands ?_ _ absent
    intro s d cost member
    rcases proper (.insert s d cost) member with ⟨sIn, dIn, positive, capped⟩
    exact ⟨positive, capped, fun _ => ⟨sIn, dIn⟩⟩
  have tabulates := Tabulates.start.script ran
  intro price
  change ∀ u v, 0 < price u v ∧ price u v ≤ infinity ∧
    (price u v < infinity → u < nn ∧ v < nn) at bounds
  change Tabulates infinity logic price at tabulates
  have positive : ∀ u v, 0 < price u v := fun u v => (bounds u v).1
  rcases populate_from (readable_compute infinity left logic) present nn 0
      Even.zero wired with
    ⟨final, populated, _, finds⟩
  refine ⟨RouteLogic.inRange_of_script
    (fun command member => (proper command member).small few) ran,
    final, populated, ?_⟩
  intro src dst h c away walk cheap ttl enough
  have inside : ∀ u v, price u v < infinity →
      u + 1 < logic.adj.side ∧ v + 1 < logic.adj.side := by
    intro u v linked
    by_contra beyond
    exact absurd (tabulates.outside u v beyond) linked.ne
  have guided : NextHops.Guided price infinity dst
      fun node => (final node).find dst := by
    intro node away h c walk cheap
    have linked := NextHops.first_edge positive walk cheap
    rcases NextHops.last_edge positive walk cheap with ⟨node', linked'⟩
    have nodeIn := ((bounds node h).2.2 linked).1
    have dstIn := ((bounds node' dst).2.2 linked').2
    rcases tabulates.lookup NextHops.costLaws
        (fun u v => ⟨(positive u v).le, (bounds u v).2.1⟩) left
        (inside node h linked).1 (inside node' dst linked').2
        (Ne.symm away) with
      ⟨_, far⟩ | ⟨hop, cost, answer, path, _, least⟩
    · exact absurd (far h c walk) (not_le.mpr cheap)
    · refine ⟨hop, cost, ?_, path, least⟩
      have table : 0 < logic.adj.side :=
        Nat.zero_lt_of_lt (inside node h linked).1
      have routed : answered (RouteLogic.compute infinity left logic)
          node dst = some hop := by
        rw [RouteLogic.compute_of_pos infinity table, answered, answer]
        simp
      change (final node).find dst = some hop
      rw [finds, if_pos, routed, Option.some_or]
      exact ⟨⟨Nat.zero_le node, nodeIn,
        visited_of_complete complete nodeIn⟩, dstIn, Ne.symm away⟩
  have closed : ∀ u v, price u v < infinity → v ∈ Finset.range nn :=
    fun u v linked => Finset.mem_range.mpr ((bounds u v).2.2 linked).2
  have srcIn : src ∈ Finset.range nn := Finset.mem_range.mpr
    ((bounds src h).2.2 (NextHops.first_edge positive walk cheap)).1
  rcases guided.follow_least positive closed walk cheap srcIn away
      ((Finset.card_range nn).trans_le enough) with
    ⟨path, followed, arrives, nodup, _, least⟩
  exact ⟨path, followed, arrives, nodup, least⟩

end Packets

theorem delivered_shortest_fourNodes :
    ∃ (logic : RouteLogic Nat) (final : Nat → Classifier Nat)
      (path : List Nat),
      RouteLogic.script 16383 (RouteLogic.start 16383) fourNodes =
          some logic ∧
        NextHops.follow (fun node => (final node).find 3) 3 4 0 =
          some (0 :: path) ∧
        NextHops.pathCost
          (linkCost 16383 fourNodes fun _ _ => 16383) (0 :: path) ≤ 6 := by
  rcases script_fourNodes with ⟨logic, ran, _⟩
  have proper : ∀ command ∈ fourNodes, command.Proper 16383 4 := by
    simp [fourNodes, LinkCommand.Proper]
  obtain ⟨_, final, _, delivered⟩ :=
    delivered_shortest (by decide) 4 (by decide) fourNodes proper logic ran
      (fun _ _ => 0) (fun _ => true) (fun _ _ => rfl)
      (fun _ => Classifier.start) fun _ => Classifier.Wired.start
  obtain ⟨path, followed, _, _, least⟩ :=
    delivered 0 3 1 6 (by decide) walk_fourNodes (by decide) 4 (by decide)
  exact ⟨logic, final, path, ran, followed, least 1 6 walk_fourNodes⟩

end NetworkingLab.Simulator
