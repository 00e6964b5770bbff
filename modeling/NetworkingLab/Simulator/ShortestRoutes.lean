import Mathlib.Data.Finset.Card
import Mathlib.Order.Interval.Finset.Nat
import NetworkingLab.Foundation.ShortestPaths
import NetworkingLab.Simulator.RouteLogic

/-!
# The routes are shortest

The links of a script form a graph: what a link costs is what the last command
about it says (`linkCost`).  The table of costs holds that graph, however often
it had to be enlarged (`Tabulates`).

`compute_routes` settles the nodes of each source in the order of their
distance, so its labels are shortest paths (`RouteTree.Sound`), and a lookup
gives the first node of a shortest path.
-/

namespace NetworkingLab.Simulator

open NetworkingLab.Foundation.ShortestPaths
open NetworkingLab.Foundation.SquareTable

variable {Cost : Type*} {infinity : Cost}

/-! ## The table of costs -/

/-- The cost of a link after a command. -/
def LinkCommand.cost (infinity : Cost) (src dst : Nat) (old : Cost) :
    LinkCommand Cost → Cost
  | .insert s d cost => if s = src ∧ d = dst then cost else old
  | .reset s d => if s = src ∧ d = dst then infinity else old
  | .resetAll => infinity

/-- The cost of a link after a script. -/
def linkCost (infinity : Cost) :
    List (LinkCommand Cost) → (Nat → Nat → Cost) → Nat → Nat → Cost
  | [], price => price
  | first :: rest, price =>
      linkCost infinity rest fun src dst =>
        first.cost infinity src dst (price src dst)

/-- The table holds these costs; nodes outside it have no links. -/
structure Tabulates (infinity : Cost) (logic : RouteLogic Cost)
    (price : Nat → Nat → Cost) : Prop where
  inside : ∀ u v, u + 1 < logic.adj.side → v + 1 < logic.adj.side →
    logic.adj.read infinity (u + 1) (v + 1) = price u v
  outside : ∀ u v,
    ¬ (u + 1 < logic.adj.side ∧ v + 1 < logic.adj.side) →
    price u v = infinity

namespace Tabulates

variable {logic : RouteLogic Cost} {price : Nat → Nat → Cost}

theorem start :
    Tabulates infinity (RouteLogic.start infinity) fun _ _ => infinity where
  inside _ _ rowIn := absurd rowIn (Nat.not_lt_zero _)
  outside _ _ _ := rfl

/-- A larger table holds the same costs. -/
theorem check
    (tabulates : Tabulates infinity logic price) (n : Nat) :
    Tabulates infinity (RouteLogic.check infinity n logic) price ∧
      n < (RouteLogic.check infinity n logic).adj.side ∧
      logic.adj.side ≤ (RouteLogic.check infinity n logic).adj.side := by
  rw [RouteLogic.check]
  split
  · next enough => exact ⟨tabulates, enough, Nat.le_refl _⟩
  · next short =>
      have wide : n < RouteLogic.wider n logic.adj.side ∧
          logic.adj.side ≤ RouteLogic.wider n logic.adj.side := by
        rw [RouteLogic.wider]
        split
        · next empty =>
            rw [empty]
            exact ⟨RouteLogic.lt_widen _ _ _, Nat.zero_le _⟩
        · exact ⟨RouteLogic.lt_widen _ _ _, RouteLogic.le_widen _ _ _⟩
      have places : ∀ place ∈ (List.range logic.adj.side).product
          (List.range logic.adj.side),
          place.1 < RouteLogic.wider n logic.adj.side ∧
            place.2 < RouteLogic.wider n logic.adj.side := by
        rintro ⟨row, column⟩ member
        rcases List.pair_mem_product.mp member with ⟨rowIn, columnIn⟩
        rw [List.mem_range] at rowIn columnIn
        exact ⟨rowIn.trans_le wide.2, columnIn.trans_le wide.2⟩
      refine ⟨⟨?_, ?_⟩, ?_, ?_⟩
      · intro u v rowIn columnIn
        simp only [Grid.side_writeAll, Grid.blank] at rowIn columnIn
        rw [Grid.read_writeAll places columnIn,
          Grid.read_blank _ _ rowIn columnIn]
        simp only [List.pair_mem_product, List.mem_range]
        by_cases old : u + 1 < logic.adj.side ∧ v + 1 < logic.adj.side
        · rw [if_pos old]
          exact tabulates.inside u v old.1 old.2
        · rw [if_neg old, tabulates.outside u v old]
      · intro u v beyond
        apply tabulates.outside u v
        intro old
        simp only [Grid.side_writeAll, Grid.blank] at beyond
        exact beyond ⟨old.1.trans_le wide.2, old.2.trans_le wide.2⟩
      · simpa [Grid.blank] using wide.1
      · simpa [Grid.blank] using wide.2

/-- One cost is written. -/
theorem write
    (tabulates : Tabulates infinity logic price) {src dst : Nat}
    (srcIn : src + 1 < logic.adj.side) (dstIn : dst + 1 < logic.adj.side)
    (cost : Cost) :
    Tabulates infinity
      { logic with adj := logic.adj.write (src + 1) (dst + 1) cost }
      fun u v => if src = u ∧ dst = v then cost else price u v where
  inside u v rowIn columnIn := by
    simp only [Grid.side_write] at rowIn columnIn
    rw [Grid.read_write srcIn dstIn columnIn,
      tabulates.inside u v rowIn columnIn]
    simp
  outside u v beyond := by
    simp only [Grid.side_write] at beyond
    rw [if_neg, tabulates.outside u v beyond]
    rintro ⟨rfl, rfl⟩
    exact beyond ⟨srcIn, dstIn⟩

/-- Step lemma: a command changes the one cost it names. -/
theorem command
    (tabulates : Tabulates infinity logic price)
    {command : LinkCommand Cost} {next : RouteLogic Cost}
    (taken : RouteLogic.command infinity logic command = some next) :
    Tabulates infinity next fun src dst =>
      command.cost infinity src dst (price src dst) := by
  cases command with
  | insert src dst cost =>
      rcases tabulates.check (src + 1) with ⟨first, srcIn, _⟩
      rcases first.check (dst + 1) with ⟨second, dstIn, wider⟩
      cases taken
      exact second.write (srcIn.trans_le wider) dstIn cost
  | reset src dst =>
      simp only [RouteLogic.command, RouteLogic.reset] at taken
      split at taken
      · next inside =>
          cases taken
          exact tabulates.write inside.1 inside.2 infinity
      · cases taken
  | resetAll =>
      cases taken
      exact ⟨fun _ _ rowIn => absurd rowIn (Nat.not_lt_zero _),
        fun _ _ _ => rfl⟩

/-- Run lemma: the table holds the links of the script. -/
theorem script
    (tabulates : Tabulates infinity logic price)
    {commands : List (LinkCommand Cost)} {final : RouteLogic Cost}
    (ran : RouteLogic.script infinity logic commands = some final) :
    Tabulates infinity final (linkCost infinity commands price) := by
  induction commands generalizing logic price with
  | nil =>
      cases ran
      exact tabulates
  | cons first rest induction =>
      rw [RouteLogic.script] at ran
      cases taken : RouteLogic.command infinity logic first with
      | none =>
          rw [taken] at ran
          cases ran
      | some next =>
          rw [taken] at ran
          exact induction (tabulates.command taken) ran

end Tabulates

/-! ## The routes of one source -/

namespace RouteTree

variable [LinearOrder Cost] [Add Cost]

theorem mem_nodes {n v : Nat} : v ∈ nodes n ↔ 0 < v ∧ v < n := by
  rw [nodes, List.mem_range'_1]
  omega

omit [Add Cost] in
/-- The scan for the nearest node, from any node on. -/
theorem nearest_from
    (tree : RouteTree Cost) (k : Nat) (ws : List Nat) (first : Nat) :
    let o := ws.foldl
      (fun o w =>
        if tree.parent w ≠ k ∧ tree.hopcnt w < tree.hopcnt o then w
        else o)
      first
    (o = first ∨
        o ∈ ws ∧ tree.parent o ≠ k ∧ tree.hopcnt o < tree.hopcnt first) ∧
      tree.hopcnt o ≤ tree.hopcnt first ∧
      ∀ w ∈ ws, tree.parent w ≠ k → tree.hopcnt o ≤ tree.hopcnt w := by
  induction ws generalizing first with
  | nil => exact ⟨Or.inl rfl, le_refl _, by simp⟩
  | cons w ws induction =>
      simp only [List.foldl_cons]
      split
      · next better =>
          rcases induction w with ⟨which, lower, least⟩
          refine ⟨Or.inr ?_, lower.trans better.2.le, ?_⟩
          · rcases which with same | ⟨member, unmarked, less⟩
            · rw [same]
              exact ⟨List.mem_cons_self, better⟩
            · exact ⟨List.mem_cons_of_mem _ member, unmarked,
                less.trans better.2⟩
          · intro other member unmarked
            rcases List.mem_cons.mp member with rfl | later
            · exact lower
            · exact least other later unmarked
      · next worse =>
          rcases induction first with ⟨which, lower, least⟩
          refine ⟨?_, lower, ?_⟩
          · rcases which with same | ⟨member, unmarked, less⟩
            · exact Or.inl same
            · exact Or.inr ⟨List.mem_cons_of_mem _ member, unmarked, less⟩
          · intro other member unmarked
            rcases List.mem_cons.mp member with rfl | later
            · exact lower.trans (not_lt.mp fun less => worse ⟨unmarked, less⟩)
            · exact least other later unmarked

/-- The loop over the neighbours lowers each label on its own. -/
theorem relax_all
    {adj : Nat → Nat → Cost} {k o : Nat} {ws : List Nat}
    (nodup : ws.Nodup) (tree : RouteTree Cost) (settled : tree.parent o = k) :
    let after := ws.foldl (relax adj k o) tree
    after.parent = tree.parent ∧
      ∀ w,
        (w ∈ ws ∧ tree.parent w ≠ k ∧
              tree.hopcnt o + adj o w < tree.hopcnt w ∧
            after.hopcnt w = tree.hopcnt o + adj o w ∧
              after.route w = tree.route o) ∨
          (¬ (w ∈ ws ∧ tree.parent w ≠ k ∧
              tree.hopcnt o + adj o w < tree.hopcnt w) ∧
            after.hopcnt w = tree.hopcnt w ∧
              after.route w = tree.route w) := by
  induction ws generalizing tree with
  | nil => exact ⟨rfl, fun w => Or.inr ⟨by simp, rfl, rfl⟩⟩
  | cons v ws induction =>
      rcases List.nodup_cons.mp nodup with ⟨fresh, rest⟩
      simp only [List.foldl_cons]
      by_cases lowers : tree.parent v ≠ k ∧
          tree.hopcnt o + adj o v < tree.hopcnt v
      · have different : o ≠ v := by
          rintro rfl
          exact lowers.1 settled
        have step : relax adj k o tree v =
            { tree with
              route := Function.update tree.route v (tree.route o)
              hopcnt := Function.update tree.hopcnt v
                (tree.hopcnt o + adj o v) } :=
          if_pos lowers
        rcases induction rest (relax adj k o tree v)
          (by rw [step]; exact settled) with
          ⟨parent, others⟩
        rw [step] at parent others ⊢
        refine ⟨parent, ?_⟩
        intro w
        have after := others w
        simp only [Function.update_of_ne different] at after
        by_cases same : w = v
        · subst same
          left
          rcases after with ⟨member, _⟩ | ⟨_, hopcnt, route⟩
          · exact absurd member fresh
          · rw [Function.update_self] at hopcnt route
            exact ⟨List.mem_cons_self, lowers.1, lowers.2, hopcnt, route⟩
        · simpa only [Function.update_of_ne same, List.mem_cons, same,
            false_or] using after
      · have step : relax adj k o tree v = tree := if_neg lowers
        rcases induction rest (relax adj k o tree v)
          (by rw [step]; exact settled) with
          ⟨parent, others⟩
        rw [step] at parent others ⊢
        refine ⟨parent, ?_⟩
        intro w
        have after := others w
        by_cases same : w = v
        · subst same
          right
          refine ⟨fun all => lowers all.2, ?_⟩
          rcases after with ⟨member, _⟩ | ⟨_, kept⟩
          · exact absurd member fresh
          · exact kept
        · simpa only [List.mem_cons, same, false_or] using after

/-- The other nodes of the table; node `w` of a script is `w + 1` inside. -/
def Target (n source w : Nat) : Prop :=
  w + 1 < n ∧ w ≠ source

/-- A node whose routes have been followed. -/
def Settled (tree : RouteTree Cost) (n source w : Nat) : Prop :=
  Target n source w ∧ tree.parent (w + 1) = source + 1

/-- The first node of the route to a node. -/
def first (tree : RouteTree Cost) (w : Nat) : Option Nat :=
  if tree.route (w + 1) = 0 then none else some (tree.route (w + 1) - 1)

/-- The arrays of a source between two rounds. -/
structure Sound (price : Nat → Nat → Cost) (infinity : Cost)
    (n source : Nat) (tree : RouteTree Cost) : Prop where
  home : tree.parent (source + 1) = source + 1
  labelled : Labelled price infinity (Target n source) source
    (tree.Settled n source) (fun w => tree.hopcnt (w + 1)) tree.first

/-- Only labels at the limit are left. -/
def Finished (infinity : Cost) (n source : Nat)
    (tree : RouteTree Cost) : Prop :=
  ∀ w, Target n source w → ¬ tree.Settled n source w →
    infinity ≤ tree.hopcnt (w + 1)

/-- The nodes whose routes have not been followed yet. -/
def remaining (n source : Nat) (tree : RouteTree Cost) : Finset Nat :=
  (Finset.range (n - 1)).filter fun w =>
    tree.parent (w + 1) ≠ source + 1

section Source

variable
    {price adj : Nat → Nat → Cost} {n source : Nat}
    {tree : RouteTree Cost}

/-- The neighbours are labelled with their links. -/
theorem Sound.start
    (table : ∀ u v, u + 1 < n → v + 1 < n →
      adj (u + 1) (v + 1) = price u v)
    (capped : ∀ u v, price u v ≤ infinity)
    (sourceIn : source + 1 < n) (left : Nat → Cost) :
    Sound price infinity n source
      (RouteTree.start infinity n adj (source + 1) left) where
  home := rfl
  labelled := by
    have node : ∀ w, Target n source w →
        w + 1 ∈ nodes n ∧ w + 1 ≠ source + 1 := by
      intro w target
      exact ⟨mem_nodes.mpr ⟨Nat.succ_pos w, target.1⟩,
        fun same => target.2 (Nat.succ.inj same)⟩
    have edge : ∀ w, Target n source w →
        adj (source + 1) (w + 1) = price source w := fun w target =>
      table source w sourceIn target.1
    have unsettled : RouteTree.Settled
        (RouteTree.start infinity n adj (source + 1) left) n source =
          fun _ => False := by
      funext w
      apply propext
      refine ⟨?_, False.elim⟩
      rintro ⟨target, parent⟩
      exact target.2 (Nat.succ.inj parent)
    rw [unsettled]
    apply Labelled.start
    · intro w target
      simp only [RouteTree.start, if_pos (node w target), edge w target]
    · intro w h target found
      simp only [first, RouteTree.start, (node w target).1,
        (node w target).2, edge w target, true_and, ne_eq,
        not_false_eq_true] at found
      by_cases linked : price source w = infinity
      · simp [linked] at found
      · simp only [linked, not_false_eq_true, if_true] at found
        refine ⟨?_, lt_of_le_of_ne (capped source w) linked⟩
        simpa using found.symm
    · intro w target absent
      simp only [first, RouteTree.start, (node w target).1,
        (node w target).2, edge w target, true_and, ne_eq,
        not_false_eq_true] at absent
      by_contra linked
      simp [linked] at absent

/-- The numbers of the nodes do not meet the cell 0 that the scan uses. -/
theorem Sound.of_same
    {next : RouteTree Cost}
    (sound : Sound price infinity n source tree)
    (parent : ∀ w, next.parent (w + 1) = tree.parent (w + 1))
    (hopcnt : ∀ w, next.hopcnt (w + 1) = tree.hopcnt (w + 1))
    (route : ∀ w, next.route (w + 1) = tree.route (w + 1)) :
    Sound price infinity n source next where
  home := (parent source).trans sound.home
  labelled := by
    have settled : next.Settled n source = tree.Settled n source := by
      funext w
      simp only [Settled, parent]
    have labels : (fun w => next.hopcnt (w + 1)) =
        fun w => tree.hopcnt (w + 1) :=
      funext hopcnt
    have firsts : next.first = tree.first := by
      funext w
      simp only [first, route]
    rw [settled, labels, firsts]
    exact sound.labelled

/-- A node is settled and its links lower the labels of the others. -/
theorem Sound.settle_node
    [Zero Cost] (laws : CostLaws Cost)
    (positive : ∀ u v, 0 ≤ price u v)
    (table : ∀ u v, u + 1 < n → v + 1 < n →
      adj (u + 1) (v + 1) = price u v)
    (sound : Sound price infinity n source tree)
    {u : Nat} (target : Target n source u)
    (unmarked : tree.parent (u + 1) ≠ source + 1)
    (less : tree.hopcnt (u + 1) < infinity)
    (least : ∀ w, Target n source w → tree.parent (w + 1) ≠ source + 1 →
      tree.hopcnt (u + 1) ≤ tree.hopcnt (w + 1))
    (routed : RouteTree Cost)
    (parent : routed.parent =
      Function.update tree.parent (u + 1) (source + 1))
    (hopcnt : ∀ w, routed.hopcnt (w + 1) = tree.hopcnt (w + 1))
    (route : routed.route = tree.route) :
    Sound price infinity n source
        ((nodes n).foldl (relax adj (source + 1) (u + 1)) routed) ∧
      (remaining n source
          ((nodes n).foldl (relax adj (source + 1) (u + 1))
            routed)).card <
        (remaining n source tree).card := by
  have here : routed.parent (u + 1) = source + 1 := by
    rw [parent, Function.update_self]
  rcases @relax_all _ _ _ adj (source + 1) (u + 1) (nodes n) List.nodup_range'
      routed here with
    ⟨parents, others⟩
  generalize (nodes n).foldl (relax adj (source + 1) (u + 1)) routed = next
    at parents others
  rw [parent] at parents
  have elsewhere : ∀ w, w ≠ u →
      next.parent (w + 1) = tree.parent (w + 1) := by
    intro w different
    rw [parents]
    exact Function.update_of_ne
      (fun same => different (Nat.succ.inj same)) _ _
  have home : next.parent (source + 1) = source + 1 := by
    rw [elsewhere source (Ne.symm target.2)]
    exact sound.home
  have settles : ∀ w, next.Settled n source w ↔
      w = u ∨ tree.Settled n source w := by
    intro w
    by_cases same : w = u
    · subst same
      simp only [true_or, iff_true]
      refine ⟨target, ?_⟩
      rw [parents, Function.update_self]
    · simp only [Settled, elsewhere w same, same, false_or]
  refine ⟨⟨home, ?_⟩, ?_⟩
  · refine sound.labelled.settle laws positive target
      (fun settled => unmarked settled.2) less
      (fun w targeted unsettled => least w targeted fun settled =>
        unsettled ⟨targeted, settled⟩) settles ?_ ?_
    · intro w settled
      rcases others (w + 1) with ⟨_, unsettled, _⟩ | ⟨_, hops, routes⟩
      · rw [parent, ← parents] at unsettled
        exact absurd settled.2 unsettled
      · rw [hopcnt] at hops
        exact ⟨hops, by simp only [first, routes, route]⟩
    · intro w targeted unsettled
      have listed : w + 1 ∈ nodes n :=
        mem_nodes.mpr ⟨Nat.succ_pos w, targeted.1⟩
      have far : next.parent (w + 1) ≠ source + 1 := fun settled =>
        unsettled ⟨targeted, settled⟩
      have edge := table u w target.1 targeted.1
      rcases others (w + 1) with
        ⟨_, _, lower, hops, routes⟩ | ⟨higher, hops, routes⟩
      · rw [hopcnt, hopcnt, edge] at lower
        rw [hopcnt, edge] at hops
        exact Or.inl ⟨lower, hops, by simp only [first, routes, route]⟩
      · rw [parent, ← parents, hopcnt, hopcnt, edge] at higher
        rw [hopcnt] at hops
        refine Or.inr ⟨?_, hops, by simp only [first, routes, route]⟩
        by_contra lower
        exact higher ⟨listed, far, not_le.mp lower⟩
  · apply Finset.card_lt_card
    refine ⟨?_, ?_⟩
    · intro w member
      rcases Finset.mem_filter.mp member with ⟨inside, far⟩
      refine Finset.mem_filter.mpr ⟨inside, ?_⟩
      by_cases same : w = u
      · rw [same]
        exact unmarked
      · rwa [elsewhere w same] at far
    · intro all
      have listed : u ∈ remaining n source tree :=
        Finset.mem_filter.mpr
          ⟨Finset.mem_range.mpr (by have := target.1; omega), unmarked⟩
      have far := (Finset.mem_filter.mp (all listed)).2
      rw [parents, Function.update_self] at far
      exact far rfl

/-- What one round does: a node is settled, or there is none to settle. -/
theorem Sound.settle
    [Zero Cost] (laws : CostLaws Cost)
    (positive : ∀ u v, 0 ≤ price u v)
    (table : ∀ u v, u + 1 < n → v + 1 < n →
      adj (u + 1) (v + 1) = price u v)
    (sound : Sound price infinity n source tree) :
    Sound price infinity n source
        (RouteTree.settle infinity n adj (source + 1) tree) ∧
      (Finished infinity n source
          (RouteTree.settle infinity n adj (source + 1) tree) ∨
        ¬ Finished infinity n source tree ∧
          (remaining n source
              (RouteTree.settle infinity n adj (source + 1) tree)).card <
            (remaining n source tree).card) := by
  let cleared : RouteTree Cost :=
    { tree with hopcnt := Function.update tree.hopcnt 0 infinity }
  have same : ∀ w, cleared.hopcnt (w + 1) = tree.hopcnt (w + 1) :=
    fun w =>
      Function.update_of_ne (Nat.succ_ne_zero w) infinity tree.hopcnt
  have limit : cleared.hopcnt 0 = infinity :=
    Function.update_self 0 infinity tree.hopcnt
  have node : ∀ w, Target n source w → w + 1 ∈ nodes n := fun w target =>
    mem_nodes.mpr ⟨Nat.succ_pos w, target.1⟩
  rcases nearest_from cleared (source + 1) (nodes n) 0 with ⟨which, _, least⟩
  rw [limit] at which
  rw [RouteTree.settle]
  by_cases nothing : nearest n (source + 1) cleared = 0
  · rw [if_pos nothing]
    have kept : ∀ w, Function.update tree.parent
        (nearest n (source + 1) cleared) (source + 1) (w + 1) =
          tree.parent (w + 1) := by
      intro w
      rw [nothing]
      exact Function.update_of_ne (Nat.succ_ne_zero w) (source + 1)
        tree.parent
    refine ⟨sound.of_same kept same fun _ => rfl, Or.inl ?_⟩
    intro w target unsettled
    have unmarked : tree.parent (w + 1) ≠ source + 1 := by
      intro settled
      exact unsettled ⟨target, (kept w).trans settled⟩
    have bound := least (w + 1) (node w target) unmarked
    change cleared.hopcnt (nearest n (source + 1) cleared) ≤ _ at bound
    rw [nothing, limit] at bound
    exact bound
  · rw [if_neg nothing]
    rcases which with zero | ⟨member, unmarked, less⟩
    · exact absurd zero nothing
    · change nearest n (source + 1) cleared ∈ nodes n at member
      change tree.parent (nearest n (source + 1) cleared) ≠ _ at unmarked
      change cleared.hopcnt (nearest n (source + 1) cleared) < _ at less
      rcases Nat.exists_eq_succ_of_ne_zero nothing with ⟨u, number⟩
      rw [number] at member unmarked less ⊢
      rw [same] at less
      have target : Target n source u := by
        refine ⟨(mem_nodes.mp member).2, ?_⟩
        rintro rfl
        exact unmarked sound.home
      have stepped := sound.settle_node laws positive table target unmarked
        less
        (by
          intro w targeted unsettled
          have bound := least (w + 1) (node w targeted) unsettled
          change cleared.hopcnt (nearest n (source + 1) cleared) ≤ _
            at bound
          rwa [number, same, same] at bound)
        { cleared with
          parent := Function.update cleared.parent (u + 1) (source + 1) }
        rfl same rfl
      refine ⟨stepped.1, Or.inr ⟨?_, stepped.2⟩⟩
      intro finished
      exact absurd (finished u target fun settled => unmarked settled.2)
        (not_le.mpr less)

/-- Run lemma: the rounds are enough to settle every node. -/
theorem Sound.compute
    [Zero Cost] (laws : CostLaws Cost)
    (positive : ∀ u v, 0 ≤ price u v)
    (table : ∀ u v, u + 1 < n → v + 1 < n →
      adj (u + 1) (v + 1) = price u v)
    (capped : ∀ u v, price u v ≤ infinity)
    (sourceIn : source + 1 < n) (left : Nat → Cost) :
    Sound price infinity n source
        (RouteTree.compute infinity n adj (source + 1) left) ∧
      Finished infinity n source
        (RouteTree.compute infinity n adj (source + 1) left) := by
  have rounds : ∀ i,
      let tree := (RouteTree.settle infinity n adj (source + 1))^[i]
        (RouteTree.start infinity n adj (source + 1) left)
      Sound price infinity n source tree ∧
        (Finished infinity n source tree ∨
          (remaining n source tree).card + i ≤ n - 1) := by
    intro i
    induction i with
    | zero =>
        refine ⟨Sound.start table capped sourceIn left, Or.inr ?_⟩
        have all := Finset.card_filter_le (Finset.range (n - 1))
          fun w => (RouteTree.start infinity n adj (source + 1)
            left).parent (w + 1) ≠ source + 1
        rw [Finset.card_range] at all
        exact all
    | succ i induction =>
        simp only [Function.iterate_succ_apply']
        rcases induction with ⟨sound, budget⟩
        rcases sound.settle laws positive table with ⟨next, which⟩
        refine ⟨next, ?_⟩
        rcases which with finished | ⟨going, fewer⟩
        · exact Or.inl finished
        · right
          have rest := budget.resolve_left going
          omega
  rcases rounds (n - 1) with ⟨sound, budget⟩
  refine ⟨sound, ?_⟩
  rcases budget with finished | exhausted
  · exact finished
  · intro w target unsettled
    have empty : remaining n source
        ((RouteTree.settle infinity n adj (source + 1))^[n - 1]
          (RouteTree.start infinity n adj (source + 1) left)) = ∅ :=
      Finset.card_eq_zero.mp (by omega)
    have listed : w ∈ remaining n source
        ((RouteTree.settle infinity n adj (source + 1))^[n - 1]
          (RouteTree.start infinity n adj (source + 1) left)) :=
      Finset.mem_filter.mpr
        ⟨Finset.mem_range.mpr (by have := target.1; omega),
          fun settled => unsettled ⟨target, settled⟩⟩
    rw [empty] at listed
    exact absurd listed (Finset.notMem_empty w)

end Source

end RouteTree

/-! ## Lookups -/

section Lookups

variable [LinearOrder Cost] [Zero Cost] [Add Cost]

/-- Costs that a script may give to links. -/
def LinkCommand.Fair (infinity : Cost) : LinkCommand Cost → Prop
  | .insert _ _ cost => 0 ≤ cost ∧ cost ≤ infinity
  | _ => True

omit [LinearOrder Cost] [Zero Cost] [Add Cost] in
/-- What holds of every inserted cost and of infinity holds after a script. -/
theorem linkCost_induct
    {Holds : Nat → Nat → Cost → Prop} (absent : ∀ u v, Holds u v infinity)
    {commands : List (LinkCommand Cost)}
    (inserted : ∀ u v cost, .insert u v cost ∈ commands → Holds u v cost)
    {price : Nat → Nat → Cost} (before : ∀ u v, Holds u v (price u v))
    (u v : Nat) :
    Holds u v (linkCost infinity commands price u v) := by
  induction commands generalizing price with
  | nil => exact before u v
  | cons first rest induction =>
      apply induction fun s d cost member =>
        inserted s d cost (List.mem_cons_of_mem _ member)
      intro src dst
      cases first with
      | insert s d cost =>
          simp only [LinkCommand.cost]
          split
          · next same =>
              rcases same with ⟨rfl, rfl⟩
              exact inserted s d cost List.mem_cons_self
          · exact before src dst
      | reset s d =>
          simp only [LinkCommand.cost]
          split
          · exact absent src dst
          · exact before src dst
      | resetAll => exact absent src dst

omit [Zero Cost] in
/-- A lookup in range reads what the source has written in its row. -/
theorem RouteLogic.lookupFlat_computeRoutes
    {logic : RouteLogic Cost} {src dst : Nat}
    (srcIn : src + 1 < logic.adj.side) (dstIn : dst + 1 < logic.adj.side)
    (left : Nat → Nat → Cost) :
    lookupFlat src dst (computeRoutes infinity left logic) =
      .ok ((nextHop infinity left logic (src + 1) (dst + 1) : Int) - 1) := by
  let places := (RouteTree.nodes logic.adj.side).product
    (RouteTree.nodes logic.adj.side)
  have inside : ∀ place ∈ places,
      place.1 < (Grid.blank logic.adj.side 0).side ∧
        place.2 < (Grid.blank logic.adj.side 0).side := by
    rintro ⟨row, column⟩ member
    rcases List.pair_mem_product.mp member with ⟨rowIn, columnIn⟩
    exact ⟨(RouteTree.mem_nodes.mp rowIn).2,
      (RouteTree.mem_nodes.mp columnIn).2⟩
  have listed : (src + 1, dst + 1) ∈ places :=
    List.pair_mem_product.mpr
      ⟨RouteTree.mem_nodes.mpr ⟨Nat.succ_pos src, srcIn⟩,
        RouteTree.mem_nodes.mpr ⟨Nat.succ_pos dst, dstIn⟩⟩
  let table := (Grid.blank logic.adj.side 0).writeAll
    (nextHop infinity left logic) places
  have side : table.side = logic.adj.side := Grid.side_writeAll _ _ _
  have cell := Grid.getElem?_index (side.symm ▸ srcIn)
    (side.symm ▸ dstIn) 0
  rw [Grid.read_writeAll inside dstIn, if_pos listed, side] at cell
  have inRange : ¬ (logic.adj.side ≤ src + 1 ∨
      logic.adj.side ≤ dst + 1) := by
    omega
  simp only [lookupFlat, computeRoutes]
  rw [cell]
  exact if_neg inRange

/-- What a lookup answers about the costs that the table holds. -/
theorem Tabulates.lookup
    (laws : CostLaws Cost) {logic : RouteLogic Cost}
    {price : Nat → Nat → Cost} (tabulates : Tabulates infinity logic price)
    (bounds : ∀ u v, 0 ≤ price u v ∧ price u v ≤ infinity)
    (left : Nat → Nat → Cost) {src dst : Nat}
    (srcIn : src + 1 < logic.adj.side) (dstIn : dst + 1 < logic.adj.side)
    (different : dst ≠ src) :
    let answer := RouteLogic.lookupFlat src dst
      (RouteLogic.computeRoutes infinity left logic)
    (answer = .ok (-1) ∧
        ∀ hop cost, Walk price src hop dst cost → infinity ≤ cost) ∨
      ∃ (hop : Nat) (cost : Cost), answer = .ok (hop : Int) ∧
        Walk price src hop dst cost ∧ cost < infinity ∧
        ∀ hop' cost', Walk price src hop' dst cost' → cost ≤ cost' := by
  rcases RouteTree.Sound.compute laws
    (fun u v => (bounds u v).1)
    (fun u v uIn vIn => tabulates.inside u v uIn vIn)
    (fun u v => (bounds u v).2) srcIn (left (src + 1)) with
    ⟨sound, finished⟩
  have target : RouteTree.Target logic.adj.side src dst :=
    ⟨dstIn, different⟩
  have elsewhere : dst + 1 ≠ src + 1 := fun same =>
    different (Nat.succ.inj same)
  simp only [RouteLogic.lookupFlat_computeRoutes srcIn dstIn,
    RouteLogic.nextHop, if_neg elsewhere]
  generalize RouteTree.compute infinity logic.adj.side
    (logic.adj.read infinity) (src + 1) (left (src + 1)) = tree
    at sound finished
  have least : ∀ hop cost, Walk price src hop dst cost →
      cost < infinity → tree.hopcnt (dst + 1) ≤ cost := by
    intro hop cost walk cheap
    apply sound.labelled.le_of_walk laws (fun u v => (bounds u v).1)
      finished _ walk cheap different
    intro u v linked away
    refine ⟨?_, away⟩
    by_contra beyond
    have absent := tabulates.outside u v fun inside => beyond inside.2
    exact absurd absent linked.ne
  by_cases unrouted : tree.route (dst + 1) = 0
  · left
    have unreached := sound.labelled.unreached dst target (if_pos unrouted)
    refine ⟨by rw [unrouted]; rfl, ?_⟩
    intro hop cost walk
    by_contra cheap
    have bound := least hop cost walk (not_le.mp cheap)
    change tree.hopcnt (dst + 1) = infinity at unreached
    rw [unreached] at bound
    exact cheap bound
  · right
    rcases Nat.exists_eq_succ_of_ne_zero unrouted with ⟨hop, number⟩
    have found : tree.first dst = some hop := by
      rw [RouteTree.first, if_neg unrouted, number]
      rfl
    rcases sound.labelled.reached dst hop target found with ⟨walk, cheap⟩
    refine ⟨hop, _, ?_, walk, cheap, ?_⟩
    · rw [number]
      simp
    · intro hop' cost' walk'
      rcases lt_or_ge cost' infinity with within | beyond
      · exact least hop' cost' walk' within
      · exact cheap.le.trans beyond

/-- Four nodes; the direct link from 0 to 2 is a detour. -/
def fourNodes : List (LinkCommand Nat) :=
  [.insert 0 2 9, .insert 0 1 2, .insert 1 2 3, .insert 2 3 1,
    .insert 3 0 1, .reset 3 0]

theorem script_fourNodes :
    ∃ logic : RouteLogic Nat,
      RouteLogic.script 16383 (RouteLogic.start 16383) fourNodes =
        some logic ∧ logic.adj.side = 16 := by
  simp only [fourNodes, RouteLogic.script, RouteLogic.command,
    RouteLogic.insert]
  rw [RouteLogic.check_start 16383 (by decide)]
  exact ⟨_, rfl, rfl⟩

theorem walk_fourNodes :
    Walk (linkCost 16383 fourNodes fun _ _ => 16383) 0 1 3 6 :=
  ((Walk.edge 1).onward 2).onward 3

end Lookups

end NetworkingLab.Simulator
