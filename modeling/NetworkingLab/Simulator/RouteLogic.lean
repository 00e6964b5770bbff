import Mathlib.Data.List.Range
import Mathlib.Logic.Function.Basic
import Mathlib.Logic.Function.Iterate
import Mathlib.Order.Lattice
import NetworkingLab.Foundation.SquareTable

/-!
# The route computation of the simulator

`RouteLogic` is given the links of a topology one after another, each with a
cost, and computes for every node the next hop to every other node.  Nodes are
numbered from 1 inside; row and column 0 of its tables are not used, and 0 is
no next hop.

Costs are `double` in the source.  Here they are any linear order with an
addition, and `infinity` is the cost of no link, 0x3fff.  The `entry` pointers
that are copied along with costs and next hops are left out.

Sizes and indices are `int`s in the source.  As long as the nodes of a script
are numbered below 32767, the largest of them, the number of cells, is below
`2 ^ 31` (`inRange_of_script`).
-/

namespace NetworkingLab.Simulator

open NetworkingLab.Foundation.SquareTable

/-- `class RouteLogic`: `adj_` with `size_`, and `route_`. -/
structure RouteLogic (Cost : Type*) where
  adj : Grid Cost
  route : Option (Grid Nat)

/-- The arrays of one source while its routes are computed. -/
structure RouteTree (Cost : Type*) where
  parent : Nat → Nat
  hopcnt : Nat → Cost
  route : Nat → Nat

namespace RouteTree

variable {Cost : Type*} [LinearOrder Cost] [Add Cost]

/-- `for (w = 1; w < n; w++)`. -/
def nodes (n : Nat) : List Nat :=
  List.range' 1 (n - 1)

variable (infinity : Cost) (n : Nat) (adj : Nat → Nat → Cost) (k : Nat)

/--
The neighbours of the source are set first.  What is left of `hopcnt` at the
source itself is not read.
-/
def start (left : Nat → Cost) : RouteTree Cost where
  parent v := v
  hopcnt v := if v ∈ nodes n ∧ v ≠ k then adj k v else left v
  route v :=
    if v ∈ nodes n ∧ v ≠ k ∧ adj k v ≠ infinity then v else 0

/-- The node that is nearest to the subtree that has been routed, or 0. -/
def nearest (tree : RouteTree Cost) : Nat :=
  (nodes n).foldl
    (fun o w =>
      if tree.parent w ≠ k ∧ tree.hopcnt w < tree.hopcnt o then w else o)
    0

/-- The update of one node that is adjacent to `o`. -/
def relax (o : Nat) (tree : RouteTree Cost) (w : Nat) : RouteTree Cost :=
  if tree.parent w ≠ k ∧ tree.hopcnt o + adj o w < tree.hopcnt w then
    { tree with
      route := Function.update tree.route w (tree.route o)
      hopcnt := Function.update tree.hopcnt w
        (tree.hopcnt o + adj o w) }
  else
    tree

/-- One round of the outer loop. -/
def settle (tree : RouteTree Cost) : RouteTree Cost :=
  let cleared :=
    { tree with hopcnt := Function.update tree.hopcnt 0 infinity }
  let o := nearest n k cleared
  let routed :=
    { cleared with parent := Function.update cleared.parent o k }
  if o = 0 then routed else (nodes n).foldl (relax adj k o) routed

/-- All rounds for one source. -/
def compute (left : Nat → Cost) : RouteTree Cost :=
  (settle infinity n adj k)^[n - 1] (start infinity n adj k left)

end RouteTree

/-- Why a lookup gives no next hop. -/
inductive LookupError where
  | notComputed
  | outOfRange
  | outsideArray
  deriving DecidableEq

/-- The link commands of a script, with the nodes as the script numbers them. -/
inductive LinkCommand (Cost : Type*) where
  | insert (src dst : Nat) (cost : Cost)
  | reset (src dst : Nat)
  | resetAll

namespace RouteLogic

variable {Cost : Type*}

/-- `while (m <= n) m <<= 1`. -/
def widen (n m : Nat) (positive : 0 < m) : Nat :=
  if m ≤ n then widen n (2 * m) (by omega) else m
  termination_by n + 1 - m

theorem lt_widen (n m : Nat) (positive : 0 < m) :
    n < widen n m positive := by
  fun_induction widen n m positive with
  | case1 m positive short induction => exact induction
  | case2 m positive enough => omega

theorem le_widen (n m : Nat) (positive : 0 < m) :
    m ≤ widen n m positive := by
  fun_induction widen n m positive with
  | case1 m positive short induction => omega
  | case2 m positive enough => exact Nat.le_refl m

variable (infinity : Cost)

/-- `RouteLogic()`. -/
def start : RouteLogic Cost :=
  ⟨Grid.blank 0 infinity, none⟩

/-- The size of the array that `check` allocates. -/
def wider (n side : Nat) : Nat :=
  if empty : side = 0 then
    widen n 16 (by decide)
  else
    widen n side (Nat.pos_of_ne_zero empty)

/-- `check`: a larger array with the old costs in it. -/
def check (n : Nat) (logic : RouteLogic Cost) : RouteLogic Cost :=
  if n < logic.adj.side then
    logic
  else
    { logic with
      adj := (Grid.blank (wider n logic.adj.side) infinity).writeAll
        (logic.adj.read infinity)
        ((List.range logic.adj.side).product
          (List.range logic.adj.side)) }

/-- The first array has room for sixteen. -/
theorem check_start {n : Nat} (few : n < 16) :
    check infinity n (start infinity) =
      ⟨Grid.blank 16 infinity, none⟩ := by
  have empty : ¬ n < (start infinity).adj.side := Nat.not_lt_zero n
  have size : wider n 0 = 16 := by
    rw [wider, dif_pos rfl, widen, if_neg (Nat.not_le.mpr few)]
  have side : (start infinity).adj.side = 0 := rfl
  rw [check, if_neg empty, side, size]
  rfl

/-- `insert`. -/
def insert (src dst : Nat) (cost : Cost) (logic : RouteLogic Cost) :
    RouteLogic Cost :=
  let checked := check infinity dst (check infinity src logic)
  { checked with adj := checked.adj.write src dst cost }

/-- `reset`, with its two assertions. -/
def reset (src dst : Nat) (logic : RouteLogic Cost) :
    Option (RouteLogic Cost) :=
  if src < logic.adj.side ∧ dst < logic.adj.side then
    some { logic with adj := logic.adj.write src dst infinity }
  else
    none

/-- `reset_all`. -/
def resetAll (logic : RouteLogic Cost) : RouteLogic Cost :=
  { logic with
    adj := Grid.blank 0 infinity
    route := none }

/-- `command` for the links. -/
def command (logic : RouteLogic Cost) :
    LinkCommand Cost → Option (RouteLogic Cost)
  | .insert src dst cost =>
      some (insert infinity (src + 1) (dst + 1) cost logic)
  | .reset src dst => reset infinity (src + 1) (dst + 1) logic
  | .resetAll => some (resetAll infinity logic)

/-- A list of link commands. -/
def script (logic : RouteLogic Cost) :
    List (LinkCommand Cost) → Option (RouteLogic Cost)
  | [] => some logic
  | first :: rest =>
      match command infinity logic first with
      | none => none
      | some next => next.script rest

/--
What a source writes in its row of `route_`; the route to yourself is
yourself.  `left` is what `hopcnt` holds when a source begins.
-/
def nextHop [LinearOrder Cost] [Add Cost]
    (left : Nat → Nat → Cost) (logic : RouteLogic Cost) (k v : Nat) : Nat :=
  if v = k then
    k
  else
    (RouteTree.compute infinity logic.adj.side (logic.adj.read infinity) k
      (left k)).route v

/-- `compute_routes`. -/
def computeRoutes [LinearOrder Cost] [Add Cost]
    (left : Nat → Nat → Cost) (logic : RouteLogic Cost) :
    RouteLogic Cost :=
  let n := logic.adj.side
  { logic with
    route := some ((Grid.blank n 0).writeAll
      (nextHop infinity left logic)
      ((RouteTree.nodes n).product (RouteTree.nodes n))) }

/-- The command `compute`; without a table of costs it does nothing. -/
def compute [LinearOrder Cost] [Add Cost]
    (left : Nat → Nat → Cost) (logic : RouteLogic Cost) :
    RouteLogic Cost :=
  if logic.adj.side = 0 then logic else computeRoutes infinity left logic

theorem compute_of_pos [LinearOrder Cost] [Add Cost]
    {logic : RouteLogic Cost} (table : 0 < logic.adj.side)
    (left : Nat → Nat → Cost) :
    compute infinity left logic = computeRoutes infinity left logic :=
  if_neg (Nat.ne_of_gt table)

/-- `lookup_flat`. -/
def lookupFlat (sid did : Nat) (logic : RouteLogic Cost) :
    Except LookupError Int :=
  match logic.route with
  | none => .error .notComputed
  | some route =>
      let size := logic.adj.side
      if size ≤ sid + 1 ∨ size ≤ did + 1 then
        .error .outOfRange
      else
        match route.cells[Grid.index size (sid + 1) (did + 1)]? with
        | none => .error .outsideArray
        | some nextHop => .ok (nextHop - 1)

end RouteLogic

/-! ## The range of `int` -/

/-- The nodes of a new link have numbers below 32767. -/
def LinkCommand.Small {Cost : Type*} : LinkCommand Cost → Prop
  | .insert src dst _ => src + 1 < 2 ^ 15 ∧ dst + 1 < 2 ^ 15
  | _ => True

namespace RouteLogic

variable {Cost : Type*} {infinity : Cost}

/--
The number of cells, `n * n` in the source, is an `int`.  All indices are
smaller.
-/
def InRange (logic : RouteLogic Cost) : Prop :=
  logic.adj.side * logic.adj.side < 2 ^ 31

/-- There is no table yet, or its side is a power of two. -/
def Sized (logic : RouteLogic Cost) : Prop :=
  logic.adj.side = 0 ∨ ∃ bits ≤ 15, logic.adj.side = 2 ^ bits

/-- Doubling stops at the first power of two above the node. -/
theorem widen_pow
    {n m : Nat} (small : n < 2 ^ 15) (positive : 0 < m)
    (power : ∃ bits ≤ 15, m = 2 ^ bits) :
    ∃ bits ≤ 15, widen n m positive = 2 ^ bits := by
  fun_induction widen n m positive with
  | case1 m positive short induction =>
      obtain ⟨bits, _, rfl⟩ := power
      have fewer : bits < 15 :=
        (Nat.pow_lt_pow_iff_right (by decide)).mp (short.trans_lt small)
      exact induction ⟨bits + 1, fewer, (Nat.pow_succ').symm⟩
  | case2 m positive enough => exact power

namespace Sized

variable {logic : RouteLogic Cost}

theorem inRange (sized : logic.Sized) : logic.InRange := by
  rw [InRange]
  rcases sized with empty | ⟨bits, most, side⟩
  · rw [empty]
    decide
  · have side : logic.adj.side ≤ 2 ^ 15 :=
      side ▸ Nat.pow_le_pow_right (by decide) most
    calc
      logic.adj.side * logic.adj.side ≤ 2 ^ 15 * 2 ^ 15 :=
        Nat.mul_le_mul side side
      _ < 2 ^ 31 := by decide

theorem check
    (sized : logic.Sized) {n : Nat} (small : n < 2 ^ 15) :
    (RouteLogic.check infinity n logic).Sized := by
  rw [RouteLogic.check]
  split
  · exact sized
  · right
    rw [Grid.side_writeAll]
    change ∃ bits ≤ 15, wider n logic.adj.side = 2 ^ bits
    rw [wider]
    split
    · exact widen_pow small _ ⟨4, by decide, rfl⟩
    · next present =>
        exact widen_pow small _ (sized.resolve_left present)

/-- Step lemma. -/
theorem command
    (sized : logic.Sized) {command : LinkCommand Cost}
    (small : command.Small) {next : RouteLogic Cost}
    (taken : RouteLogic.command infinity logic command = some next) :
    next.Sized := by
  cases command with
  | insert src dst cost =>
      cases taken
      exact (sized.check small.1).check small.2
  | reset src dst =>
      simp only [RouteLogic.command, RouteLogic.reset] at taken
      split at taken
      · cases taken
        exact sized
      · cases taken
  | resetAll =>
      cases taken
      exact Or.inl rfl

/-- Run lemma. -/
theorem script
    (sized : logic.Sized) {commands : List (LinkCommand Cost)}
    (small : ∀ command ∈ commands, command.Small)
    {final : RouteLogic Cost}
    (ran : RouteLogic.script infinity logic commands = some final) :
    final.Sized := by
  induction commands generalizing logic with
  | nil =>
      cases ran
      exact sized
  | cons first rest induction =>
      rw [RouteLogic.script] at ran
      cases taken : RouteLogic.command infinity logic first with
      | none =>
          rw [taken] at ran
          cases ran
      | some next =>
          rw [taken] at ran
          exact induction (sized.command (small first List.mem_cons_self) taken)
            (fun later member => small later (List.mem_cons_of_mem _ member))
            ran

end Sized

/-- Behind a script about small nodes no size has left the range. -/
theorem inRange_of_script
    {commands : List (LinkCommand Cost)}
    (small : ∀ command ∈ commands, command.Small)
    {logic : RouteLogic Cost}
    (ran : script infinity (start infinity) commands = some logic) :
    logic.InRange := by
  have nothing : (start infinity).Sized := Or.inl rfl
  exact (nothing.script small ran).inRange

end RouteLogic

end NetworkingLab.Simulator
