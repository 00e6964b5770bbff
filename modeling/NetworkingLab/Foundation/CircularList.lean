import Mathlib.Data.List.Basic
import Mathlib.Logic.Function.Basic

/-!
# Circular lists of linked nodes

Nodes point to the one behind and to the one in front of them, and the last
points back to the first.  Every change of such a list is made of one step,
`Links.link`, which makes two nodes neighbours: a node is put in front of the
head (`Circular.insert`), a node is taken out (`Circular.remove`), and the head
moves on (`Circular.rotate`).
-/

namespace NetworkingLab.Foundation.CircularList

/-- The pointers of all nodes. -/
structure Links (Node : Type*) where
  next : Node → Option Node
  prev : Node → Option Node

variable {Node : Type*}

/-- From a node through those of a list to another, both ways. -/
def Path (links : Links Node) : Node → List Node → Node → Prop
  | a, [], b => links.next a = some b ∧ links.prev b = some a
  | a, x :: xs, b =>
      (links.next a = some x ∧ links.prev x = some a) ∧ Path links x xs b

/-- The nodes of a list are linked in a circle, the first to the second. -/
def Circular (links : Links Node) : List Node → Prop
  | [] => True
  | head :: rest => Path links head rest head

variable {links : Links Node}

theorem path_append {a x b : Node} {xs ys : List Node} :
    Path links a (xs ++ x :: ys) b ↔
      Path links a xs x ∧ Path links x ys b := by
  induction xs generalizing a with
  | nil => exact Iff.rfl
  | cons y xs induction =>
      simp only [List.cons_append, Path, induction, and_assoc]

/-- The circle can be read from any of its nodes. -/
theorem Circular.rotate {xs ys : List Node}
    (circular : Circular links (xs ++ ys)) : Circular links (ys ++ xs) := by
  cases xs with
  | nil => simpa using circular
  | cons a xs =>
      cases ys with
      | nil => simpa using circular
      | cons b ys =>
          have both : Path links a (xs ++ b :: ys) a := circular
          rcases path_append.mp both with ⟨first, second⟩
          exact path_append.mpr ⟨second, first⟩

variable [DecidableEq Node]

/-- Make two nodes neighbours. -/
def Links.link (a b : Node) (links : Links Node) : Links Node where
  next := Function.update links.next a (some b)
  prev := Function.update links.prev b (some a)

/-- New neighbours that are not on the path do not change it. -/
theorem Path.link_other {a b u v : Node} {xs : List Node}
    (path : Path links a xs b) (notNext : u ∉ a :: xs)
    (notPrev : v ∉ xs ++ [b]) : Path (links.link u v) a xs b := by
  induction xs generalizing a with
  | nil =>
      have first : a ≠ u := fun same =>
        notNext (same ▸ List.mem_singleton_self a)
      have last : b ≠ v := fun same =>
        notPrev (same ▸ List.mem_singleton_self b)
      exact ⟨(Function.update_of_ne first _ _).trans path.1,
        (Function.update_of_ne last _ _).trans path.2⟩
  | cons x xs induction =>
      rcases path with ⟨first, rest⟩
      have behind : a ≠ u := fun same => notNext (same ▸ List.mem_cons_self)
      have front : x ≠ v := fun same => notPrev (same ▸ List.mem_cons_self)
      exact ⟨⟨(Function.update_of_ne behind _ _).trans first.1,
        (Function.update_of_ne front _ _).trans first.2⟩,
        induction rest (fun member => notNext (List.mem_cons_of_mem a member))
          fun member => notPrev (List.mem_cons_of_mem x member)⟩

/-- The last node of a path can be linked to another end. -/
theorem Path.retarget {a b : Node} {xs : List Node}
    (path : Path links a xs b) (nodup : (a :: xs).Nodup) :
    ∃ last ∈ a :: xs, links.prev b = some last ∧
      links.next last = some b ∧
      ∀ c, c ∉ xs → Path (links.link last c) a xs c := by
  induction xs generalizing a with
  | nil =>
      refine ⟨a, List.mem_singleton_self a, path.2, path.1, ?_⟩
      intro c _
      exact ⟨Function.update_self _ _ _, Function.update_self _ _ _⟩
  | cons x xs induction =>
      rcases path with ⟨first, rest⟩
      rcases List.nodup_cons.mp nodup with ⟨fresh, nodup'⟩
      rcases induction rest nodup' with ⟨last, member, before, after, linked⟩
      refine ⟨last, List.mem_cons_of_mem a member, before, after, ?_⟩
      intro c notIn
      have behind : a ≠ last := fun same => fresh (same ▸ member)
      have front : x ≠ c := fun same => notIn (same ▸ List.mem_cons_self)
      exact ⟨⟨(Function.update_of_ne behind _ _).trans first.1,
        (Function.update_of_ne front _ _).trans first.2⟩,
        linked c fun later => notIn (List.mem_cons_of_mem x later)⟩

/-- A single node that points to itself. -/
theorem Circular.single (a : Node) (links : Links Node) :
    Circular (links.link a a) [a] :=
  ⟨Function.update_self _ _ _, Function.update_self _ _ _⟩

/-- A new node between the last one and the head. -/
theorem Circular.insert {a x : Node} {rest : List Node}
    (circular : Circular links (a :: rest)) (nodup : (a :: rest).Nodup)
    (fresh : x ∉ a :: rest) :
    ∃ last, last ≠ x ∧ links.prev a = some last ∧
      Circular ((links.link last x).link x a) (a :: rest ++ [x]) := by
  have path : Path links a rest a := circular
  rcases path.retarget nodup with ⟨last, member, before, _, linked⟩
  refine ⟨last, fun same => fresh (same ▸ member), before, ?_⟩
  have outside : x ∉ rest := fun later =>
    fresh (List.mem_cons_of_mem a later)
  have notAgain : a ∉ rest ++ [x] := by
    intro again
    rcases List.mem_append.mp again with later | same
    · exact (List.nodup_cons.mp nodup).1 later
    · exact fresh (List.mem_singleton.mp same ▸ List.mem_cons_self)
  exact path_append.mpr
    ⟨(linked x outside).link_other fresh notAgain,
      Function.update_self _ _ _, Function.update_self _ _ _⟩

/-- The head is taken out of a circle that has more nodes. -/
theorem Circular.removeHead {x b : Node} {rest : List Node}
    (circular : Circular links (x :: b :: rest))
    (nodup : (x :: b :: rest).Nodup) :
    ∃ last, last ≠ x ∧ links.prev x = some last ∧
      links.next x = some b ∧
      Circular (links.link last b) (b :: rest) := by
  have path : Path links b rest x := circular.2
  rcases List.nodup_cons.mp nodup with ⟨fresh, nodup'⟩
  rcases path.retarget nodup' with ⟨last, member, before, _, linked⟩
  exact ⟨last, fun same => fresh (same ▸ member), before, circular.1.1,
    linked b (List.nodup_cons.mp nodup').1⟩

/-- Any node is taken out of a circle that has more nodes. -/
theorem Circular.remove {x : Node} {ring : List Node}
    (circular : Circular links ring) (nodup : ring.Nodup)
    (member : x ∈ ring) (others : ring ≠ [x]) :
    ∃ before after, links.prev x = some before ∧
      links.next x = some after ∧
      Circular (links.link before after) (ring.erase x) := by
  rcases List.append_of_mem member with ⟨xs, ys, rfl⟩
  have fresh : x ∉ xs := fun earlier =>
    (List.nodup_append.mp nodup).2.2 x earlier x List.mem_cons_self rfl
  have erased : (xs ++ x :: ys).erase x = xs ++ ys := by
    rw [List.erase_append_right _ fresh, List.erase_cons_head]
  have turned : Circular links (x :: (ys ++ xs)) := circular.rotate
  have turnedNodup : (x :: (ys ++ xs)).Nodup :=
    (@List.perm_append_comm _ xs (x :: ys)).nodup_iff.mp nodup
  rw [erased]
  cases around : ys ++ xs with
  | nil =>
      rcases List.append_eq_nil_iff.mp around with ⟨rfl, rfl⟩
      exact absurd rfl others
  | cons b rest =>
      rw [around] at turned turnedNodup
      rcases turned.removeHead turnedNodup with
        ⟨last, _, before, after, linked⟩
      refine ⟨last, b, before, after, ?_⟩
      rw [← around] at linked
      exact linked.rotate

end NetworkingLab.Foundation.CircularList
