import Mathlib.Data.List.Basic
import Mathlib.Data.List.Induction
import Mathlib.Tactic.Common

/-!
# A resolver with a cache

What a caching resolver is for: it answers a name from its cache, else from
the zone behind it, and learns what it had to fetch.  Pairs are kept in order
and the first one for a name counts.

After any sequence of lookups the cache consists of its first pairs and one
pair for each name that was learned, in the order of the first questions
(`Resolver.run_cache`), and caching changes no answer (`Resolver.run_answer`).
-/

namespace NetworkingLab.Foundation.CachingResolver

variable {Name Address : Type*} [DecidableEq Name]

/-- The address in the first pair for a name. -/
def find (pairs : List (Name × Address)) (name : Name) :
    Option Address :=
  (pairs.find? fun pair => pair.1 = name).map Prod.snd

@[simp]
theorem find_nil (name : Name) :
    find ([] : List (Name × Address)) name = none :=
  rfl

theorem find_cons (pair : Name × Address) (pairs : List (Name × Address))
    (name : Name) :
    find (pair :: pairs) name =
      if pair.1 = name then some pair.2 else find pairs name := by
  by_cases same : pair.1 = name
  · simp [find, same]
  · simp [find, same]

theorem find_append (first second : List (Name × Address))
    (name : Name) :
    find (first ++ second) name =
      (find first name).or (find second name) := by
  induction first with
  | nil => simp
  | cons pair pairs induction =>
      rw [List.cons_append, find_cons, find_cons, induction]
      split <;> simp

/-- A cache and the zone behind it. -/
structure Resolver (Name Address : Type*) where
  cache : List (Name × Address)
  zone : List (Name × Address)

namespace Resolver

variable (resolver : Resolver Name Address)

/-- The answer to a name. -/
def answer (name : Name) : Option Address :=
  (find resolver.cache name).or (find resolver.zone name)

/-- The pair that a lookup adds to the cache, if it adds one. -/
def learned (name : Name) : List (Name × Address) :=
  match find resolver.cache name, find resolver.zone name with
  | none, some address => [(name, address)]
  | _, _ => []

/-- The resolver after a lookup. -/
def resolve (name : Name) : Resolver Name Address :=
  { resolver with cache := resolver.cache ++ resolver.learned name }

/-- The resolver after a sequence of lookups. -/
def run (names : List Name) : Resolver Name Address :=
  names.foldl resolve resolver

/-- The answers to a sequence of lookups, each from the cache it finds. -/
def answers (resolver : Resolver Name Address) :
    List Name → List (Option Address)
  | [] => []
  | name :: names =>
      resolver.answer name :: answers (resolver.resolve name) names

/-- The names for which a sequence of lookups has to ask the zone. -/
def questions (resolver : Resolver Name Address) : List Name → List Name
  | [] => []
  | name :: names =>
      match find resolver.cache name with
      | some _ => questions (resolver.resolve name) names
      | none => name :: questions (resolver.resolve name) names

theorem learned_of_hit
    {name : Name} {address : Address}
    (hit : find resolver.cache name = some address) :
    resolver.learned name = [] := by
  simp [learned, hit]

theorem learned_of_fetch
    {name : Name} {address : Address}
    (miss : find resolver.cache name = none)
    (fetched : find resolver.zone name = some address) :
    resolver.learned name = [(name, address)] := by
  simp [learned, miss, fetched]

theorem learned_of_unknown
    {name : Name} (unknown : find resolver.zone name = none) :
    resolver.learned name = [] := by
  cases hit : find resolver.cache name <;> simp [learned, unknown, hit]

/-- A name that is not cached is answered from the zone. -/
theorem answer_of_miss
    {name : Name} (miss : find resolver.cache name = none) :
    resolver.answer name = find resolver.zone name := by
  simp [answer, miss]

/-- What is learned about a name that is not cached. -/
theorem learned_of_miss
    {name : Name} (miss : find resolver.cache name = none) :
    resolver.learned name =
      (find resolver.zone name).toList.map fun address =>
        (name, address) := by
  cases fetched : find resolver.zone name <;>
    simp [learned, miss, fetched]

/-- A lookup of another name learns nothing about this one. -/
theorem find_learned_of_ne
    {other name : Name} (different : other ≠ name) :
    find (resolver.learned other) name = none := by
  unfold learned
  split
  · simp [find_cons, different]
  · rfl

/-- What a sequence of lookups has learned about a name. -/
theorem find_learned
    (names : List Name) (name : Name) :
    find (names.flatMap resolver.learned) name =
      if name ∈ names then find (resolver.learned name) name
      else none := by
  induction names with
  | nil => rfl
  | cons head tail induction =>
      rw [List.flatMap_cons, find_append, induction]
      by_cases same : head = name
      · subst same
        cases find (resolver.learned head) head <;> simp
      · simp [resolver.find_learned_of_ne same, Ne.symm same]

theorem run_append (names later : List Name) :
    resolver.run (names ++ later) = (resolver.run names).run later :=
  List.foldl_append

@[simp]
theorem run_zone (names : List Name) :
    (resolver.run names).zone = resolver.zone := by
  induction names generalizing resolver with
  | nil => rfl
  | cons name names induction => exact induction (resolver.resolve name)

/-- A lookup after others learns its pair only if none of them did. -/
theorem learned_of_cache
    {later : Resolver Name Address} {names : List Name}
    (zone : later.zone = resolver.zone)
    (cache : later.cache =
      resolver.cache ++ names.eraseDups.flatMap resolver.learned)
    (name : Name) :
    later.learned name =
      if name ∈ names then [] else resolver.learned name := by
  have known := resolver.find_learned names.eraseDups name
  simp only [List.mem_eraseDups] at known
  have found : find later.cache name =
      (find resolver.cache name).or
        (if name ∈ names then find (resolver.learned name) name
          else none) := by
    rw [cache, find_append, known]
  by_cases asked : name ∈ names
  · rw [if_pos asked]
    rw [if_pos asked] at found
    cases hit : find resolver.cache name with
    | some address =>
        rw [hit, Option.some_or] at found
        exact later.learned_of_hit found
    | none =>
        cases fetched : find resolver.zone name with
        | none =>
            rw [← zone] at fetched
            exact later.learned_of_unknown fetched
        | some address =>
            rw [hit, Option.none_or,
              resolver.learned_of_fetch hit fetched, find_cons,
              if_pos rfl] at found
            exact later.learned_of_hit found
  · rw [if_neg asked]
    rw [if_neg asked, Option.or_none] at found
    simp [learned, found, zone]

/--
Run lemma: the cache is what it was, followed by one pair for each name that
was learned, in the order of the first questions.
-/
theorem run_cache (names : List Name) :
    (resolver.run names).cache =
      resolver.cache ++ names.eraseDups.flatMap resolver.learned := by
  induction names using List.reverseRecOn with
  | nil => simp [run]
  | append_singleton names name induction =>
      have next := resolver.learned_of_cache (resolver.run_zone names)
        induction name
      rw [run_append]
      show (resolver.run names).cache ++
          (resolver.run names).learned name = _
      rw [next, induction, List.eraseDups_append, List.flatMap_append,
        List.append_assoc]
      by_cases asked : name ∈ names
      · simp [asked, List.removeAll]
      · simp [asked, List.removeAll, List.eraseDups_cons]

/-- Caching changes no answer. -/
theorem run_answer (names : List Name) (name : Name) :
    (resolver.run names).answer name = resolver.answer name := by
  have known := resolver.find_learned names.eraseDups name
  rw [answer, answer, run_zone, run_cache, find_append, known]
  cases hit : find resolver.cache name with
  | some address => simp
  | none =>
      cases fetched : find resolver.zone name with
      | none => simp [resolver.learned_of_unknown fetched]
      | some address =>
          rw [resolver.learned_of_fetch hit fetched, find_cons]
          split <;> simp

/-- So every answer of a sequence is the one the first resolver gives. -/
theorem answers_eq (names : List Name) :
    resolver.answers names = names.map resolver.answer := by
  have general : ∀ earlier : List Name,
      (resolver.run earlier).answers names =
        names.map resolver.answer := by
    induction names with
    | nil => exact fun _ => rfl
    | cons name names induction =>
        intro earlier
        have later := induction (earlier ++ [name])
        rw [run_append] at later
        rw [answers, List.map_cons, run_answer]
        exact congrArg _ later
  exact general []

end Resolver

end NetworkingLab.Foundation.CachingResolver
