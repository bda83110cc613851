import LazyClasses.Proofs.Reached
import Mathlib.Data.List.Flatten
import Mathlib.Data.List.Perm.Subperm
import Mathlib.Logic.Function.Iterate
/-! # The search for interfaces, one reference at a time

Whoever looks for the interfaces of a class climbs to its ancestors first and then spreads over
interface references, a list of which grows on the way. A `Search` is that work under way, and
`Search.step` follows one reference more. References may run in circles, but a class is taken once
only, so the references to follow run out.

* `iterate_climbing`, `iterate_spreading`: each of the two loops, from any of its states.
* `iterate_start`: the number of steps until no reference is left.
* `steps_le_searchBound`: what the registry holds bounds it beforehand.
* `search_finds_reached`: the search ends with the interfaces of the class, which are what
  references reach. -/

namespace LazyClasses.Registry

open Relation (TransGen)

variable {r : Registry} {c : ClassDecl}

/-- How far the search for the interfaces of a class has come. -/
inductive Search where
  /-- On the way up, with the keys passed, the parent to come and the ancestors so far. -/
  | climbing (seen : List String) (next : Option String) (chain : List ClassDecl)
  /-- On the way aside, with the keys passed, the references to come and the interfaces so far. -/
  | spreading (seen pending : List String) (found : List ClassDecl)

namespace Search

/-- The search that has not begun. -/
def start (c : ClassDecl) : Search := .climbing [c.key] c.parent []

/-- The search from the interface references of the class and its ancestors on. -/
def aside (c : ClassDecl) (chain : List ClassDecl) : Search :=
  .spreading [] ((c :: chain).flatMap ClassDecl.interfaces) []

/-- **One reference more.** Without a parent to come the search turns aside, and without any
reference to come it stays as it is. -/
def step (r : Registry) (c : ClassDecl) : Search → Search
  | .climbing seen next chain =>
    match next.bind r.find? with
    | none => aside c chain
    | some a =>
      if a.key ∈ seen then aside c chain else .climbing (a.key :: seen) a.parent (chain ++ [a])
  | .spreading seen [] found => .spreading seen [] found
  | .spreading seen (name :: rest) found =>
    match r.find? name with
    | none => .spreading seen rest found
    | some i =>
      if i.key ∈ seen then .spreading seen rest found
      else .spreading (i.key :: seen) (rest ++ i.interfaces) (found ++ [i])

/-- What was found, once no reference is left. -/
def result? : Search → Option (List ClassDecl)
  | .spreading _ [] found => some found
  | _ => none

/-- **The loop upwards** ends behind the last ancestor. -/
theorem iterate_climbing (seen : List String) (next : Option String) :
    ∀ chain, (step r c)^[(r.climb seen next).length + 1] (.climbing seen next chain) =
      aside c (chain ++ r.climb seen next) := by
  induction seen, next using climb.induct r with
  | case1 seen =>
    intro chain
    rw [climb, List.append_nil]
    rfl
  | case2 seen name hnone =>
    intro chain
    rw [climb_of_find?_eq_none hnone, List.append_nil]
    simp [step, hnone]
  | case3 seen name a ha hseen =>
    intro chain
    rw [climb_of_find?_eq_some ha, if_pos hseen, List.append_nil]
    simp [step, ha, hseen]
  | case4 seen name a ha hseen ih =>
    intro chain
    have hstep : step r c (.climbing seen (some name) chain) =
        .climbing (a.key :: seen) a.parent (chain ++ [a]) := by simp [step, ha, hseen]
    rw [climb_of_find?_eq_some ha, if_neg hseen, List.length_cons, Function.iterate_succ_apply,
      hstep, ih, List.append_assoc, List.singleton_append]

/-- **The loop aside** follows the references to come, and those of what it finds. -/
theorem iterate_spreading (seen pending : List String) : ∀ found, ∃ seen',
    (step r c)^[pending.length + ((r.spread seen pending).flatMap ClassDecl.interfaces).length]
      (.spreading seen pending found) = .spreading seen' [] (found ++ r.spread seen pending) := by
  induction seen, pending using spread.induct r with
  | case1 seen =>
    intro found
    refine ⟨seen, ?_⟩
    rw [spread, List.append_nil]
    rfl
  | case2 seen name rest hnone ih =>
    intro found
    have hstep : step r c (.spreading seen (name :: rest) found) = .spreading seen rest found := by
      simp [step, hnone]
    rw [spread_of_find?_eq_none hnone, List.length_cons, Nat.succ_add, Function.iterate_succ_apply,
      hstep]
    exact ih found
  | case3 seen name rest i hi hseen ih =>
    intro found
    have hstep : step r c (.spreading seen (name :: rest) found) = .spreading seen rest found := by
      simp [step, hi, hseen]
    rw [spread_of_find?_eq_some hi, if_pos hseen, List.length_cons, Nat.succ_add,
      Function.iterate_succ_apply, hstep]
    exact ih found
  | case4 seen name rest i hi hseen ih =>
    intro found
    have hstep : step r c (.spreading seen (name :: rest) found) =
        .spreading (i.key :: seen) (rest ++ i.interfaces) (found ++ [i]) := by
      simp [step, hi, hseen]
    obtain ⟨seen', h⟩ := ih (found ++ [i])
    refine ⟨seen', ?_⟩
    rw [List.length_append, Nat.add_assoc, List.append_assoc] at h
    rw [spread_of_find?_eq_some hi, if_neg hseen, List.length_cons, Nat.succ_add,
      Function.iterate_succ_apply, hstep, List.flatMap_cons, List.length_append]
    exact h

/-- The number of references that the search follows. -/
def steps (r : Registry) (c : ClassDecl) : Nat :=
  (r.ancestors c).length + 1 + (r.references c).length +
    ((r.interfaces c).flatMap ClassDecl.interfaces).length

/-- **After that many steps no reference is left**, and what was found are the interfaces. -/
theorem iterate_start (r : Registry) (c : ClassDecl) :
    ∃ seen, (step r c)^[steps r c] (start c) = .spreading seen [] (r.interfaces c) := by
  have hclimb := iterate_climbing (r := r) (c := c) [c.key] c.parent []
  obtain ⟨seen, hspread⟩ := iterate_spreading (r := r) (c := c) [] (r.references c) []
  refine ⟨seen, ?_⟩
  rw [steps, Nat.add_assoc _ (r.references c).length, Nat.add_comm, Function.iterate_add_apply,
    start, ancestors, hclimb]
  exact hspread

end Search

/-! ### A bound known beforehand -/

/-- Different known classes do not hold more references than all known classes. -/
theorem length_flatMap_interfaces_le {l : List ClassDecl} (hl : (l.map ClassDecl.key).Nodup)
    (hmem : ∀ a ∈ l, a ∈ r.classes) :
    (l.flatMap ClassDecl.interfaces).length ≤
      (r.classes.flatMap ClassDecl.interfaces).length := by
  obtain ⟨l', hperm, hsub⟩ := List.subperm_of_subset (List.Nodup.of_map _ hl) hmem
  calc (l.flatMap ClassDecl.interfaces).length
    _ = (l'.flatMap ClassDecl.interfaces).length := (hperm.flatMap_right _).length_eq.symm
    _ ≤ (r.classes.flatMap ClassDecl.interfaces).length := (hsub.flatMap _).length_le

/-- What bounds a search before it begins: a step for each known class, and two for each reference
that one of them holds. -/
def searchBound (r : Registry) (c : ClassDecl) : Nat :=
  r.size + 1 + c.interfaces.length + 2 * (r.classes.flatMap ClassDecl.interfaces).length

theorem steps_le_searchBound (r : Registry) (c : ClassDecl) :
    Search.steps r c ≤ r.searchBound c := by
  have hchain : ((r.ancestors c).map ClassDecl.key).Nodup := (r.nodup_key_chain c).of_cons
  have hknown : ∀ a ∈ r.ancestors c, a ∈ r.classes := fun a => mem_of_mem_ancestors
  have hfound : ∀ i ∈ r.interfaces c, i ∈ r.classes := fun i => mem_of_mem_interfaces
  have hancestors : (r.ancestors c).length ≤ r.size :=
    (List.subperm_of_subset (List.Nodup.of_map _ hchain) hknown).length_le
  have hreferences : (r.references c).length ≤
      c.interfaces.length + (r.classes.flatMap ClassDecl.interfaces).length := by
    rw [references, List.flatMap_cons, List.length_append]
    exact Nat.add_le_add_left (length_flatMap_interfaces_le hchain hknown) _
  have hinterfaces : ((r.interfaces c).flatMap ClassDecl.interfaces).length ≤
      (r.classes.flatMap ClassDecl.interfaces).length :=
    length_flatMap_interfaces_le (r.nodup_key_spread [] (r.references c)).2 hfound
  rw [Search.steps, searchBound]
  omega

/-! ### What the search finds -/

/-- **The search for the interfaces of a class ends**, however references run, within a number of
steps that is known beforehand. It finds no name twice, and exactly the known classes to which
interface references lead from the class or from one of its ancestors. -/
theorem search_finds_reached (r : Registry) (c : ClassDecl) :
    (∀ n, r.searchBound c ≤ n →
      ((Search.step r c)^[n] (Search.start c)).result? = some (r.interfaces c)) ∧
    ((r.interfaces c).map fun d => Text.lower d.name).Nodup ∧
    ∀ d, d ∈ r.interfaces c ↔
      d ∈ r.classes ∧ ∃ a ∈ c :: r.ancestors c, TransGen r.Implements a d := by
  refine ⟨fun n hn => ?_, (r.nodup_key_spread [] (r.references c)).2, fun d => ?_⟩
  · obtain ⟨seen, hrun⟩ := Search.iterate_start r c
    have hsteps := r.steps_le_searchBound c
    rw [show n = (n - Search.steps r c) + Search.steps r c by omega, Function.iterate_add_apply,
      hrun, Function.iterate_fixed rfl]
    rfl
  · rw [mem_interfaces_iff]
    refine ⟨fun h => ⟨?_, h⟩, And.right⟩
    obtain ⟨a, -, hpath⟩ := h
    obtain ⟨e, -, hlast⟩ := Relation.TransGen.tail'_iff.1 hpath
    exact hlast.mem

end LazyClasses.Registry
