import LazyClasses.Hierarchy
import Mathlib.Data.List.Nodup
import Mathlib.Tactic.SplitIfs
/-! # The parent chain

* `nodup_key_chain`: no class stands twice in its own parent chain.
* `nodup_name_chain`: so the classes of a chain can be told by their names. -/

namespace LazyClasses.Registry

theorem ancestors_of_parent_eq_none (r : Registry) {c : ClassDecl} (h : c.parent = none) :
    r.ancestors c = [] := by
  rw [ancestors, h, climb]

theorem climb_of_find?_eq_none {r : Registry} {name : String} (h : r.find? name = none)
    (seen : List String) : r.climb seen (some name) = [] := by
  rw [climb]
  split
  · rfl
  · rename_i c hc
    rw [h] at hc
    cases hc

theorem climb_of_find?_eq_some {r : Registry} {name : String} {c : ClassDecl}
    (h : r.find? name = some c) (seen : List String) : r.climb seen (some name) =
      if c.key ∈ seen then [] else c :: r.climb (c.key :: seen) c.parent := by
  rw [climb]
  split
  · rename_i hnone
    rw [h] at hnone
    cases hnone
  · rename_i d hd
    rw [h] at hd
    cases hd
    rfl

/-- A class that is new to a walk goes in front of what the walk takes once it has passed it. -/
theorem nodup_key_cons {seen : List String} {c : ClassDecl} {l : List ClassDecl}
    (hc : c.key ∉ seen) (hl : ∀ a ∈ l, a.key ∉ c.key :: seen) (hn : (l.map ClassDecl.key).Nodup) :
    (∀ a ∈ c :: l, a.key ∉ seen) ∧ ((c :: l).map ClassDecl.key).Nodup := by
  constructor
  · intro a ha hmem
    rcases List.mem_cons.1 ha with rfl | ha
    · exact hc hmem
    · exact hl a ha (List.mem_cons_of_mem _ hmem)
  · rw [List.map_cons, List.nodup_cons]
    refine ⟨fun hmem => ?_, hn⟩
    obtain ⟨a, ha, hkey⟩ := List.mem_map.1 hmem
    exact hl a ha (hkey ▸ List.mem_cons_self)

theorem nodup_key_climb (r : Registry) (seen : List String) (next : Option String) :
    (∀ a ∈ r.climb seen next, a.key ∉ seen) ∧
      ((r.climb seen next).map ClassDecl.key).Nodup := by
  induction seen, next using climb.induct r with
  | case1 seen => simp [climb]
  | case2 seen name hnone => simp [climb_of_find?_eq_none hnone]
  | case3 seen name c hc hseen => simp [climb_of_find?_eq_some hc, hseen]
  | case4 seen name c hc hseen ih =>
    rw [climb_of_find?_eq_some hc, if_neg hseen]
    exact nodup_key_cons hseen ih.1 ih.2

/-- **No class stands twice in its chain.** -/
theorem nodup_key_chain (r : Registry) (c : ClassDecl) :
    ((c :: r.ancestors c).map ClassDecl.key).Nodup := by
  have h := r.nodup_key_climb [c.key] c.parent
  rw [List.map_cons, List.nodup_cons]
  refine ⟨fun hmem => ?_, h.2⟩
  obtain ⟨a, ha, hkey⟩ := List.mem_map.1 hmem
  exact h.1 a ha (hkey ▸ List.mem_singleton_self _)

theorem nodup_name_chain (r : Registry) (c : ClassDecl) :
    ((c :: r.ancestors c).map ClassDecl.name).Nodup := by
  have hkeys : (c :: r.ancestors c).map ClassDecl.key =
      ((c :: r.ancestors c).map ClassDecl.name).map Text.lower := (List.map_map ..).symm
  exact List.Nodup.of_map Text.lower (hkeys ▸ r.nodup_key_chain c)

end LazyClasses.Registry
