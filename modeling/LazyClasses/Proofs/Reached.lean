import LazyClasses.Proofs.Ancestors
import LazyClasses.Proofs.FirstOfEach
import Mathlib.Logic.Relation
/-! # What the walks reach

References make the known classes a graph with two kinds of edges, which may run in circles. The
two walks of the hierarchy remember what they have passed, and what they take is what the edges
reach.

* `Extends`, `Implements`: the edges, from a class to its parent and to its interfaces.
* `climb_complete`, `spread_complete`: where a walk goes on, there it takes or has passed what comes
  next. With `climb_sound` and `spread_sound` this is the invariant of each walk.
* `mem_chain_iff`, `mem_interfaces_iff`: so a class with its ancestors is all that parents reach,
  and its interfaces are all that interface references reach from there.
* `mem_types_iff`: first up, then aside. -/

namespace LazyClasses.Registry

open Relation (ReflTransGen TransGen)

variable {r : Registry} {c d : ClassDecl}

/-- The first class refers to the second one as its parent. -/
def Extends (r : Registry) (c d : ClassDecl) : Prop := ∃ name ∈ c.parent, r.find? name = some d

/-- The first class refers to the second one among its interfaces. -/
def Implements (r : Registry) (c d : ClassDecl) : Prop :=
  ∃ name ∈ c.interfaces, r.find? name = some d

/-! ### Classes are told by their keys -/

theorem eq_of_same_key (hc : c ∈ r.classes) (hd : d ∈ r.classes) (h : c.key = d.key) : c = d :=
  List.inj_on_of_nodup_map r.nodup hc hd h

theorem key_of_find? {name : String} (h : r.find? name = some c) : c.key = ClassName.key name :=
  (mem_of_byKey? h).2

theorem find?_of_key (hc : c ∈ r.classes) {name : String} (h : c.key = ClassName.key name) :
    r.find? name = some c := by
  rw [find?, byKey?, ← h]
  exact find?_key r.nodup hc

theorem Extends.mem (h : r.Extends c d) : d ∈ r.classes := by
  obtain ⟨name, -, hname⟩ := h
  exact mem_of_find? hname

theorem Implements.mem (h : r.Implements c d) : d ∈ r.classes := by
  obtain ⟨name, -, hname⟩ := h
  exact mem_of_find? hname

/-- A path along edges that end in known classes does not leave them. -/
theorem mem_of_path {R : ClassDecl → ClassDecl → Prop} (hR : ∀ {a b}, R a b → b ∈ r.classes)
    (hc : c ∈ r.classes) (h : ReflTransGen R c d) : d ∈ r.classes := by
  induction h with
  | refl => exact hc
  | tail _ hstep _ => exact hR hstep

theorem mem_of_transGen {R : ClassDecl → ClassDecl → Prop} (hR : ∀ {a b}, R a b → b ∈ r.classes)
    (h : TransGen R c d) : d ∈ r.classes := by
  obtain ⟨e, -, hlast⟩ := Relation.TransGen.tail'_iff.1 h
  exact hR hlast

/-- What a walk takes or has passed behind a class was passed before, or is that class. -/
theorem passed_or_mem_cons {seen : List String} {l : List ClassDecl} (hc : c ∈ r.classes)
    (hd : d ∈ r.classes) (h : d.key ∈ c.key :: seen ∨ d ∈ l) : d.key ∈ seen ∨ d ∈ c :: l := by
  rcases h with h | h
  · rcases List.mem_cons.1 h with hkey | h
    · exact .inr (eq_of_same_key hd hc hkey ▸ List.mem_cons_self)
    · exact .inl h
  · exact .inr (List.mem_cons_of_mem _ h)

/-! ### The way up -/

/-- Parents lead to what a climb takes. -/
theorem climb_sound {seen : List String} {next : Option String} (h : d ∈ r.climb seen next) :
    ∃ name ∈ next, ∃ e, r.find? name = some e ∧ ReflTransGen r.Extends e d := by
  induction seen, next using climb.induct r with
  | case1 seen => simp [climb] at h
  | case2 seen name hnone => simp [climb_of_find?_eq_none hnone] at h
  | case3 seen name c hc hseen => simp [climb_of_find?_eq_some hc, hseen] at h
  | case4 seen name c hc hseen ih =>
    rw [climb_of_find?_eq_some hc, if_neg hseen] at h
    rcases List.mem_cons.1 h with rfl | h
    · exact ⟨name, rfl, d, hc, .refl⟩
    · obtain ⟨p, hp, e, he, hpath⟩ := ih h
      exact ⟨name, rfl, c, hc, .head ⟨p, hp, he⟩ hpath⟩

/-- A climb takes what the reference means, and the parent of what it takes, unless it has passed
them. -/
theorem climb_complete (r : Registry) (seen : List String) (next : Option String) :
    (∀ name ∈ next, ∀ e, r.find? name = some e → e.key ∈ seen ∨ e ∈ r.climb seen next) ∧
      ∀ e ∈ r.climb seen next, ∀ d, r.Extends e d → d.key ∈ seen ∨ d ∈ r.climb seen next := by
  induction seen, next using climb.induct r with
  | case1 seen => simp [climb]
  | case2 seen name hnone => simp [climb_of_find?_eq_none hnone, hnone]
  | case3 seen name c hc hseen =>
    rw [climb_of_find?_eq_some hc, if_pos hseen]
    refine ⟨?_, by simp⟩
    rintro _ ⟨⟩ e he
    exact .inl (Option.some.inj (hc.symm.trans he) ▸ hseen)
  | case4 seen name c hc hseen ih =>
    rw [climb_of_find?_eq_some hc, if_neg hseen]
    refine ⟨?_, fun e he d hed => passed_or_mem_cons (mem_of_find? hc) hed.mem ?_⟩
    · rintro _ ⟨⟩ e he
      exact .inr (Option.some.inj (hc.symm.trans he) ▸ List.mem_cons_self)
    · rcases List.mem_cons.1 he with rfl | he
      · obtain ⟨p, hp, hpd⟩ := hed
        exact ih.1 p hp d hpd
      · exact ih.2 e he d hed

theorem extends_of_mem_ancestors (h : d ∈ r.ancestors c) : TransGen r.Extends c d := by
  obtain ⟨p, hp, e, he, hpath⟩ := climb_sound h
  exact .head' ⟨p, hp, he⟩ hpath

theorem mem_of_mem_ancestors (h : d ∈ r.ancestors c) : d ∈ r.classes :=
  mem_of_transGen Extends.mem (extends_of_mem_ancestors h)

/-- **A class with its ancestors is all that parents reach.** -/
theorem mem_chain_iff (hc : c ∈ r.classes) :
    d ∈ c :: r.ancestors c ↔ ReflTransGen r.Extends c d := by
  obtain ⟨hfirst, hnext⟩ := r.climb_complete [c.key] c.parent
  constructor
  · intro h
    rcases List.mem_cons.1 h with rfl | h
    · exact .refl
    · exact (extends_of_mem_ancestors h).to_reflTransGen
  · intro h
    induction h with
    | refl => exact List.mem_cons_self
    | tail _ hstep ih =>
      -- The way up starts with nothing but the class itself behind it.
      refine (passed_or_mem_cons hc hstep.mem ?_).resolve_left List.not_mem_nil
      rcases List.mem_cons.1 ih with rfl | ih
      · obtain ⟨p, hp, he⟩ := hstep
        exact hfirst p hp _ he
      · exact hnext _ ih _ hstep

/-! ### The way aside -/

theorem spread_of_find?_eq_none {name : String} (h : r.find? name = none)
    (seen rest : List String) : r.spread seen (name :: rest) = r.spread seen rest := by
  rw [spread]
  split
  · rfl
  · rename_i c hc
    rw [h] at hc
    cases hc

theorem spread_of_find?_eq_some {name : String} (h : r.find? name = some c)
    (seen rest : List String) : r.spread seen (name :: rest) =
      if c.key ∈ seen then r.spread seen rest
      else c :: r.spread (c.key :: seen) (rest ++ c.interfaces) := by
  rw [spread]
  split
  · rename_i hnone
    rw [h] at hnone
    cases hnone
  · rename_i d hd
    rw [h] at hd
    cases hd
    rfl

theorem nodup_key_spread (r : Registry) (seen pending : List String) :
    (∀ a ∈ r.spread seen pending, a.key ∉ seen) ∧
      ((r.spread seen pending).map ClassDecl.key).Nodup := by
  induction seen, pending using spread.induct r with
  | case1 seen => simp [spread]
  | case2 seen name rest hnone ih => rwa [spread_of_find?_eq_none hnone]
  | case3 seen name rest c hc hseen ih => rwa [spread_of_find?_eq_some hc, if_pos hseen]
  | case4 seen name rest c hc hseen ih =>
    rw [spread_of_find?_eq_some hc, if_neg hseen]
    exact nodup_key_cons hseen ih.1 ih.2

/-- Interface references lead to what a spread takes. -/
theorem spread_sound {seen pending : List String} (h : d ∈ r.spread seen pending) :
    ∃ name ∈ pending, ∃ e, r.find? name = some e ∧ ReflTransGen r.Implements e d := by
  induction seen, pending using spread.induct r with
  | case1 seen => simp [spread] at h
  | case2 seen name rest hnone ih =>
    rw [spread_of_find?_eq_none hnone] at h
    obtain ⟨n, hn, hpath⟩ := ih h
    exact ⟨n, List.mem_cons_of_mem _ hn, hpath⟩
  | case3 seen name rest c hc hseen ih =>
    rw [spread_of_find?_eq_some hc, if_pos hseen] at h
    obtain ⟨n, hn, hpath⟩ := ih h
    exact ⟨n, List.mem_cons_of_mem _ hn, hpath⟩
  | case4 seen name rest c hc hseen ih =>
    rw [spread_of_find?_eq_some hc, if_neg hseen] at h
    rcases List.mem_cons.1 h with rfl | h
    · exact ⟨name, List.mem_cons_self, d, hc, .refl⟩
    · obtain ⟨n, hn, e, he, hpath⟩ := ih h
      rcases List.mem_append.1 hn with hn | hn
      · exact ⟨n, List.mem_cons_of_mem _ hn, e, he, hpath⟩
      · exact ⟨name, List.mem_cons_self, c, hc, .head ⟨n, hn, he⟩ hpath⟩

/-- A spread takes what the references mean, and the interfaces of what it takes, unless it has
passed them. -/
theorem spread_complete (r : Registry) (seen pending : List String) :
    (∀ name ∈ pending, ∀ e, r.find? name = some e → e.key ∈ seen ∨ e ∈ r.spread seen pending) ∧
      ∀ e ∈ r.spread seen pending, ∀ d, r.Implements e d →
        d.key ∈ seen ∨ d ∈ r.spread seen pending := by
  induction seen, pending using spread.induct r with
  | case1 seen => simp [spread]
  | case2 seen name rest hnone ih =>
    rw [spread_of_find?_eq_none hnone]
    refine ⟨fun n hn e he => ?_, ih.2⟩
    rcases List.mem_cons.1 hn with rfl | hn
    · rw [hnone] at he
      cases he
    · exact ih.1 n hn e he
  | case3 seen name rest c hc hseen ih =>
    rw [spread_of_find?_eq_some hc, if_pos hseen]
    refine ⟨fun n hn e he => ?_, ih.2⟩
    rcases List.mem_cons.1 hn with rfl | hn
    · exact .inl (Option.some.inj (hc.symm.trans he) ▸ hseen)
    · exact ih.1 n hn e he
  | case4 seen name rest c hc hseen ih =>
    rw [spread_of_find?_eq_some hc, if_neg hseen]
    refine ⟨fun n hn e he => ?_,
      fun e he d hed => passed_or_mem_cons (mem_of_find? hc) hed.mem ?_⟩
    · rcases List.mem_cons.1 hn with rfl | hn
      · exact .inr (Option.some.inj (hc.symm.trans he) ▸ List.mem_cons_self)
      · exact passed_or_mem_cons (mem_of_find? hc) (mem_of_find? he)
          (ih.1 n (List.mem_append_left _ hn) e he)
    · rcases List.mem_cons.1 he with rfl | he
      · obtain ⟨n, hn, hnd⟩ := hed
        exact ih.1 n (List.mem_append_right _ hn) d hnd
      · exact ih.2 e he d hed

/-- The interface references of a class and of its ancestors, with which the walk begins. -/
def references (r : Registry) (c : ClassDecl) : List String :=
  (c :: r.ancestors c).flatMap ClassDecl.interfaces

theorem interfaces_eq_spread (r : Registry) (c : ClassDecl) :
    r.interfaces c = r.spread [] (r.references c) := rfl

/-- **The interfaces of a class are all that interface references reach** from it and from its
ancestors. -/
theorem mem_interfaces_iff : d ∈ r.interfaces c ↔
    ∃ a ∈ c :: r.ancestors c, TransGen r.Implements a d := by
  obtain ⟨hfirst, hnext⟩ := r.spread_complete [] (r.references c)
  rw [interfaces_eq_spread]
  constructor
  · intro h
    obtain ⟨name, hname, e, he, hpath⟩ := spread_sound h
    obtain ⟨a, ha, hname⟩ := List.mem_flatMap.1 hname
    exact ⟨a, ha, .head' ⟨name, hname, he⟩ hpath⟩
  · rintro ⟨a, ha, hpath⟩
    induction hpath with
    | single hstep =>
      obtain ⟨name, hname, he⟩ := hstep
      exact (hfirst name (List.mem_flatMap.2 ⟨a, ha, hname⟩) _ he).resolve_left List.not_mem_nil
    | tail _ hstep ih => exact (hnext _ ih _ hstep).resolve_left List.not_mem_nil

theorem mem_of_mem_interfaces (h : d ∈ r.interfaces c) : d ∈ r.classes := by
  obtain ⟨a, -, hpath⟩ := mem_interfaces_iff.1 h
  exact mem_of_transGen Implements.mem hpath

/-- **What a class is and inherits from** is reached by parents first and by interface references
from there. -/
theorem mem_types_iff (hc : c ∈ r.classes) : d ∈ c :: r.supertypes c ↔
    ∃ a, ReflTransGen r.Extends c a ∧ ReflTransGen r.Implements a d := by
  rw [supertypes, ← List.cons_append, List.mem_append, mem_chain_iff hc, mem_interfaces_iff]
  constructor
  · rintro (h | ⟨a, ha, h⟩)
    · exact ⟨d, h, .refl⟩
    · exact ⟨a, (mem_chain_iff hc).1 ha, h.to_reflTransGen⟩
  · rintro ⟨a, ha, h⟩
    rcases Relation.reflTransGen_iff_eq_or_transGen.1 h with rfl | h
    · exact .inl ha
    · exact .inr ⟨a, (mem_chain_iff hc).2 ha, h⟩

end LazyClasses.Registry
