import LazyClasses.LazyClass.Ghost
import Mathlib.Tactic.ByContra
import Mathlib.Tactic.SplitIfs
/-! # Which classes have a ghost

A ghost makes six demands on its class, in a fixed order. If all are met, there is a ghost; if not,
the first that is not met is the reason of the refusal.

* `IsFirst`: the first element of a list that has a property.
* `Registry.Nearest`: the method that a name means on a class, as the first one of that name among
  the methods of the class, of its ancestors and of its interfaces.
* `GhostDemand`, `Meets`, `Reports`: the demands, when a class meets one, and the obstacle that is
  reported for one that it does not meet.
* `obstacleTo?_eq_none_iff`, `obstacleTo?_eq_some_iff`: each check is the check of its demand.
* `ghost_eq_iff`: a class has a ghost iff it meets every demand, and otherwise the first one that it
  does not meet is reported. -/

namespace LazyClasses

/-! ### The first of a list -/

section IsFirst

variable {α β : Type} {p : α → Prop} {l : List α} {a b : α}

/-- The element is the first of the list that has the property. -/
def IsFirst (p : α → Prop) (l : List α) (a : α) : Prop :=
  ∃ before after, l = before ++ a :: after ∧ p a ∧ ∀ b ∈ before, ¬p b

theorem find?_eq_some_iff_isFirst {q : α → Bool} :
    l.find? q = some a ↔ IsFirst (q · = true) l a := by
  rw [List.find?_eq_some_iff_append]
  constructor
  · rintro ⟨hq, before, after, rfl, hbefore⟩
    exact ⟨before, after, rfl, hq, by simpa using hbefore⟩
  · rintro ⟨before, after, rfl, hq, hbefore⟩
    exact ⟨hq, before, after, rfl, by simpa using hbefore⟩

theorem IsFirst.unique (ha : IsFirst p l a) (hb : IsFirst p l b) : a = b := by
  classical
  have hfind {c : α} (hc : IsFirst p l c) : l.find? (fun x => decide (p x)) = some c :=
    find?_eq_some_iff_isFirst.2 (by simpa using hc)
  exact Option.some.inj ((hfind ha).symm.trans (hfind hb))

/-- A search by several checks ends with the first of them that finds something. -/
theorem findSome?_eq_some_iff_isFirst {f : α → Option β} {found : β}
    (hp : ∀ a, f a = none ↔ ¬p a) :
    l.findSome? f = some found ↔ ∃ a, IsFirst p l a ∧ f a = some found := by
  rw [List.findSome?_eq_some_iff]
  constructor
  · rintro ⟨before, a, after, rfl, hfound, hbefore⟩
    have ha : p a := by
      by_contra hno
      rw [(hp a).2 hno] at hfound
      cases hfound
    exact ⟨a, ⟨before, after, rfl, ha, fun b hb => (hp b).1 (hbefore b hb)⟩, hfound⟩
  · rintro ⟨a, ⟨before, after, rfl, -, hbefore⟩, hfound⟩
    exact ⟨before, a, after, rfl, hfound, fun b hb => (hp b).2 (hbefore b hb)⟩

theorem findSome?_cons_eq_or (f : α → Option β) (a : α) (l : List α) :
    (a :: l).findSome? f = (f a).or (l.findSome? f) := by
  cases h : f a with
  | none => rw [List.findSome?_cons, h, Option.none_or]
  | some b => rw [List.findSome?_cons, h, Option.some_or]

end IsFirst

/-! ### Looking up a method -/

namespace Registry

variable {r : Registry} {c : ClassDecl} {name : String} {m : Method}

/-- The methods among which a name is looked up: those of the class itself, of its ancestors,
nearest first, and of its interfaces. -/
def inReach (r : Registry) (c : ClassDecl) : List Method :=
  (c :: (r.ancestors c ++ r.interfaces c)).flatMap ClassDecl.methods

/-- The method is the nearest one of the name. -/
def Nearest (r : Registry) (c : ClassDecl) (name : String) (m : Method) : Prop :=
  IsFirst (fun n => Text.same n.name name = true) (r.inReach c) m

/-- **A name means the nearest method of that name.** -/
theorem method?_eq_some_iff : r.method? c name = some m ↔ r.Nearest c name m := by
  rw [Nearest, ← find?_eq_some_iff_isFirst, inReach, List.find?_flatMap]
  rfl

theorem method?_eq_none_iff : r.method? c name = none ↔ ∀ m, ¬r.Nearest c name m := by
  rw [Option.eq_none_iff_forall_ne_some]
  exact forall_congr' fun m => not_congr method?_eq_some_iff

end Registry

/-! ### The demands -/

/-- The class is not internal, or it is the one internal class that a lazy class may extend. -/
def ClassDecl.UserDefined (sentinel : String) (c : ClassDecl) : Prop :=
  c.isInternal = true → Text.same c.name sentinel = true

theorem ClassDecl.isForeign_eq_true_iff {sentinel : String} {c : ClassDecl} :
    c.isForeign sentinel = true ↔ ¬c.UserDefined sentinel := by
  rw [isForeign, UserDefined, Bool.and_eq_true, Bool.not_eq_true', ← Bool.not_eq_true,
    Classical.not_imp]

/-- What a ghost demands of its class. -/
inductive GhostDemand where
  /-- The class may be extended. -/
  | extensible
  /-- It can have objects of its own. -/
  | concrete
  | userDefined
  /-- Its `__get`, if it has one, may return anything. -/
  | openGetter
  /-- The methods of the ghost trait may be declared. -/
  | overridable
  | userDefinedAncestors
deriving DecidableEq, Repr

/-- The demands in the order in which they are checked. -/
def GhostDemand.all : List GhostDemand :=
  [.extensible, .concrete, .userDefined, .openGetter, .overridable, .userDefinedAncestors]

theorem GhostDemand.mem_all (demand : GhostDemand) : demand ∈ all := by
  cases demand <;> decide

namespace Generator

variable {g : Generator} {c : ClassDecl}

/-- What the name means on the class is a final method. -/
def IsSealed (g : Generator) (c : ClassDecl) (name : String) : Prop :=
  ∃ m, g.registry.Nearest c name m ∧ m.isFinal = true

/-- When the class meets a demand. -/
def Meets (g : Generator) (c : ClassDecl) : GhostDemand → Prop
  | .extensible => c.isFinal = false
  | .concrete => c.kind = .plainClass ∧ c.isAbstract = false
  | .userDefined => c.UserDefined g.options.sentinel
  | .openGetter => ∀ m, g.registry.Nearest c "__get" m → ∀ hint, m.returnType = some hint →
      hint.render (g.registry.scope m.declaringClass) .full = "mixed"
  | .overridable => ∀ name ∈ Support.ghostMethods, ¬g.IsSealed c name
  | .userDefinedAncestors => ∀ a ∈ g.registry.ancestors c, a.UserDefined g.options.sentinel

/-- The obstacle that is reported for a demand. -/
inductive Reports (g : Generator) (c : ClassDecl) : GhostDemand → Obstacle → Prop
  | extensible : Reports g c .extensible .finalClass
  | concrete : Reports g c .concrete .notConcrete
  | userDefined : Reports g c .userDefined .internalClass
  | openGetter {m hint} : g.registry.Nearest c "__get" m → m.returnType = some hint →
      Reports g c .openGetter
        (.incompatibleGetter (hint.render (g.registry.scope m.declaringClass) .full))
  | overridable {name m} : IsFirst (g.IsSealed c) Support.ghostMethods name →
      g.registry.Nearest c name m → Reports g c .overridable (.finalMethod m.name)
  | userDefinedAncestors {a} :
      IsFirst (fun a => ¬a.UserDefined g.options.sentinel) (g.registry.ancestors c) a →
      Reports g c .userDefinedAncestors (.internalAncestor a.name)

theorem nearest_unique {name : String} {m n : Method} (hm : g.registry.Nearest c name m)
    (hn : g.registry.Nearest c name n) : m = n := IsFirst.unique hm hn

theorem Reports.unique {demand : GhostDemand} {o o' : Obstacle} (h : Reports g c demand o)
    (h' : Reports g c demand o') : o = o' := by
  cases h with
  | extensible | concrete | userDefined => cases h'; rfl
  | openGetter hm hhint =>
    cases h' with
    | openGetter hm' hhint' =>
      obtain rfl := nearest_unique hm hm'
      obtain rfl := Option.some.inj (hhint.symm.trans hhint')
      rfl
  | overridable hname hm =>
    cases h' with
    | overridable hname' hm' =>
      obtain rfl := hname.unique hname'
      rw [nearest_unique hm hm']
  | userDefinedAncestors ha =>
    cases h' with
    | userDefinedAncestors ha' => rw [ha.unique ha']

/-! ### The checks -/

/-- The check of a demand. -/
def obstacleTo? (g : Generator) (c : ClassDecl) : GhostDemand → Option Obstacle
  | .extensible => if c.isFinal then some .finalClass else none
  | .concrete => if c.isConcrete then none else some .notConcrete
  | .userDefined => if c.isForeign g.options.sentinel then some .internalClass else none
  | .openGetter => g.getterObstacle? c
  | .overridable => g.traitObstacle? c
  | .userDefinedAncestors => g.ancestorObstacle? c

/-- The demands are checked one after the other. -/
theorem ghostObstacle?_eq : g.ghostObstacle? c = GhostDemand.all.findSome? (g.obstacleTo? c) := by
  -- The first three demands are one check, which stops at the first of them that fails.
  have hshape : g.shapeObstacle? c = (g.obstacleTo? c .extensible).or
      ((g.obstacleTo? c .concrete).or (g.obstacleTo? c .userDefined)) := by
    simp only [shapeObstacle?, obstacleTo?, Bool.not_eq_true']
    cases c.isFinal <;> cases c.isConcrete <;> rfl
  simp only [GhostDemand.all, findSome?_cons_eq_or, List.findSome?_nil, Option.or_none]
  rw [ghostObstacle?, hshape, Option.or_assoc, Option.or_assoc]
  rfl

/-- A method without a result type counts as one of type `mixed`. -/
theorem getterType_eq_mixed_iff {m : Method} : g.getterType m = "mixed" ↔
    ∀ hint, m.returnType = some hint →
      hint.render (g.registry.scope m.declaringClass) .full = "mixed" := by
  rw [getterType]
  cases m.returnType with
  | none => simp
  | some hint => simp

theorem getterObstacle?_eq_none_iff : g.getterObstacle? c = none ↔ g.Meets c .openGetter := by
  rw [Meets]
  unfold getterObstacle?
  cases hm : g.registry.method? c "__get" with
  | none => exact iff_of_true rfl fun m hnear => absurd hnear (Registry.method?_eq_none_iff.1 hm m)
  | some m =>
    have hnear := Registry.method?_eq_some_iff.1 hm
    have hmixed : g.getterType m = "mixed" ↔ ∀ n, g.registry.Nearest c "__get" n →
        ∀ hint, n.returnType = some hint →
          hint.render (g.registry.scope n.declaringClass) .full = "mixed" := by
      rw [getterType_eq_mixed_iff]
      exact ⟨fun h n hn => nearest_unique hnear hn ▸ h, fun h => h m hnear⟩
    rw [← hmixed]
    simp

theorem getterObstacle?_reports {o : Obstacle} (h : g.getterObstacle? c = some o) :
    Reports g c .openGetter o := by
  unfold getterObstacle? at h
  split at h
  · rename_i m hm
    split_ifs at h with hmixed
    obtain rfl := Option.some.inj h
    rw [getterType] at hmixed ⊢
    cases hhint : m.returnType with
    | none =>
      rw [hhint] at hmixed
      exact absurd rfl hmixed
    | some hint => exact .openGetter (Registry.method?_eq_some_iff.1 hm) hhint
  · cases h

/-- What is found for one name of the ghost trait. -/
def sealedUnder? (g : Generator) (c : ClassDecl) (name : String) : Option Obstacle :=
  match g.registry.method? c name with
  | some m => if m.isFinal then some (.finalMethod m.name) else none
  | none => none

theorem sealedUnder?_eq_some_iff {name : String} {o : Obstacle} :
    g.sealedUnder? c name = some o ↔
      ∃ m, g.registry.Nearest c name m ∧ m.isFinal = true ∧ o = .finalMethod m.name := by
  simp only [← Registry.method?_eq_some_iff]
  unfold sealedUnder?
  cases g.registry.method? c name with
  | none => simp
  | some m =>
    simp only [Option.some.injEq, exists_eq_left', Option.ite_none_right_eq_some, @eq_comm _ o]

theorem sealedUnder?_eq_none_iff (name : String) :
    g.sealedUnder? c name = none ↔ ¬g.IsSealed c name := by
  rw [Option.eq_none_iff_forall_ne_some, IsSealed, not_exists]
  simp only [ne_eq, sealedUnder?_eq_some_iff]
  constructor
  · exact fun h m hm => h _ ⟨m, hm.1, hm.2, rfl⟩
  · rintro h o ⟨m, hm, hfinal, -⟩
    exact h m ⟨hm, hfinal⟩

theorem traitObstacle?_eq_none_iff : g.traitObstacle? c = none ↔ g.Meets c .overridable := by
  rw [Meets]
  exact List.findSome?_eq_none_iff.trans
    (forall₂_congr fun name _ => g.sealedUnder?_eq_none_iff name)

theorem traitObstacle?_reports {o : Obstacle} (h : g.traitObstacle? c = some o) :
    Reports g c .overridable o := by
  obtain ⟨name, hfirst, hfound⟩ :=
    (findSome?_eq_some_iff_isFirst (f := g.sealedUnder? c) sealedUnder?_eq_none_iff).1 h
  obtain ⟨m, hm, -, rfl⟩ := sealedUnder?_eq_some_iff.1 hfound
  exact .overridable hfirst hm

theorem ancestorObstacle?_eq_none_iff :
    g.ancestorObstacle? c = none ↔ g.Meets c .userDefinedAncestors := by
  rw [Meets, ancestorObstacle?, Option.map_eq_none_iff, List.find?_eq_none]
  refine forall₂_congr fun a _ => ?_
  rw [ClassDecl.isForeign_eq_true_iff, not_not]

theorem ancestorObstacle?_reports {o : Obstacle} (h : g.ancestorObstacle? c = some o) :
    Reports g c .userDefinedAncestors o := by
  obtain ⟨a, ha, rfl⟩ := Option.map_eq_some_iff.1 h
  have hfirst := find?_eq_some_iff_isFirst.1 ha
  simp only [ClassDecl.isForeign_eq_true_iff] at hfirst
  exact .userDefinedAncestors hfirst

/-- **A check finds nothing iff its demand is met.** -/
theorem obstacleTo?_eq_none_iff (demand : GhostDemand) :
    g.obstacleTo? c demand = none ↔ g.Meets c demand := by
  cases demand with
  | extensible => simp [obstacleTo?, Meets]
  | concrete => simp [obstacleTo?, Meets, ClassDecl.isConcrete]
  | userDefined => simp [obstacleTo?, Meets, ClassDecl.isForeign_eq_true_iff]
  | openGetter => exact getterObstacle?_eq_none_iff
  | overridable => exact traitObstacle?_eq_none_iff
  | userDefinedAncestors => exact ancestorObstacle?_eq_none_iff

/-- **What a check finds is what its demand reports.** -/
theorem obstacleTo?_reports {demand : GhostDemand} {o : Obstacle}
    (h : g.obstacleTo? c demand = some o) : Reports g c demand o := by
  cases demand with
  | extensible =>
    rw [obstacleTo?] at h
    split_ifs at h
    obtain rfl := Option.some.inj h
    exact .extensible
  | concrete =>
    rw [obstacleTo?] at h
    split_ifs at h
    obtain rfl := Option.some.inj h
    exact .concrete
  | userDefined =>
    rw [obstacleTo?] at h
    split_ifs at h
    obtain rfl := Option.some.inj h
    exact .userDefined
  | openGetter => exact getterObstacle?_reports h
  | overridable => exact traitObstacle?_reports h
  | userDefinedAncestors => exact ancestorObstacle?_reports h

theorem obstacleTo?_eq_some_iff {demand : GhostDemand} {o : Obstacle} :
    g.obstacleTo? c demand = some o ↔ ¬g.Meets c demand ∧ Reports g c demand o := by
  rw [← obstacleTo?_eq_none_iff]
  constructor
  · intro h
    exact ⟨by simp [h], obstacleTo?_reports h⟩
  · rintro ⟨hsome, hreports⟩
    obtain ⟨found, hfound⟩ := Option.ne_none_iff_exists'.1 hsome
    rw [hfound, (obstacleTo?_reports hfound).unique hreports]

/-! ### The ghost -/

theorem ghostObstacle?_eq_none_iff :
    g.ghostObstacle? c = none ↔ ∀ demand, g.Meets c demand := by
  rw [ghostObstacle?_eq, List.findSome?_eq_none_iff]
  simp only [obstacleTo?_eq_none_iff, GhostDemand.mem_all, forall_const]

theorem ghostObstacle?_eq_some_iff {o : Obstacle} : g.ghostObstacle? c = some o ↔
    ∃ demand, IsFirst (¬g.Meets c ·) GhostDemand.all demand ∧ Reports g c demand o := by
  rw [ghostObstacle?_eq, findSome?_eq_some_iff_isFirst (p := (¬g.Meets c ·))]
  · refine exists_congr fun demand => and_congr_right fun hfirst => ?_
    obtain ⟨before, after, -, hno, -⟩ := hfirst
    rw [obstacleTo?_eq_some_iff, and_iff_right hno]
  · intro demand
    rw [obstacleTo?_eq_none_iff, not_not]

/-- **A class has a ghost iff it meets every demand.** If it does not, it is refused for the first
demand, in the order of `GhostDemand.all`, that it does not meet. -/
theorem ghost_eq_iff (g : Generator) (cache : ScopeCache) (c : ClassDecl) :
    ((∃ made, g.ghost cache c = .ok made) ↔ ∀ demand, g.Meets c demand) ∧
      ∀ refusal, g.ghost cache c = .error refusal ↔
        ∃ demand obstacle, IsFirst (¬g.Meets c ·) GhostDemand.all demand ∧
          Reports g c demand obstacle ∧ refusal = ⟨.ghost, c.name, obstacle⟩ := by
  rw [← ghostObstacle?_eq_none_iff, ghost]
  cases h : g.ghostObstacle? c with
  | none =>
    refine ⟨iff_of_true ⟨_, rfl⟩ rfl, fun refusal => iff_of_false nofun ?_⟩
    rintro ⟨demand, obstacle, hfirst, hreports, -⟩
    have hfound := ghostObstacle?_eq_some_iff.2 ⟨demand, hfirst, hreports⟩
    rw [h] at hfound
    cases hfound
  | some obstacle =>
    refine ⟨iff_of_false nofun nofun, fun refusal => ?_⟩
    constructor
    · intro hrefusal
      obtain ⟨demand, hfirst, hreports⟩ := ghostObstacle?_eq_some_iff.1 h
      exact ⟨demand, obstacle, hfirst, hreports, (Except.error.inj hrefusal).symm⟩
    · rintro ⟨demand, obstacle', hfirst, hreports, rfl⟩
      have hfound := ghostObstacle?_eq_some_iff.2 ⟨demand, hfirst, hreports⟩
      rw [Option.some.inj (h.symm.trans hfound)]

end Generator

end LazyClasses
