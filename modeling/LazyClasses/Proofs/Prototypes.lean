import LazyClasses.Proofs.CollectedMethods
import LazyClasses.Proofs.Subtypes
/-! # Prototypes

The declaration that a method overrides or implements stands in a class above the one that declares
the method. Where references do not run in circles, whoever goes from a method to its prototype, to
the prototype of that one and so on, comes higher with each step and so to an end.

* `Inherits`, `Acyclic`: the references of both kinds together.
* `Attributed`: each method says which class declares it.
* `overridden?`: the declaration after so many steps.
* `holder_of_prototype?`, `holder_of_overridden?`: one step and many steps lead upwards.
* `exists_tower`: so a declaration after `n` steps has `n` classes above each other under it.
* `prototypes_ascend`: no step leads back, no declaration comes twice, and the steps come to an end
  before they are as many as the known classes. -/

namespace LazyClasses.Registry

open Relation (ReflTransGen TransGen)

variable {r : Registry} {c d e : ClassDecl} {m p : Method}

/-- The first class refers to the second one, as its parent or among its interfaces. -/
def Inherits (r : Registry) (c d : ClassDecl) : Prop := r.Extends c d ∨ r.Implements c d

/-- No way along references leads back. -/
def Acyclic (r : Registry) : Prop := ∀ c ∈ r.classes, ¬TransGen r.Inherits c c

/-- What a method names as its declaring class means the class that holds the method. -/
def Attributed (r : Registry) : Prop :=
  ∀ c ∈ r.classes, ∀ m ∈ c.methods, r.find? m.declaringClass = some c

/-- The declaration after `n` steps from a method to its prototype. -/
def overridden? (r : Registry) : Nat → Method → Option Method
  | 0, m => some m
  | n + 1, m => (r.prototype? m).bind (r.overridden? n)

/-! ### Upwards -/

theorem Inherits.mem (h : r.Inherits c d) : d ∈ r.classes := h.elim Extends.mem Implements.mem

theorem inherits_of_mem_supertypes (h : d ∈ r.supertypes c) : TransGen r.Inherits c d := by
  have hup {a : ClassDecl} (ha : a ∈ r.ancestors c) : TransGen r.Inherits c a :=
    Relation.TransGen.mono (fun _ _ => Or.inl) _ _ (extends_of_mem_ancestors ha)
  rcases List.mem_append.1 h with h | h
  · exact hup h
  · obtain ⟨a, ha, hpath⟩ := mem_interfaces_iff.1 h
    have haside : TransGen r.Inherits a d := Relation.TransGen.mono (fun _ _ => Or.inr) _ _ hpath
    rcases List.mem_cons.1 ha with rfl | ha
    · exact haside
    · exact (hup ha).trans haside

theorem mem_of_inherits (h : TransGen r.Inherits c d) : d ∈ r.classes :=
  mem_of_transGen Inherits.mem h

/-- A class that a way along references leads to is another one, and is not of the type of the class
that the way comes from. -/
theorem Acyclic.isA_eq_false (hacyclic : r.Acyclic)
    (hnames : ∀ c ∈ r.classes, ¬ClassName.Rooted c.name) (hc : c ∈ r.classes)
    (h : TransGen r.Inherits c d) : r.isA d c.name = false := by
  rw [← Bool.not_eq_true, isA_iff_find? (mem_of_inherits h)]
  rintro ⟨e, he, hfind⟩
  obtain rfl : c = e := Option.some.inj ((find?_own_name hc (hnames c hc)).symm.trans hfind)
  rcases List.mem_cons.1 he with rfl | he
  · exact hacyclic c hc h
  · exact hacyclic c hc (h.trans (inherits_of_mem_supertypes he))

/-! ### One step -/

theorem prototype?_of_find? (hopen : m.isPrivate = false) (hc : r.find? m.declaringClass = some c) :
    r.prototype? m =
      (((r.ancestors c).filterMap (·.method? m.name)).find? fun p => !p.isPrivate).or
        ((r.interfaces c).findSome? (·.method? m.name)) := by
  rw [prototype?, hopen, hc]
  rfl

/-- A declaration of the nearest ancestor that is not private comes first. -/
theorem prototype?_of_ancestor (hopen : m.isPrivate = false)
    (hc : r.find? m.declaringClass = some c) (hd : (r.ancestors c).head? = some d)
    (hp : d.method? m.name = some p) (hpopen : p.isPrivate = false) : r.prototype? m = some p := by
  obtain ⟨rest, hrest⟩ := List.head?_eq_some_iff.1 hd
  rw [prototype?_of_find? hopen hc, hrest, List.filterMap_cons, hp]
  simp [hpopen]

theorem find?_of_prototype? (h : r.prototype? m = some p) :
    ∃ c d, r.find? m.declaringClass = some c ∧ d ∈ r.supertypes c ∧
      d.method? m.name = some p := by
  cases hopen : m.isPrivate with
  | true =>
    rw [prototype?, hopen] at h
    cases h
  | false =>
    cases hc : r.find? m.declaringClass with
    | none =>
      rw [prototype?, hopen, hc] at h
      cases h
    | some c =>
      rw [prototype?_of_find? hopen hc] at h
      rcases Option.or_eq_some_iff.1 h with h | ⟨-, h⟩
      · obtain ⟨d, hd, hp⟩ := List.mem_filterMap.1 (List.mem_of_find?_eq_some h)
        exact ⟨c, d, rfl, List.mem_append_left _ hd, hp⟩
      · obtain ⟨d, hd, hp⟩ := List.exists_of_findSome?_eq_some h
        exact ⟨c, d, rfl, List.mem_append_right _ hd, hp⟩

/-- **One step** leads to a declaration of the same name that a supertype of the class holds. -/
theorem holder_of_prototype? (hattributed : r.Attributed) (hc : c ∈ r.classes) (hm : m ∈ c.methods)
    (h : r.prototype? m = some p) :
    ∃ d ∈ r.supertypes c, p ∈ d.methods ∧ Text.same p.name m.name = true := by
  obtain ⟨c', d, hfind, hd, hp⟩ := find?_of_prototype? h
  obtain rfl : c = c' := Option.some.inj ((hattributed c hc m hm).symm.trans hfind)
  exact ⟨d, hd, mem_of_method? hp, same_of_method? hp⟩

/-! ### Many steps -/

theorem overridden?_add (r : Registry) (i j : Nat) :
    ∀ m, r.overridden? (i + j) m = (r.overridden? i m).bind (r.overridden? j) := by
  induction i with
  | zero =>
    intro m
    rw [Nat.zero_add, overridden?, Option.bind_some]
  | succ i ih =>
    intro m
    rw [Nat.succ_add, overridden?, overridden?, Option.bind_assoc]
    exact congrArg _ (funext ih)

theorem overridden?_succ_eq_some {n : Nat} (h : r.overridden? (n + 1) m = some p) :
    ∃ q, r.prototype? m = some q ∧ r.overridden? n q = some p :=
  Option.bind_eq_some_iff.1 h

/-- **Many steps** lead to a declaration that a class above holds, if not to the method itself. -/
theorem holder_of_overridden? (hattributed : r.Attributed) (n : Nat) :
    ∀ {c : ClassDecl} {m : Method}, c ∈ r.classes → m ∈ c.methods → r.overridden? n m = some p →
      ∃ d ∈ r.classes, p ∈ d.methods ∧ ReflTransGen r.Inherits c d := by
  induction n with
  | zero =>
    intro c m hc hm h
    obtain rfl := Option.some.inj h
    exact ⟨c, hc, hm, .refl⟩
  | succ n ih =>
    intro c m hc hm h
    obtain ⟨q, hq, hp⟩ := overridden?_succ_eq_some h
    obtain ⟨d, hd, hqd, -⟩ := holder_of_prototype? hattributed hc hm hq
    have hcd := inherits_of_mem_supertypes hd
    obtain ⟨e, he, hpe, hde⟩ := ih (mem_of_inherits hcd) hqd hp
    exact ⟨e, he, hpe, hcd.to_reflTransGen.trans hde⟩

/-- After one step at least the class is above. -/
theorem holder_of_overridden?_succ (hattributed : r.Attributed) {n : Nat} (hc : c ∈ r.classes)
    (hm : m ∈ c.methods) (h : r.overridden? (n + 1) m = some p) :
    ∃ d, p ∈ d.methods ∧ TransGen r.Inherits c d := by
  obtain ⟨q, hq, hp⟩ := overridden?_succ_eq_some h
  obtain ⟨d, hd, hqd, -⟩ := holder_of_prototype? hattributed hc hm hq
  have hcd := inherits_of_mem_supertypes hd
  obtain ⟨e, -, hpe, hde⟩ := holder_of_overridden? hattributed n (mem_of_inherits hcd) hqd hp
  exact ⟨e, hpe, hcd.trans_left hde⟩

/-- **No declaration comes twice**, where no way leads back. -/
theorem overridden?_ne (hacyclic : r.Acyclic) (hattributed : r.Attributed) (hc : c ∈ r.classes)
    (hm : m ∈ c.methods) {i j : Nat} (hij : i < j) (hi : r.overridden? i m = some p) :
    r.overridden? j m ≠ some p := by
  intro hj
  obtain ⟨k, rfl⟩ := Nat.exists_eq_add_of_lt hij
  rw [Nat.add_assoc, overridden?_add, hi, Option.bind_some] at hj
  obtain ⟨d, hd, hpd, -⟩ := holder_of_overridden? hattributed i hc hm hi
  obtain ⟨e, hpe, hde⟩ := holder_of_overridden?_succ hattributed hd hpd hj
  -- The declaration says which class holds it, so both are one class.
  have hsame := (hattributed d hd p hpd).symm.trans (hattributed e (mem_of_inherits hde) p hpe)
  rw [← Option.some.inj hsame] at hde
  exact hacyclic d hd hde

/-- A declaration after `n` steps has `n` classes above the one that declares the method, each below
those that come later. -/
theorem exists_tower (hattributed : r.Attributed) (n : Nat) : ∀ {c : ClassDecl} {m : Method},
    c ∈ r.classes → m ∈ c.methods → r.overridden? n m = some p →
      ∃ l, l.length = n ∧ (c :: l).Pairwise (TransGen r.Inherits) := by
  induction n with
  | zero =>
    intro c m _ _ _
    exact ⟨[], rfl, List.pairwise_singleton _ _⟩
  | succ n ih =>
    intro c m hc hm h
    obtain ⟨q, hq, hp⟩ := overridden?_succ_eq_some h
    obtain ⟨d, hd, hqd, -⟩ := holder_of_prototype? hattributed hc hm hq
    have hcd := inherits_of_mem_supertypes hd
    obtain ⟨l, hlength, hpairs⟩ := ih (mem_of_inherits hcd) hqd hp
    refine ⟨d :: l, by simp [hlength], List.pairwise_cons.2 ⟨fun a ha => ?_, hpairs⟩⟩
    rcases List.mem_cons.1 ha with rfl | ha
    · exact hcd
    · exact hcd.trans ((List.pairwise_cons.1 hpairs).1 a ha)

/-- Where no way leads back, fewer classes stand above a class than there are. -/
theorem Acyclic.length_lt_size (hacyclic : r.Acyclic) (hc : c ∈ r.classes) {l : List ClassDecl}
    (h : (c :: l).Pairwise (TransGen r.Inherits)) : l.length < r.size := by
  have hmem : ∀ a ∈ c :: l, a ∈ r.classes := by
    intro a ha
    rcases List.mem_cons.1 ha with rfl | ha
    · exact hc
    · exact mem_of_inherits ((List.pairwise_cons.1 h).1 a ha)
  have hnodup : (c :: l).Nodup := by
    refine h.imp_of_mem fun {a b} ha _ hab => ?_
    rintro rfl
    exact hacyclic a (hmem a ha) hab
  have hle := (List.subperm_of_subset hnodup hmem).length_le
  rw [List.length_cons] at hle
  exact hle

/-! ### Ranks -/

section Rank

variable {rank : ClassDecl → Nat} (hrank : ∀ c ∈ r.classes, ∀ d, r.Inherits c d → rank c < rank d)
include hrank

theorem rank_lt_of_inherits (hc : c ∈ r.classes) (h : TransGen r.Inherits c d) :
    rank c < rank d := by
  induction h with
  | single hstep => exact hrank c hc _ hstep
  | tail hpath hstep ih => exact ih.trans (hrank _ (mem_of_inherits hpath) _ hstep)

/-- **Where each reference leads to a higher rank, no way leads back.** -/
theorem acyclic_of_rank : r.Acyclic :=
  fun _ hc h => Nat.lt_irrefl _ (rank_lt_of_inherits hrank hc h)

/-- The ranks limit how many classes stand above each other. -/
theorem rank_add_length_le {n : Nat} (hn : ∀ d ∈ r.classes, rank d ≤ n) : ∀ {l : List ClassDecl}
    {c : ClassDecl}, c ∈ r.classes → (c :: l).Pairwise (TransGen r.Inherits) →
      rank c + l.length ≤ n
  | [], c, hc, _ => hn c hc
  | d :: l, c, hc, h => by
    obtain ⟨hfirst, hrest⟩ := List.pairwise_cons.1 h
    have hcd := hfirst d List.mem_cons_self
    have hlt := rank_lt_of_inherits hrank hc hcd
    have hle := rank_add_length_le hn (mem_of_inherits hcd) hrest
    rw [List.length_cons]
    omega

end Rank

/-- **Prototypes ascend.** Where references do not run in circles, no name begins with `\` and each
method says which class declares it, the prototype of a method has its name and stands in another
class, of whose type the declaring class is but not the other way round. So whoever goes on to the
prototype of that one comes to no declaration twice, and after as many steps as there are classes
none is left. -/
theorem prototypes_ascend (hacyclic : r.Acyclic)
    (hnames : ∀ c ∈ r.classes, ¬ClassName.Rooted c.name) (hattributed : r.Attributed) :
    (∀ c ∈ r.classes, ∀ m ∈ c.methods, ∀ p, r.prototype? m = some p →
      ∃ d ∈ r.classes, d ≠ c ∧ p ∈ d.methods ∧ Text.same p.name m.name = true ∧
        r.isA c d.name = true ∧ r.isA d c.name = false) ∧
    ∀ c ∈ r.classes, ∀ m ∈ c.methods,
      (∀ i j p, i < j → r.overridden? i m = some p → r.overridden? j m ≠ some p) ∧
        r.overridden? r.size m = none := by
  refine ⟨fun c hc m hm p hp => ?_, fun c hc m hm => ⟨fun i j p => ?_, ?_⟩⟩
  · obtain ⟨d, hd, hpd, hname⟩ := holder_of_prototype? hattributed hc hm hp
    have hcd := inherits_of_mem_supertypes hd
    have hknown := mem_of_inherits hcd
    refine ⟨d, hknown, ?_, hpd, hname, ?_, hacyclic.isA_eq_false hnames hc hcd⟩
    · rintro rfl
      exact hacyclic d hc hcd
    · exact (isA_iff_find? hc).2
        ⟨d, List.mem_cons_of_mem _ hd, find?_own_name hknown (hnames d hknown)⟩
  · exact overridden?_ne hacyclic hattributed hc hm
  · rw [Option.eq_none_iff_forall_ne_some]
    intro p hp
    obtain ⟨l, hlength, hpairs⟩ := exists_tower hattributed r.size hc hm hp
    have hlt := hacyclic.length_lt_size hc hpairs
    omega

end LazyClasses.Registry

namespace LazyClasses.Sample

open Registry

/-- A class that overrides a method, which its parent implements for an interface that extends
another one. -/
def bookshelf : ClassDecl where
  name := "Bookshelf"
  parent := some "Shelf"
  methods := [{ name := "COUNT", declaringClass := "Bookshelf" }]

def shelf : ClassDecl where
  name := "Shelf"
  interfaces := ["Measured"]
  methods := [{ name := "count", declaringClass := "Shelf" }]

def measured : ClassDecl where
  name := "Measured"
  kind := .interface
  interfaces := ["Counted"]

def counted : ClassDecl where
  name := "Counted"
  kind := .interface
  methods := [{ name := "count", isAbstract := true, declaringClass := "Counted" }]

/-- The registry of all four. -/
def furniture : Registry := insertAll ∅ [bookshelf, shelf, measured, counted]

/-- How far up a class stands. -/
def storey (c : ClassDecl) : Nat := ["bookshelf", "shelf", "measured", "counted"].idxOf c.key

theorem acyclic_furniture : furniture.Acyclic := by
  have hall : ∀ c ∈ furniture.classes, ∀ name ∈ c.parent.toList ++ c.interfaces,
      (furniture.find? name).all fun d => decide (storey c < storey d) := by decide +kernel
  have hrank : ∀ c ∈ furniture.classes, ∀ d, furniture.Inherits c d → storey c < storey d := by
    rintro c hc d (⟨name, hname, hd⟩ | ⟨name, hname, hd⟩)
    · have h := hall c hc name (List.mem_append_left _ (Option.mem_toList.2 hname))
      rwa [hd, Option.all_some, decide_eq_true_eq] at h
    · have h := hall c hc name (List.mem_append_right _ hname)
      rwa [hd, Option.all_some, decide_eq_true_eq] at h
  exact acyclic_of_rank hrank

theorem prototype?_bookshelf :
    furniture.prototype? { name := "COUNT", declaringClass := "Bookshelf" } =
      some { name := "count", declaringClass := "Shelf" } := by
  have hbookshelf : furniture.find? "Bookshelf" = some bookshelf := by decide
  have hshelf : furniture.find? "Shelf" = some shelf := by decide
  have hnearest : (furniture.ancestors bookshelf).head? = some shelf := by
    rw [ancestors]
    change (furniture.climb _ (some "Shelf")).head? = _
    rw [climb_of_find?_eq_some hshelf, if_neg (by decide)]
    rfl
  exact prototype?_of_ancestor rfl hbookshelf hnearest (by decide) rfl

/-- The method of the parent is the prototype, and after five steps none is left. -/
theorem bookshelf_ascends :
    furniture.Acyclic ∧ (∀ c ∈ furniture.classes, ¬ClassName.Rooted c.name) ∧
    furniture.Attributed ∧
    (∃ d ∈ furniture.classes, d ≠ bookshelf ∧
      { name := "count", declaringClass := "Shelf" } ∈ d.methods ∧
      furniture.isA bookshelf d.name = true ∧ furniture.isA d "Bookshelf" = false) ∧
    furniture.overridden? 5 { name := "COUNT", declaringClass := "Bookshelf" } = none := by
  have hnames : ∀ c ∈ furniture.classes, ¬ClassName.Rooted c.name := by decide +kernel
  have hattributed : furniture.Attributed := by
    unfold Attributed
    decide +kernel
  have hc : bookshelf ∈ furniture.classes := by decide
  have hm : { name := "COUNT", declaringClass := "Bookshelf" } ∈ bookshelf.methods := by decide
  obtain ⟨hstep, hrun⟩ := prototypes_ascend acyclic_furniture hnames hattributed
  obtain ⟨d, hd, hne, hp, -, hup, hback⟩ := hstep bookshelf hc _ hm _ prototype?_bookshelf
  exact ⟨acyclic_furniture, hnames, hattributed, ⟨d, hd, hne, hp, hup, hback⟩,
    (hrun bookshelf hc _ hm).2⟩

end LazyClasses.Sample
