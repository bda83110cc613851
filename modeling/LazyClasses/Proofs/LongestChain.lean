import LazyClasses.Proofs.InterfaceSearch
/-! # The parent chain is as long as it can be

References to parents may lead nowhere and may run in circles, also in one that a class is not part
of. The way up from a class ends all the same, and not before it has to.

* `Ascent`: a way up on which no name comes twice. `ascent_ancestors`: the parent chain is one.
* `Ascent.prefix_ancestors`: any other one is a beginning of it.
* `ancestors_longest`: so it is the longest, and it ends for want of a parent or at a class that it
  has passed. -/

namespace LazyClasses.Registry

variable {r : Registry} {c d : ClassDecl}

/-- A way up from a class: each class is what the one before it refers to as its parent, and no two
of them, the first one included, have the same name. -/
structure Ascent (r : Registry) (c : ClassDecl) (l : List ClassDecl) : Prop where
  climbs : List.IsChain r.Extends (c :: l)
  distinct : ((c :: l).map fun d => Text.lower d.name).Nodup

theorem isChain_climb {seen : List String} {next : Option String} :
    ∀ {c : ClassDecl}, c.parent = next → List.IsChain r.Extends (c :: r.climb seen next) := by
  induction seen, next using climb.induct r with
  | case1 seen =>
    intro c _
    rw [climb]
    exact .singleton c
  | case2 seen name hnone =>
    intro c _
    rw [climb_of_find?_eq_none hnone]
    exact .singleton c
  | case3 seen name a ha hseen =>
    intro c _
    rw [climb_of_find?_eq_some ha, if_pos hseen]
    exact .singleton c
  | case4 seen name a ha hseen ih =>
    intro c hparent
    rw [climb_of_find?_eq_some ha, if_neg hseen]
    exact .cons_cons ⟨name, hparent, ha⟩ (ih rfl)

theorem ascent_ancestors (r : Registry) (c : ClassDecl) : r.Ascent c (r.ancestors c) :=
  ⟨isChain_climb rfl, r.nodup_key_chain c⟩

/-- A way up that meets nothing that a climb has passed is a beginning of what the climb takes. -/
theorem prefix_climb : ∀ {l : List ClassDecl} {c : ClassDecl} {seen : List String},
    List.IsChain r.Extends (c :: l) → (l.map ClassDecl.key).Nodup → (∀ a ∈ l, a.key ∉ seen) →
    l <+: r.climb seen c.parent
  | [], _, _, _, _, _ => List.nil_prefix
  | a :: l, c, seen, hclimbs, hdistinct, hnew => by
    obtain ⟨⟨name, hparent, ha⟩, hclimbs⟩ := List.isChain_cons_cons.1 hclimbs
    rw [List.map_cons, List.nodup_cons] at hdistinct
    rw [hparent, climb_of_find?_eq_some ha, if_neg (hnew a List.mem_cons_self),
      List.cons_prefix_cons]
    refine ⟨rfl, prefix_climb hclimbs hdistinct.2 fun b hb hmem => ?_⟩
    rcases List.mem_cons.1 hmem with hkey | hmem
    · exact hdistinct.1 (hkey ▸ List.mem_map_of_mem hb)
    · exact hnew b (List.mem_cons_of_mem _ hb) hmem

/-- **Every way up is a beginning of the parent chain.** -/
theorem Ascent.prefix_ancestors {l : List ClassDecl} (h : r.Ascent c l) : l <+: r.ancestors c := by
  have hdistinct := h.distinct
  rw [List.map_cons, List.nodup_cons] at hdistinct
  refine prefix_climb h.climbs hdistinct.2 fun a ha hmem => ?_
  rw [List.mem_singleton] at hmem
  exact hdistinct.1 (List.mem_map.2 ⟨a, ha, hmem⟩)

/-- A known class and its ancestors are no more than the known classes. -/
theorem length_ancestors_lt (hc : c ∈ r.classes) : (r.ancestors c).length < r.size := by
  have hnodup : (c :: r.ancestors c).Nodup := List.Nodup.of_map _ (r.nodup_key_chain c)
  have hknown : c :: r.ancestors c ⊆ r.classes := by
    intro a ha
    rcases List.mem_cons.1 ha with rfl | ha
    · exact hc
    · exact mem_of_mem_ancestors ha
  exact (List.subperm_of_subset hnodup hknown).length_le

/-- The parent of a class in the chain is in the chain, if it is known. -/
theorem mem_chain_of_extends (hc : c ∈ r.classes) {e : ClassDecl} (hd : d ∈ c :: r.ancestors c)
    (h : r.Extends d e) : e ∈ c :: r.ancestors c :=
  (mem_chain_iff hc).2 (((mem_chain_iff hc).1 hd).tail h)

/-- **The parent chain of a known class is the longest way up.** The loop that looks for it ends
within as many steps as there are known classes, one for each ancestor and one to stop. Every way
up is a beginning of the chain. It stops at a class without a parent, at a reference that means no
known class, or where the parent is a class of the chain itself. -/
theorem ancestors_longest (hc : c ∈ r.classes) :
    ((Search.step r c)^[(r.ancestors c).length + 1] (Search.start c) =
        Search.aside c (r.ancestors c) ∧ (r.ancestors c).length + 1 ≤ r.size) ∧
    r.Ascent c (r.ancestors c) ∧
    (∀ l, r.Ascent c l → l <+: r.ancestors c) ∧
    ∃ top ∈ (c :: r.ancestors c).getLast?, top.parent = none ∨
      (∃ name ∈ top.parent, r.find? name = none) ∨
      ∃ d ∈ c :: r.ancestors c, r.Extends top d := by
  refine ⟨⟨Search.iterate_climbing [c.key] c.parent [], length_ancestors_lt hc⟩,
    r.ascent_ancestors c, fun l => Ascent.prefix_ancestors, _,
    List.getLast?_eq_some_getLast (List.cons_ne_nil c _), ?_⟩
  have hmem := List.getLast_mem (List.cons_ne_nil c (r.ancestors c))
  generalize (c :: r.ancestors c).getLast _ = top at hmem
  cases hparent : top.parent with
  | none => exact .inl rfl
  | some name =>
    refine .inr ?_
    cases hname : r.find? name with
    | none => exact .inl ⟨name, rfl, hname⟩
    | some d =>
      have hextends : r.Extends top d := ⟨name, hparent, hname⟩
      exact .inr ⟨d, mem_chain_of_extends hc hmem hextends, hextends⟩

end LazyClasses.Registry

namespace LazyClasses.Sample

open Registry

/-- Two classes that extend each other. -/
def trunk : ClassDecl := { name := "Trunk", parent := some "Root" }

def root : ClassDecl := { name := "Root", parent := some "TRUNK" }

/-- A class above which they stand. -/
def branch : ClassDecl := { name := "Branch", parent := some "trunk" }

/-- The registry of all three. -/
def plant : Registry := insertAll ∅ [branch, trunk, root]

theorem ancestors_branch : plant.ancestors branch = [trunk, root] := by
  have htrunk {name : String} (h : ClassName.key name = "trunk") :
      plant.find? name = some trunk := by
    rw [find?, h]
    decide
  have hroot : plant.find? "Root" = some root := by decide
  rw [ancestors]
  change plant.climb _ (some "trunk") = _
  rw [climb_of_find?_eq_some (htrunk (by decide)), if_neg (by decide)]
  change trunk :: plant.climb _ (some "Root") = _
  rw [climb_of_find?_eq_some hroot, if_neg (by decide)]
  change trunk :: root :: plant.climb _ (some "TRUNK") = _
  rw [climb_of_find?_eq_some (htrunk (by decide)), if_pos (by decide)]

/-- **A circle that the class is not part of** ends the way up where it closes. -/
theorem branch_longest : branch ∈ plant.classes ∧ plant.ancestors branch = [trunk, root] ∧
    (Search.step plant branch)^[3] (Search.start branch) = Search.aside branch [trunk, root] ∧
    (∀ l, plant.Ascent branch l → l <+: [trunk, root]) := by
  have hmem : branch ∈ plant.classes := by decide
  obtain ⟨⟨hloop, -⟩, -, hlongest, -⟩ := ancestors_longest hmem
  rw [ancestors_branch] at hloop hlongest
  exact ⟨hmem, ancestors_branch, hloop, hlongest⟩

end LazyClasses.Sample
