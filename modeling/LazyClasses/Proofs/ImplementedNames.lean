import LazyClasses.Proofs.Declared
/-! # The names in an `implements` clause

A proxy implements the interfaces that were asked for, each once, and behind them the support
library's own.

* `interfaceNames_eq`: the names are those of the first interface of each key.
* `pairwise_idxOf_firstBy`: they stand in the order of their first occurrences.
* `nodup_implemented_iff`: no name stands twice unless the support library's own interface was
  asked for.
* `implements_requested`: what the clause of a written proxy holds. -/

namespace LazyClasses

/-! ### First occurrences -/

section FirstBy

variable {α : Type} {key : α → String}

/-- Each key that occurs is taken. -/
theorem mem_map_key_firstBy_nil_iff {k : String} {l : List α} :
    k ∈ (firstBy key [] l).map key ↔ k ∈ l.map key := by
  have hmem (l : List α) : k ∈ l.map key ↔ (l.find? (key · == k)).isSome = true := by
    simp [List.find?_isSome]
  rw [hmem, hmem, find?_key_firstBy List.not_mem_nil]

/-- **What is taken stands in the order of first occurrences.** -/
theorem pairwise_idxOf_firstBy : ∀ (seen : List String) (l : List α),
    (firstBy key seen l).Pairwise fun a b =>
      (l.map key).idxOf (key a) < (l.map key).idxOf (key b)
  | _, [] => List.Pairwise.nil
  | seen, c :: l => by
    -- behind an element that comes first, all positions move by one
    have hshift {s : List String} (hs : key c ∈ s) :
        (firstBy key s l).Pairwise fun a b =>
          ((c :: l).map key).idxOf (key a) < ((c :: l).map key).idxOf (key b) := by
      refine (pairwise_idxOf_firstBy s l).imp_of_mem fun ha hb hlt => ?_
      have hne {a : α} (ha : a ∈ firstBy key s l) : key c ≠ key a :=
        fun e => (mem_of_mem_firstBy ha).2 (e ▸ hs)
      rw [List.map_cons, List.idxOf_cons_ne _ (hne ha), List.idxOf_cons_ne _ (hne hb)]
      exact Nat.succ_lt_succ hlt
    unfold firstBy
    split_ifs with hc
    · exact hshift hc
    · refine List.pairwise_cons.2 ⟨fun b hb => ?_, hshift List.mem_cons_self⟩
      have hne : key c ≠ key b := fun e => (mem_of_mem_firstBy hb).2 (e ▸ List.mem_cons_self)
      rw [List.map_cons, List.idxOf_cons_self, List.idxOf_cons_ne _ hne]
      exact Nat.succ_pos _

end FirstBy

/-! ### Names of interfaces -/

namespace Target

/-- The interfaces that give the names: of each key the first. -/
def namedInterfaces (t : Target) : List ClassDecl := firstBy ClassDecl.key [] t.interfaces

theorem interfaceNames_eq (t : Target) :
    t.interfaceNames = t.namedInterfaces.map ClassDecl.name := rfl

end Target

namespace Proxy

variable {options : Options} {p : Proxy}

/-- The interface of the support library. -/
def ownInterface (options : Options) : String := options.symbol "LazyObjectInterface"

theorem implemented_eq (options : Options) (p : Proxy) : p.implemented options =
    p.target.namedInterfaces.map (fun i => "\\" ++ i.name) ++ [ownInterface options] := by
  rw [implemented, Target.interfaceNames_eq, List.map_map]
  rfl

theorem map_lower_implemented (options : Options) (p : Proxy) :
    (p.implemented options).map Text.lower =
      (p.target.namedInterfaces.map ClassDecl.key).map ("\\" ++ ·) ++
        [Text.lower (ownInterface options)] := by
  rw [implemented_eq, List.map_append, List.map_singleton, List.map_map, List.map_map]
  exact congrArg (· ++ _) (List.map_congr_left fun i _ => Text.lower_separator i.name)

/-- Each interface that was asked for is among the names. -/
theorem memIgnoreCase_implemented {i : ClassDecl} (hi : i ∈ p.target.interfaces) :
    Text.memIgnoreCase ("\\" ++ i.name) (p.implemented options) = true := by
  have hkey : i.key ∈ p.target.namedInterfaces.map ClassDecl.key :=
    mem_map_key_firstBy_nil_iff.2 (List.mem_map_of_mem hi)
  have hmem : Text.lower ("\\" ++ i.name) ∈ (p.implemented options).map Text.lower := by
    rw [map_lower_implemented, Text.lower_separator]
    exact List.mem_append_left _ (List.mem_map_of_mem hkey)
  obtain ⟨name, hname, hlower⟩ := List.mem_map.1 hmem
  exact Text.memIgnoreCase_iff.2 ⟨name, hname, hlower.symm⟩

/-- **No name stands twice**, unless the support library's own interface was asked for. -/
theorem nodup_implemented_iff : ((p.implemented options).map Text.lower).Nodup ↔
    ∀ i ∈ p.target.interfaces, Text.same ("\\" ++ i.name) (ownInterface options) = false := by
  have hrequested : ((p.target.namedInterfaces.map ClassDecl.key).map ("\\" ++ ·)).Nodup :=
    (nodup_key_firstBy [] _).map fun _ _ => (String.append_right_inj "\\").1
  rw [map_lower_implemented, List.nodup_append]
  simp only [hrequested, List.nodup_singleton, true_and, List.mem_singleton, forall_eq,
    List.forall_mem_map]
  constructor
  · intro hnew i hi
    obtain ⟨first, hfirst, hkey⟩ :=
      List.mem_map.1 (mem_map_key_firstBy_nil_iff.2 (List.mem_map_of_mem (f := ClassDecl.key) hi))
    rw [← Bool.not_eq_true, Text.same_iff, Text.lower_separator]
    exact fun hsame => hnew first hfirst (hkey ▸ hsame)
  · intro hnew first hfirst hsame
    have hsame' := hnew first (mem_of_mem_firstBy hfirst).1
    rw [← Bool.not_eq_true, Text.same_iff, Text.lower_separator] at hsame'
    exact hsame' hsame

/-- The clause in the text: behind the class that is extended, if there is one. -/
theorem body_generated (options : Options) (p : Proxy) : ∃ back, (p.generated options).body =
    (p.target.cls.map fun c => " extends \\" ++ c.name).getD "" ++ " implements " ++
      ", ".intercalate (p.implemented options) ++ "\n\x7b\n    use " ++ back := by
  simp only [generated, String.append_assoc]
  cases p.target.cls <;> exact ⟨_, rfl⟩

end Proxy

namespace Generator

variable {g : Generator} {t : Target}

/-- **What the clause holds**: the names of the interfaces that were asked for, each once and in
the order of their first occurrences, and behind them the support library's own. So no name stands
twice iff that was not asked for. -/
theorem implements_requested {cache cache' : ScopeCache} {p : Proxy}
    (h : g.proxy cache t = .ok (p, cache')) :
    (((p.implemented g.options).map Text.lower).Nodup ↔ ∀ i ∈ t.interfaces,
      Text.same ("\\" ++ i.name) (g.options.symbol "LazyObjectInterface") = false) ∧
    (∀ i ∈ t.interfaces,
      Text.memIgnoreCase ("\\" ++ i.name) (p.implemented g.options) = true) ∧
    (∃ requested : List ClassDecl,
      p.implemented g.options = requested.map (fun i => "\\" ++ i.name) ++
        [g.options.symbol "LazyObjectInterface"] ∧
      (∀ i ∈ requested, i ∈ t.interfaces) ∧
      requested.Pairwise fun a b =>
        (t.interfaces.map ClassDecl.key).idxOf a.key <
          (t.interfaces.map ClassDecl.key).idxOf b.key) ∧
    ∃ back, (p.generated g.options).body =
      (t.cls.map fun c => " extends \\" ++ c.name).getD "" ++ " implements " ++
      ", ".intercalate (p.implemented g.options) ++ "\n\x7b\n    use " ++ back := by
  obtain ⟨-, rfl, -, -⟩ := proxy_eq_ok h
  refine ⟨Proxy.nodup_implemented_iff, fun i hi => Proxy.memIgnoreCase_implemented hi,
    ⟨p.target.namedInterfaces, Proxy.implemented_eq _ _, fun i hi => (mem_of_mem_firstBy hi).1,
      pairwise_idxOf_firstBy [] p.target.interfaces⟩, Proxy.body_generated _ _⟩

end Generator

namespace Sample

open Generator

/-- The support library's interface, as a class that is known. -/
def lazyObject : ClassDecl where
  name := "Symfony\\Component\\VarExporter\\LazyObjectInterface"
  kind := .interface

/-- The generator that knows it. -/
def lazyObjects : Generator where
  registry := Registry.insertAll ∅ [lazyObject]

/-- Any object of that interface. -/
def anyLazyObject : Target := ⟨none, [lazyObject]⟩

theorem proxyObstacle?_anyLazyObject : lazyObjects.proxyObstacle? anyLazyObject = none :=
  proxyObstacle?_of_candidates (candidates_of_no_reference (by decide)) (by decide) rfl
    (by decide) (by decide)

/-- A class and an interface that have nothing to do with the support library. -/
theorem bagCollection_implements : ∃ p cache',
    collections.proxy ∅ bagCollection = .ok (p, cache') ∧
      ((p.implemented collections.options).map Text.lower).Nodup := by
  obtain ⟨p, cache', h⟩ := exists_proxy ∅ proxyObstacle?_bagCollection
  refine ⟨p, cache', h, (implements_requested h).1.2 ?_⟩
  decide

/-- **The support library's interface stands twice** in the clause if it was asked for. -/
theorem lazyObject_twice : ∃ p cache',
    lazyObjects.proxy ∅ anyLazyObject = .ok (p, cache') ∧
      p.implemented lazyObjects.options =
        ["\\Symfony\\Component\\VarExporter\\LazyObjectInterface",
          "\\Symfony\\Component\\VarExporter\\LazyObjectInterface"] ∧
      ¬ ((p.implemented lazyObjects.options).map Text.lower).Nodup := by
  obtain ⟨p, cache', h⟩ := exists_proxy ∅ proxyObstacle?_anyLazyObject
  have hnames : p.implemented lazyObjects.options =
      ["\\Symfony\\Component\\VarExporter\\LazyObjectInterface",
        "\\Symfony\\Component\\VarExporter\\LazyObjectInterface"] := by
    rw [Proxy.implemented, (proxy_eq_ok h).2.1]
    decide
  refine ⟨p, cache', h, hnames, ?_⟩
  rw [hnames]
  decide

end Sample

end LazyClasses
