import LazyClasses.Proofs.OwnInterfaces
import LazyClasses.Proofs.ReferenceSpelling
/-! # Types and subtypes

A known class is of a type iff a known class of that name is reached from it, by parents first and
by interface references from there. So the question is settled by the graph of known classes.

* `isA_iff_reached`: that reading of the question.
* `isA_preorder`: it is reflexive, and where interfaces have no parents it is transitive too.
* `Declares`: the references that stand in the hierarchy of a class.
* `isA_declared`: a class is of a type it declares iff that type is known. -/

namespace LazyClasses.Registry

open Relation (ReflTransGen TransGen)

variable {r : Registry} {a b c d : ClassDecl} {p type : String}

theorem isA_iff_find? (hc : c ∈ r.classes) :
    r.isA c type = true ↔ ∃ d ∈ c :: r.supertypes c, r.find? type = some d := by
  have hmem : ∀ d ∈ c :: r.supertypes c, d ∈ r.classes := by
    intro d hd
    obtain ⟨a, hup, haside⟩ := (mem_types_iff hc).1 hd
    exact mem_of_path Implements.mem (mem_of_path Extends.mem hc hup) haside
  rw [isA, List.any_eq_true]
  refine exists_congr fun d => and_congr_right fun hd => ?_
  rw [Text.same_iff]
  exact ⟨find?_of_key (hmem d hd), key_of_find?⟩

/-- **A known class is of a type** iff a known class of that name is reached from it. -/
theorem isA_iff_reached (hc : c ∈ r.classes) : r.isA c type = true ↔
    ∃ d, r.find? type = some d ∧
      ∃ a, ReflTransGen r.Extends c a ∧ ReflTransGen r.Implements a d := by
  rw [isA_iff_find? hc]
  constructor
  · rintro ⟨d, hd, hfind⟩
    exact ⟨d, hfind, (mem_types_iff hc).1 hd⟩
  · rintro ⟨d, hfind, hreached⟩
    exact ⟨d, (mem_types_iff hc).2 hreached, hfind⟩

/-! ### A preorder -/

theorem find?_own_name (hc : c ∈ r.classes) (hname : ¬ ClassName.Rooted c.name) :
    r.find? c.name = some c :=
  find?_of_key hc <| by rw [ClassName.key, ClassName.bare_of_not_rooted hname]; rfl

/-- From a class without a parent there is no way up. -/
theorem eq_of_extends (hb : b.parent = none) (h : ReflTransGen r.Extends b d) : d = b := by
  rcases Relation.ReflTransGen.cases_head h with rfl | ⟨e, ⟨name, hname, -⟩, -⟩
  · rfl
  · rw [hb] at hname
    cases hname

/-- Where interfaces have no parents, the way up from what the way aside reaches leads nowhere
new. -/
theorem parent_eq_none_of_implements (ha : a ∈ r.classes)
    (horphans : ∀ c ∈ r.classes, ∀ d, r.Implements c d → d.parent = none)
    (h : TransGen r.Implements a b) : b.parent = none := by
  obtain ⟨e, hpath, hlast⟩ := Relation.TransGen.tail'_iff.1 h
  exact horphans e (mem_of_path Implements.mem ha hpath) b hlast

/-- **Being of a type is a preorder on the known classes**, if no name begins with `\` and no class
that is referred to as an interface has a parent. -/
theorem isA_preorder (hnames : ∀ c ∈ r.classes, ¬ ClassName.Rooted c.name)
    (horphans : ∀ c ∈ r.classes, ∀ d, r.Implements c d → d.parent = none) :
    (∀ a ∈ r.classes, r.isA a a.name = true) ∧
    ∀ a ∈ r.classes, ∀ b ∈ r.classes, r.isA a b.name = true →
      ∀ type, r.isA b type = true → r.isA a type = true := by
  refine ⟨fun a ha => ?_, fun a ha b hb hab type hbt => ?_⟩
  · exact (isA_iff_reached ha).2 ⟨a, find?_own_name ha (hnames a ha), a, .refl, .refl⟩
  obtain ⟨b', hb', up, hup, haside⟩ := (isA_iff_reached ha).1 hab
  obtain rfl : b = b' := Option.some.inj ((find?_own_name hb (hnames b hb)).symm.trans hb')
  obtain ⟨d, hd, up', hup', haside'⟩ := (isA_iff_reached hb).1 hbt
  refine (isA_iff_reached ha).2 ⟨d, hd, ?_⟩
  rcases Relation.reflTransGen_iff_eq_or_transGen.1 haside with rfl | htrans
  · -- The second class is an ancestor of the first, so the ways up join.
    exact ⟨up', hup.trans hup', haside'⟩
  · -- The second class is an interface of the first, so the ways aside join.
    have hknown := mem_of_path Extends.mem ha hup
    have hparent := parent_eq_none_of_implements hknown horphans htrans
    obtain rfl := eq_of_extends hparent hup'
    exact ⟨up, hup, haside.trans haside'⟩

end LazyClasses.Registry

namespace LazyClasses.Sample

open Registry Relation

/-- Two classes that extend each other, the second of which implements an interface. -/
def broker : ClassDecl where
  name := "Broker"
  parent := some "Agent"

def agent : ClassDecl where
  name := "Agent"
  parent := some "Broker"
  interfaces := ["Supplier"]

/-- The registry of both, and of two interfaces that extend each other. -/
def market : Registry := insertAll ∅ [supplier, consumer, broker, agent]

/-- The broker is an agent, agents are consumers, and so is the broker. -/
theorem broker_isA_consumer :
    (∀ c ∈ market.classes, ¬ ClassName.Rooted c.name) ∧
    (∀ c ∈ market.classes, ∀ d, market.Implements c d → d.parent = none) ∧
    market.isA broker "Broker" = true ∧ market.isA broker "Agent" = true ∧
    market.isA agent "\\CONSUMER" = true ∧ market.isA broker "\\CONSUMER" = true := by
  have hbroker : broker ∈ market.classes := by decide
  have hagent : agent ∈ market.classes := by decide
  have hnames : ∀ c ∈ market.classes, ¬ ClassName.Rooted c.name := by decide +kernel
  have horphans : ∀ c ∈ market.classes, ∀ d, market.Implements c d → d.parent = none := by
    have hparents : ∀ c ∈ market.classes, ∀ name ∈ c.interfaces,
        ((market.find? name).bind ClassDecl.parent) = none := by decide +kernel
    rintro c hc d ⟨name, hname, hd⟩
    have hparent := hparents c hc name hname
    rwa [hd] at hparent
  have hup : market.isA broker "Agent" = true := by
    refine (isA_iff_reached hbroker).2 ⟨agent, by decide, agent, .single ?_, .refl⟩
    exact ⟨"Agent", rfl, by decide⟩
  have haside : market.isA agent "\\CONSUMER" = true := by
    have hfirst : market.Implements agent supplier := ⟨"Supplier", by decide, by decide⟩
    have hsecond : market.Implements supplier consumer := ⟨"Consumer", by decide, by decide⟩
    exact (isA_iff_reached hagent).2
      ⟨consumer, by decide +kernel, agent, .refl, .tail (.single hfirst) hsecond⟩
  obtain ⟨hrefl, htrans⟩ := isA_preorder hnames horphans
  exact ⟨hnames, horphans, hrefl broker hbroker, hup, haside,
    htrans broker hbroker agent hagent hup _ haside⟩

end LazyClasses.Sample

namespace LazyClasses.Registry

variable {r : Registry} {c d : ClassDecl} {p type : String}

/-! ### Types that are declared -/

/-- The reference stands in the hierarchy of the class: it or one of its ancestors names it as its
parent or among its interfaces, or one of its interfaces extends it. -/
def Declares (r : Registry) (c : ClassDecl) (p : String) : Prop :=
  (∃ a ∈ c :: r.ancestors c, p ∈ a.parent ∨ p ∈ a.interfaces) ∨
    ∃ i ∈ r.interfaces c, p ∈ i.interfaces

/-- What is declared and known is reached. -/
theorem Declares.mem_types (hc : c ∈ r.classes) (hp : r.Declares c p) (hd : r.find? p = some d) :
    d ∈ c :: r.supertypes c := by
  rw [mem_types_iff hc]
  rcases hp with ⟨a, ha, hparent | hinterface⟩ | ⟨i, hi, hinterface⟩
  · exact ⟨d, ((mem_chain_iff hc).1 ha).tail ⟨p, hparent, hd⟩, .refl⟩
  · exact ⟨a, (mem_chain_iff hc).1 ha, .single ⟨p, hinterface, hd⟩⟩
  · obtain ⟨a, ha, hpath⟩ := mem_interfaces_iff.1 hi
    exact ⟨a, (mem_chain_iff hc).1 ha, hpath.to_reflTransGen.tail ⟨p, hinterface, hd⟩⟩

/-- **A class is of a type that it declares iff that type is known**, in any case of letters and
with or without a leading `\`. -/
theorem isA_declared (hc : c ∈ r.classes) (hp : r.Declares c p)
    (htype : ClassName.key type = ClassName.key p) : r.isA c type = r.contains type := by
  rw [Bool.eq_iff_iff, isA_iff_find? hc, contains, Option.isSome_iff_exists]
  constructor
  · rintro ⟨d, -, hd⟩
    exact ⟨d, hd⟩
  · rintro ⟨d, hd⟩
    refine ⟨d, hp.mem_types hc ?_, hd⟩
    rw [find?, ← htype]
    exact hd

end LazyClasses.Registry

namespace LazyClasses.Sample

open Registry

/-- A class that declares a type nobody knows and an interface with a parent. -/
def playlist : ClassDecl where
  name := "Playlist"
  interfaces := ["Countable", "Ordered"]

def ordered : ClassDecl where
  name := "Ordered"
  kind := .interface
  parent := some "Arranged"

def arranged : ClassDecl where
  name := "Arranged"
  kind := .interface

/-- The registry of the three. -/
def media : Registry := insertAll ∅ [playlist, ordered, arranged]

theorem supertypes_playlist : media.supertypes playlist = [ordered] := by
  have hcountable : media.find? "Countable" = none := by decide
  have hordered : media.find? "Ordered" = some ordered := by decide
  rw [supertypes, interfaces_eq_spread, references, ancestors_of_parent_eq_none _ rfl]
  change media.spread [] ["Countable", "Ordered"] = _
  rw [spread_of_find?_eq_none hcountable, spread_of_find?_eq_some hordered, if_neg (by decide)]
  change ordered :: media.spread _ [] = _
  rw [spread]

/-- The interface that is known counts in any spelling. -/
theorem playlist_isA_ordered : playlist ∈ media.classes ∧ media.Declares playlist "Ordered" ∧
    ClassName.key "\\ORDERED" = ClassName.key "Ordered" ∧
      media.isA playlist "\\ORDERED" = true := by
  have hmem : playlist ∈ media.classes := by decide
  have hdeclares : media.Declares playlist "Ordered" :=
    .inl ⟨playlist, List.mem_cons_self, .inr (by decide)⟩
  have hkey : ClassName.key "\\ORDERED" = ClassName.key "Ordered" := by decide
  exact ⟨hmem, hdeclares, hkey, (isA_declared hmem hdeclares hkey).trans (by decide +kernel)⟩

/-- **A type that nobody knows does not count**, although the class names it among its interfaces;
nor does the parent of an interface, although it is known. -/
theorem playlist_not_isA : playlist ∈ media.classes ∧ playlist.normalize = playlist ∧
    ("Countable" ∈ playlist.interfaces ∧ media.isA playlist "Countable" = false) ∧
    ordered ∈ media.interfaces playlist ∧ "Arranged" ∈ ordered.parent ∧
      media.contains "Arranged" = true ∧ media.isA playlist "Arranged" = false := by
  have hinterfaces : media.interfaces playlist = [ordered] := by
    have h := supertypes_playlist
    rwa [supertypes, ancestors_of_parent_eq_none _ rfl, List.nil_append] at h
  refine ⟨by decide, by decide, ⟨by decide, ?_⟩, ?_, rfl, by decide, ?_⟩
  · rw [isA, supertypes_playlist]
    decide
  · rw [hinterfaces]
    exact List.mem_singleton_self _
  · rw [isA, supertypes_playlist]
    decide

end LazyClasses.Sample
