import LazyClasses.Proofs.DeclarationTexts
import LazyClasses.Proofs.Decisions
import Mathlib.Data.List.Basic
import Mathlib.Data.List.Find
/-! # What a proxy declares

A proxy that is written declares, of each name that the trait leaves free, the first method that is
`Required`, and no other; the text of a declaration is that of its method. In front stands `__get`,
if one promises another type than `mixed`.

* `proxy_eq_ok`: what a proxy consists of.
* `declarations_eq`: the declarations of a name.
* `writtenOut`, `declares_fallback`: they stand in the body.
* `declares_required`: the members of a proxy, said without the scan. -/

namespace LazyClasses

namespace Generator

variable {g : Generator} {t : Target}

theorem extendsInternal_of_parent_eq_none {c : ClassDecl} (hc : t.cls = some c)
    (hp : c.parent = none) : g.extendsInternal t = c.isForeign g.options.sentinel := by
  rw [extendsInternal, hc, Option.any_some, Registry.ancestors_of_parent_eq_none _ hp,
    List.any_cons, List.any_nil, Bool.or_false]

/-- The method as a proxy declares it again. -/
def forwarder (g : Generator) (m : Method) : Forwarder := ⟨m, g.registry.signature m true⟩

/-- The first method of the name in the list that the proxy has to declare. -/
def firstRequired? (g : Generator) (t : Target) (l : List Method) (name : String) :
    Option Method :=
  l.find? fun m => Text.same m.name name && (Required g t m : Bool)

theorem firstRequired?_isSome_iff {l : List Method} {name : String} :
    (g.firstRequired? t l name).isSome = true ↔
      ∃ m ∈ l, Text.same m.name name = true ∧ g.Required t m := by
  simp [firstRequired?, List.find?_isSome]

/-! ### From the scan to the proxy -/

/-- What a proxy that is written consists of. -/
theorem proxy_eq_ok {cache cache' : ScopeCache} {p : Proxy}
    (h : g.proxy cache t = .ok (p, cache')) :
    g.proxyObstacle? t = none ∧ p.target = t ∧
      p.getterType = (g.narrowGetter? t).map g.getterType ∧ p.forwarders = g.forwarders t := by
  unfold proxy at h
  split at h
  · cases h
  · rename_i hnone
    refine ⟨hnone, ?_⟩
    cases hc : t.cls <;> rw [hc] at h <;> cases h <;> exact ⟨rfl, rfl, rfl⟩

/-- A proxy is written unless something is in the way. -/
theorem exists_proxy (cache : ScopeCache) (h : g.proxyObstacle? t = none) :
    ∃ p cache', g.proxy cache t = .ok (p, cache') := by
  unfold proxy
  rw [h]
  cases t.cls <;> exact ⟨_, _, rfl⟩

theorem methodObstacle?_eq_none_iff : g.methodObstacle? t = none ↔ Unrefused (g.decisions t) := by
  rw [methodObstacle?, List.findSome?_eq_none_iff]
  refine forall₂_congr fun d _ => ?_
  obtain ⟨m, d⟩ := d
  cases d <;> simp

theorem unrefused_decisions (h : g.proxyObstacle? t = none) : Unrefused (g.decisions t) := by
  simp only [proxyObstacle?, Option.or_eq_none_iff] at h
  exact methodObstacle?_eq_none_iff.1 h.2.2

/-- Where nothing stands above the class and the interfaces, the methods that count are their
own. -/
theorem candidates_of_no_reference
    (h : ∀ c ∈ t.cls.toList ++ t.interfaces, c.parent = none ∧ c.interfaces = []) :
    g.candidates t =
      t.cls.toList.flatMap
          (fun c => (Registry.firstOfEach [] c.methods).filter fun m => !m.isPrivate) ++
        t.interfaces.flatMap fun i => Registry.firstOfEach [] i.methods := by
  have hmethods {c : ClassDecl} (hc : c ∈ t.cls.toList ++ t.interfaces) :
      g.registry.methods c = Registry.firstOfEach [] c.methods :=
    g.registry.methods_of_no_reference (h c hc).1 (h c hc).2
  rw [candidates, List.flatMap_congr fun c hc => by rw [hmethods (List.mem_append_left _ hc)],
    List.flatMap_congr fun i hi => hmethods (List.mem_append_right _ hi)]

/-- Nothing is in the way if the class is not internal, no `__get` is narrow, and no method in the
list of those that count is refused. -/
theorem proxyObstacle?_of_candidates {l : List Method} (hl : g.candidates t = l)
    (htarget : g.targetObstacle? t = none) (hinternal : g.extendsInternal t = false)
    (hgetter : ∀ m ∈ l, isGetter m = true → g.getterType m = "mixed")
    (hmethods : Unrefused (g.decideAll t false ⟨[], []⟩ l)) : g.proxyObstacle? t = none := by
  have hnarrow : g.narrowGetter? t = none := by
    rw [narrowGetter?, hl, List.find?_eq_none]
    simpa using hgetter
  have hmust : g.mustProxy t = false := by rw [mustProxy, hinternal, hnarrow]; rfl
  have hscan : Unrefused (g.decisions t) := by
    rwa [decisions, hmust, hl, atFirst, hnarrow]
  rw [proxyObstacle?, htarget, narrowGetterObstacle?, hnarrow, methodObstacle?_eq_none_iff.2 hscan]
  rfl

theorem forwarders_eq_map (g : Generator) (t : Target) :
    g.forwarders t = (forwarded (g.decisions t)).map g.forwarder := by
  rw [forwarders, forwarded, List.map_filterMap]
  refine List.filterMap_congr fun d _ => ?_
  obtain ⟨m, d⟩ := d
  cases d <;> rfl

/-- **The forwarders**: of the wanted methods the first of each name. -/
theorem forwarders_eq (h : g.proxyObstacle? t = none) :
    g.forwarders t = (firstBy Method.key (g.atFirst t).taken
      ((g.candidates t).filter (g.wanted t (g.mustProxy t)))).map g.forwarder := by
  rw [forwarders_eq_map, decisions, forwarded_decideAll (unrefused_decisions h)]

/-- From the start only `__get` can be taken. -/
theorem mem_atFirst_taken {k : String} (hk : k ∈ (g.atFirst t).taken) : k = "__get" := by
  unfold atFirst at hk
  split_ifs at hk
  · exact List.mem_singleton.1 hk
  · simp at hk

theorem lower_not_mem_taken {name : String} (hn : Support.isProxyMethod name = false) :
    Text.lower name ∉ (g.atFirst t).taken := by
  intro hk
  have hget : Text.lower name = Text.lower "__get" := by
    rw [mem_atFirst_taken hk]; decide
  rw [Support.isProxyMethod_congr hget] at hn
  exact absurd hn (by decide)

/-- What is declared has to be declared, and the trait does not define it. -/
theorem required_of_mem_forwarders {f : Forwarder} (h : g.proxyObstacle? t = none)
    (hf : f ∈ g.forwarders t) : f = g.forwarder f.method ∧ f.method ∈ g.candidates t ∧
      Support.isProxyMethod f.method.name = false ∧ g.Required t f.method := by
  rw [forwarders_eq h] at hf
  obtain ⟨m, hm, rfl⟩ := List.mem_map.1 hf
  have hmem := (mem_of_mem_firstBy hm).1
  rw [List.mem_filter, wanted_iff] at hmem
  exact ⟨rfl, hmem⟩

/-- **The declarations of a name** that the trait leaves free: the first method that has to be
declared. -/
theorem declarations_eq {cache cache' : ScopeCache} {p : Proxy}
    (h : g.proxy cache t = .ok (p, cache')) {name : String}
    (hn : Support.isProxyMethod name = false) :
    p.declarations name =
      ((g.firstRequired? t (g.candidates t) name).map g.forwarder).toList := by
  obtain ⟨hnone, -, -, hp⟩ := proxy_eq_ok h
  have hfind : ((g.candidates t).filter (g.wanted t (g.mustProxy t))).find?
      (·.key == Text.lower name) = g.firstRequired? t (g.candidates t) name := by
    rw [firstRequired?, List.find?_filter]
    refine List.find?_congr fun m _ => ?_
    rw [Method.same_name_eq, Bool.eq_iff_iff]
    simp only [Bool.and_eq_true, beq_iff_eq, decide_eq_true_eq]
    constructor
    · rintro ⟨hw, hk⟩
      exact ⟨hk, (wanted_iff.1 hw).2⟩
    · rintro ⟨hk, hr⟩
      exact ⟨wanted_iff.2 ⟨(Support.isProxyMethod_congr hk).trans hn, hr⟩, hk⟩
  rw [Proxy.declarations, hp, forwarders_eq hnone, List.filter_map]
  have hnew : Text.lower name ∉ (g.atFirst t).taken := lower_not_mem_taken hn
  have hfilter := @filter_key_firstBy _ Method.key _ _
    ((g.candidates t).filter (g.wanted t (g.mustProxy t))) hnew
  rw [hfind] at hfilter
  rw [show ((fun f : Forwarder => Text.same f.method.name name) ∘ g.forwarder) =
    fun m => m.key == Text.lower name from rfl, hfilter]
  cases g.firstRequired? t (g.candidates t) name <;> rfl

/-- A name that the trait defines has no declaration. -/
theorem declarations_eq_nil {cache cache' : ScopeCache} {p : Proxy}
    (h : g.proxy cache t = .ok (p, cache')) {name : String}
    (hn : Support.isProxyMethod name = true) : p.declarations name = [] := by
  obtain ⟨hnone, -, -, hp⟩ := proxy_eq_ok h
  rw [Proxy.declarations, List.filter_eq_nil_iff]
  intro f hf hsame
  rw [hp] at hf
  have hfree := (required_of_mem_forwarders hnone hf).2.2.1
  rw [Support.isProxyMethod_congr (Text.same_iff.1 hsame), hn] at hfree
  cases hfree

/-- A name that the trait leaves free is declared if a method of that name has to be. -/
theorem declarations_ne_nil_iff {cache cache' : ScopeCache} {p : Proxy}
    (h : g.proxy cache t = .ok (p, cache')) {name : String}
    (hn : Support.isProxyMethod name = false) : p.declarations name ≠ [] ↔
      ∃ m ∈ g.candidates t, Text.same m.name name = true ∧ g.Required t m := by
  rw [declarations_eq h hn, ← firstRequired?_isSome_iff]
  cases g.firstRequired? t (g.candidates t) name <;> simp

/-- A name under which a method has to be declared is declared once. -/
theorem length_declarations {cache cache' : ScopeCache} {p : Proxy}
    (h : g.proxy cache t = .ok (p, cache')) {m : Method} (hm : m ∈ g.candidates t)
    (hn : Support.isProxyMethod m.name = false) (hr : g.Required t m) :
    (p.declarations m.name).length = 1 := by
  have hsome : (g.firstRequired? t (g.candidates t) m.name).isSome = true :=
    firstRequired?_isSome_iff.2 ⟨m, hm, Text.same_refl _, hr⟩
  obtain ⟨first, hfirst⟩ := Option.isSome_iff_exists.1 hsome
  rw [declarations_eq h hn, hfirst]
  rfl

/-- What a proxy declares stands in its body, each method with its own signature. -/
theorem writtenOut {cache cache' : ScopeCache} {p : Proxy}
    (h : g.proxy cache t = .ok (p, cache')) : p.WrittenOut g := by
  obtain ⟨hnone, -, -, hforwarders⟩ := proxy_eq_ok h
  refine Proxy.writtenOut fun f hf => ?_
  rw [hforwarders] at hf
  rw [(required_of_mem_forwarders hnone hf).1]
  rfl

/-- A declaration stands in the body. -/
theorem declares_fallback {cache cache' : ScopeCache} {p : Proxy}
    (h : g.proxy cache t = .ok (p, cache')) {f : Forwarder} (hf : f ∈ p.forwarders) :
    p.Declares g f f.fallback := (writtenOut h).declares f hf

/-- **The members of a proxy**, said without the scan. Under each name that the trait leaves free
stands the first method that has to be declared, and nothing else is declared but `__get`, which
comes first and has the first type other than `mixed` that a `__get` promises. So a method without
a body is declared once. The methods that count are those of the class that are not private and
those of each interface, and all that is declared stands in the body. -/
theorem declares_required {cache cache' : ScopeCache} {p : Proxy}
    (h : g.proxy cache t = .ok (p, cache')) :
    (∀ name, Support.isProxyMethod name = false →
      (p.declarations name ≠ [] ↔
        ∃ m ∈ g.candidates t, Text.same m.name name = true ∧ g.Required t m) ∧
      p.declarations name =
        ((g.firstRequired? t (g.candidates t) name).map g.forwarder).toList) ∧
    (∀ f ∈ p.forwarders, Support.isProxyMethod f.method.name = false) ∧
    (p.members g.options =
      (if t.cls.isNone then [Support.initializer g.options t.realType] else []) ++
      (match (g.candidates t).find? fun m =>
          Text.same m.name "__get" && g.getterType m != "mixed" with
        | some m => [Support.getter g.options (g.getterType m)]
        | none => []) ++
      p.forwarders.map Forwarder.text) ∧
    (∀ m ∈ g.candidates t, m.isAbstract = true → m.isFinal = false →
      Support.isProxyMethod m.name = false → (p.declarations m.name).length = 1) ∧
    g.candidates t =
      t.cls.toList.flatMap (fun c => (g.registry.methods c).filter fun m => !m.isPrivate) ++
        t.interfaces.flatMap g.registry.methods ∧
    (∀ m : Method, m.returnsNothing = true ↔ ∃ name nullable,
      m.returnType = some (.named name nullable) ∧
        (Text.same name "void" = true ∨ Text.same name "never" = true)) ∧
    (∀ m : Method, g.getterType m = (m.returnType.map fun hint =>
      hint.render (g.registry.scope m.declaringClass) .full).getD "mixed") ∧
    p.WrittenOut g := by
  obtain ⟨hnone, htarget, hgetter, hforwarders⟩ := proxy_eq_ok h
  refine ⟨fun name hn => ⟨declarations_ne_nil_iff h hn, declarations_eq h hn⟩, fun f hf => ?_, ?_,
    fun m hm ha hf hn => ?_, rfl, Method.returnsNothing_iff,
    g.getterType_eq_getD, writtenOut h⟩
  · rw [hforwarders] at hf
    exact (required_of_mem_forwarders hnone hf).2.2.1
  · rw [Proxy.members, htarget, hgetter]
    change _ ++ (((g.candidates t).find? fun m =>
      Text.same m.name "__get" && g.getterType m != "mixed").map _ |>.map _).toList ++ _ = _
    cases (g.candidates t).find? fun m => Text.same m.name "__get" && g.getterType m != "mixed" <;>
      rfl
  · exact length_declarations h hm hn ⟨hf, Or.inl ha⟩

end Generator

/-! ### A class and an interface with the same methods -/

namespace Sample

open Generator

/-- A class with two methods, of which only `each` may return the proxy. -/
def bag : ClassDecl where
  name := "Bag"
  methods := [
    { name := "count", declaringClass := "Bag", returnType := some (.named "int" false) },
    { name := "each", declaringClass := "Bag" }]

/-- The interface of these methods. -/
def collection : ClassDecl where
  name := "Collection"
  kind := .interface
  methods := [
    { name := "count", isAbstract := true, declaringClass := "Collection",
      returnType := some (.named "int" false) },
    { name := "each", isAbstract := true, declaringClass := "Collection" }]

/-- The generator that knows both. -/
def collections : Generator where
  registry := Registry.insertAll ∅ [bag, collection]

/-- The class as an implementation of the interface. -/
def bagCollection : Target := ⟨some bag, [collection]⟩

theorem methods_bag : collections.registry.methods bag = bag.methods := by
  rw [Registry.methods_of_no_reference _ rfl rfl]; decide

theorem candidates_bagCollection :
    collections.candidates bagCollection = bag.methods ++ collection.methods := by
  rw [candidates_of_no_reference (by decide)]
  decide

theorem extendsInternal_bagCollection : collections.extendsInternal bagCollection = false := by
  rw [extendsInternal_of_parent_eq_none (show bagCollection.cls = some bag from rfl) rfl]
  decide

theorem mustProxy_bagCollection : collections.mustProxy bagCollection = false := by
  rw [mustProxy, narrowGetter?, candidates_bagCollection, extendsInternal_bagCollection]
  decide

theorem proxyObstacle?_bagCollection : collections.proxyObstacle? bagCollection = none :=
  proxyObstacle?_of_candidates candidates_bagCollection (by decide) extendsInternal_bagCollection
    (by decide) (by decide)

theorem required_bagCollection_iff {m : Method} : collections.Required bagCollection m ↔
    m.isFinal = false ∧ (m.isAbstract = true ∨ (m.isStatic = false ∧ m.isProtected = false ∧
      (m.returnsNothing = true ∨ collections.mayReturnProxy bagCollection m = true))) := by
  have hmust : ¬ collections.MustProxy bagCollection := by
    rw [← mustProxy_iff, mustProxy_bagCollection]; decide
  simp only [Required, hmust, false_or]

/-- Of `count` the interface's declaration is taken, since that of the class need not be declared;
of `each` that of the class. In the text of the proxy one member declares `count`. -/
theorem declares_required_bag : ∃ p cache',
    collections.proxy ∅ bagCollection = .ok (p, cache') ∧
      (p.declarations "COUNT").map (·.method.declaringClass) = ["Collection"] ∧
      (p.declarations "each").map (·.method.declaringClass) = ["Bag"] ∧
      ((p.members collections.options).filter (declaresName "COUNT")).length = 1 := by
  obtain ⟨p, cache', h⟩ := exists_proxy ∅ proxyObstacle?_bagCollection
  have hcount : (p.declarations "COUNT").map (·.method.declaringClass) = ["Collection"] := by
    rw [((declares_required h).1 "COUNT" (by decide)).2, candidates_bagCollection]
    simp only [firstRequired?, required_bagCollection_iff]
    decide
  have heach : (p.declarations "each").map (·.method.declaringClass) = ["Bag"] := by
    rw [((declares_required h).1 "each" (by decide)).2, candidates_bagCollection]
    simp only [firstRequired?, required_bagCollection_iff]
    decide
  have hnames : ∀ f ∈ p.forwarders, IsVariable f.method.name := by
    intro f hf
    rw [(proxy_eq_ok h).2.2.2] at hf
    have hmem := (required_of_mem_forwarders proxyObstacle?_bagCollection hf).2.1
    rw [candidates_bagCollection] at hmem
    exact (by decide : ∀ m ∈ bag.methods ++ collection.methods, IsVariable m.name) _ hmem
  obtain ⟨-, -, -, -, -, -, -, hwritten⟩ := declares_required h
  refine ⟨p, cache', h, hcount, heach, ?_⟩
  rw [hwritten.named hnames "COUNT" (by decide), List.length_map]
  simpa using congrArg List.length hcount

end Sample

end LazyClasses
