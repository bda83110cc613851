import LazyClasses.Proofs.Declared
/-! # What a proxy does to inherited methods

The class comes first among the methods that count, and it has one method for each name. So a
method of the class is declared again if it has to be, and then calls its parent; if it need not be
declared, a method of an interface may be declared under its name all the same.

* `Covered`: a method with a body whose name a method without one takes over.
* `throws_iff_covered`: such methods, and only these, end in an exception.
* `redefines_final_iff`: the final methods that the proxy redefines. -/

namespace LazyClasses

namespace Generator

variable {g : Generator} {t : Target} {c : ClassDecl} {m : Method}

/-- The methods of the interfaces. -/
def interfaceMethods (g : Generator) (t : Target) : List Method :=
  t.interfaces.flatMap g.registry.methods

/-- The methods of the class that count. -/
def classMethods (g : Generator) (c : ClassDecl) : List Method :=
  (g.registry.methods c).filter fun m => !m.isPrivate

theorem candidates_eq (hc : t.cls = some c) :
    g.candidates t = g.classMethods c ++ g.interfaceMethods t := by
  simp [candidates, hc, classMethods, interfaceMethods]

theorem nodup_key_classMethods (g : Generator) (c : ClassDecl) :
    ((g.classMethods c).map Method.key).Nodup :=
  (g.registry.nodup_key_methods c).sublist (List.filter_sublist.map _)

theorem mem_classMethods (hm : m ∈ g.registry.methods c) (hp : m.isPrivate = false) :
    m ∈ g.classMethods c := List.mem_filter.2 ⟨hm, by simp [hp]⟩

/-- Under the name of a method of the class, that method is the first that has to be declared, or
else a method of the interfaces. -/
theorem firstRequired?_candidates (hc : t.cls = some c) (hm : m ∈ g.classMethods c) :
    g.firstRequired? t (g.candidates t) m.name =
      if g.Required t m then some m else g.firstRequired? t (g.interfaceMethods t) m.name := by
  have hclass : g.firstRequired? t (g.classMethods c) m.name =
      if g.Required t m then some m else none := by
    have hfind := find?_key_and (q := fun a => (g.Required t a : Bool))
      (g.nodup_key_classMethods c) hm
    simpa [firstRequired?, Method.same_name_eq, Method.key] using hfind
  rw [candidates_eq hc, firstRequired?, List.find?_append]
  change (g.firstRequired? t (g.classMethods c) m.name).or
    (g.firstRequired? t (g.interfaceMethods t) m.name) = _
  rw [hclass]
  split_ifs <;> rfl

/-! ### Methods with a body -/

/-- **The name of the method is taken over**: the method need not be declared itself, and the first
method of its name that an interface requires has no body. -/
def Covered (g : Generator) (t : Target) (m : Method) : Prop :=
  Support.isProxyMethod m.name = false ∧ ¬ g.Required t m ∧
    ∃ i, g.firstRequired? t (g.interfaceMethods t) m.name = some i ∧ i.isAbstract = true

/-- **Which methods lose their body**: what a proxy declares under the name of a method of its
class that has a body calls the parent, unless the name is taken over; then it throws. The body of
the proxy says so. -/
theorem throws_iff_covered {cache cache' : ScopeCache} {p : Proxy}
    (h : g.proxy cache t = .ok (p, cache')) (hc : t.cls = some c)
    (hm : m ∈ g.registry.methods c) (hp : m.isPrivate = false) (ha : m.isAbstract = false) :
    ((∀ f ∈ p.declarations m.name, f.fallback = f.parentCall) ↔ ¬ g.Covered t m) ∧
      ((∃ f ∈ p.declarations m.name, f.fallback = f.stub) ↔ g.Covered t m) ∧
      ∀ f ∈ p.declarations m.name, p.Declares g f f.fallback := by
  have hthrows : (∃ f ∈ p.declarations m.name, f.fallback = f.stub) ↔ g.Covered t m := by
    cases hn : Support.isProxyMethod m.name with
    | true =>
      have hnil : p.declarations m.name = [] := declarations_eq_nil h hn
      simp [hnil, Covered, hn]
    | false =>
      rw [declarations_eq h hn, firstRequired?_candidates hc (mem_classMethods hm hp)]
      by_cases hr : g.Required t m
      · simp [hr, Covered, forwarder, Forwarder.fallback_eq_stub_iff, ha]
      · cases hi : g.firstRequired? t (g.interfaceMethods t) m.name <;>
          simp [hr, Covered, hn, hi, forwarder, Forwarder.fallback_eq_stub_iff]
  refine ⟨?_, hthrows, fun f hf => declares_fallback h (List.mem_of_mem_filter hf)⟩
  rw [← hthrows]
  constructor
  · rintro hall ⟨f, hf, hstub⟩
    exact f.parentCall_ne_stub ((hall f hf).symm.trans hstub)
  · intro hnone f hf
    refine Forwarder.fallback_eq_parentCall_iff.2 ?_
    by_contra hfa
    exact hnone ⟨f, hf, Forwarder.fallback_eq_stub (by simpa using hfa)⟩

end Generator

namespace Sample

/-- `each` has to be declared, and its declaration falls back to the class. -/
theorem each_falls_back : ∃ p cache', collections.proxy ∅ bagCollection = .ok (p, cache') ∧
    ∀ f ∈ p.declarations "each", f.fallback = f.parentCall := by
  obtain ⟨p, cache', h⟩ := Generator.exists_proxy ∅ proxyObstacle?_bagCollection
  have hm : bag.methods[1] ∈ collections.registry.methods bag := by rw [methods_bag]; decide
  refine ⟨p, cache', h, (Generator.throws_iff_covered h rfl hm rfl rfl).1.2 ?_⟩
  rintro ⟨-, hr, -⟩
  rw [required_bagCollection_iff] at hr
  exact hr (by decide)

/-- **`count` loses its body**: the class has one, but the declaration of the interface is taken
since that of the class need not be declared. -/
theorem count_throws : ∃ m ∈ collections.registry.methods bag,
    m.isPrivate = false ∧ m.isAbstract = false ∧
      ∃ p cache', collections.proxy ∅ bagCollection = .ok (p, cache') ∧
        ∃ f ∈ p.declarations m.name, f.fallback = f.stub ∧ f.fallback ≠ f.parentCall ∧
          p.Declares collections f f.stub := by
  obtain ⟨p, cache', h⟩ := Generator.exists_proxy ∅ proxyObstacle?_bagCollection
  refine ⟨bag.methods[0], by rw [methods_bag]; decide, rfl, rfl, p, cache', h, ?_⟩
  have hfirst : collections.firstRequired? bagCollection (collections.candidates bagCollection)
      "count" = some collection.methods[0] := by
    rw [candidates_bagCollection]
    simp only [Generator.firstRequired?, required_bagCollection_iff]
    decide
  have hmem : collections.forwarder collection.methods[0] ∈ p.declarations "count" := by
    rw [Generator.declarations_eq h (by decide), hfirst]
    exact List.mem_singleton_self _
  have hstub : (collections.forwarder collection.methods[0]).fallback =
      (collections.forwarder collection.methods[0]).stub := Forwarder.fallback_eq_stub rfl
  have hdeclares := Generator.declares_fallback h (List.mem_of_mem_filter hmem)
  rw [hstub] at hdeclares
  exact ⟨_, hmem, hstub, hstub ▸ (Forwarder.parentCall_ne_stub _).symm, hdeclares⟩

end Sample

/-! ### Final methods -/

/-- Whether the proxy redefines a name, in its own body or through its trait. -/
def Proxy.Redefines (p : Proxy) (name : String) : Prop :=
  p.declarations name ≠ [] ∨ (p.getterType.isSome = true ∧ Text.same name "__get" = true) ∨
    Support.isProxyMethod name = true

namespace Generator

variable {g : Generator} {t : Target} {c : ClassDecl} {m : Method}

/-- A final method that is called on objects, or has no body, keeps its name. -/
theorem not_required_of_final (h : g.proxyObstacle? t = none) (hc : t.cls = some c)
    (hm : m ∈ g.classMethods c) (hf : m.isFinal = true)
    (hs : m.isStatic = true → m.isAbstract = true) (hget : Text.same m.name "__get" = false) :
    Support.isProxyMethod m.name = false ∧
      ∀ a ∈ g.candidates t, Text.same a.name m.name = true → ¬ g.Required t a := by
  obtain ⟨front, back, hsplit⟩ := List.append_of_mem hm
  have hcandidates : g.candidates t = front ++ m :: (back ++ g.interfaceMethods t) := by
    rw [candidates_eq hc, hsplit, List.append_assoc, List.cons_append]
  have hkey : m.key ∉ (g.atFirst t).taken := by
    intro hk
    rw [Text.same, show Text.lower m.name = m.key from rfl, mem_atFirst_taken hk] at hget
    exact absurd hget (by decide)
  have hfront : ∀ a ∈ front, a.key ≠ m.key := by
    have hnodup := g.nodup_key_classMethods c
    rw [hsplit, List.map_append, List.map_cons, List.nodup_append] at hnodup
    intro a ha
    exact hnodup.2.2 a.key (List.mem_map_of_mem ha) m.key List.mem_cons_self
  have hscan := unrefused_decisions h
  rw [decisions, hcandidates] at hscan
  obtain ⟨-, hn, hback⟩ := final_keeps_name hscan hf hs hkey hfront
  refine ⟨hn, fun a ha hsame hr => ?_⟩
  rw [hcandidates, List.mem_append, List.mem_cons] at ha
  have hak : a.key = m.key := Text.same_iff.1 hsame
  rcases ha with ha | rfl | ha
  · exact hfront a ha hak
  · exact absurd hf (by rw [hr.1]; decide)
  · have hw := hback a ha hak
    rw [wanted_iff.2 ⟨(Support.isProxyMethod_congr hak).trans hn, hr⟩] at hw
    cases hw

/-- **Which final methods are redefined**: `__get`, and those static methods with a body whose
name the trait defines or an interface requires. What the proxy redefines itself stands in its
body. -/
theorem redefines_final_iff {cache cache' : ScopeCache} {p : Proxy}
    (h : g.proxy cache t = .ok (p, cache')) (hc : t.cls = some c)
    (hm : m ∈ g.registry.methods c) (hp : m.isPrivate = false) (hf : m.isFinal = true) :
    (p.Redefines m.name ↔ Text.same m.name "__get" = true ∨
      (m.isStatic = true ∧ m.isAbstract = false ∧ (Support.isProxyMethod m.name = true ∨
        ∃ i ∈ g.interfaceMethods t, Text.same i.name m.name = true ∧ g.Required t i))) ∧
    (∀ f ∈ p.declarations m.name, p.Declares g f f.fallback) ∧
    ∀ type, p.getterType = some type →
      p.Emits g.options (Support.getter g.options type) ∧
        declaredName? (Support.getter g.options type) = some "__get" := by
  have hmem := mem_classMethods hm hp
  refine ⟨?_, fun f hf => declares_fallback h (List.mem_of_mem_filter hf), fun type htype =>
    ⟨Proxy.emits_getter htype, Support.declaredName?_getter _ _⟩⟩
  constructor
  · intro hredefines
    by_cases hget : Text.same m.name "__get" = true
    · exact Or.inl hget
    right
    rw [Bool.not_eq_true] at hget
    by_cases hs : m.isStatic = true → m.isAbstract = true
    · -- the method is met by the scan, which keeps its name
      obtain ⟨hn, hnot⟩ := not_required_of_final (proxy_eq_ok h).1 hc hmem hf hs hget
      rcases hredefines with hd | ⟨-, hget'⟩ | hn'
      · obtain ⟨a, ha, hsame, hr⟩ := (declarations_ne_nil_iff h hn).1 hd
        exact absurd hr (hnot a ha hsame)
      · rw [hget] at hget'; cases hget'
      · rw [hn] at hn'; cases hn'
    · -- the scan passes over the method before it asks whether it is final
      rw [Classical.not_imp, Bool.not_eq_true] at hs
      refine ⟨hs.1, hs.2, ?_⟩
      cases hn : Support.isProxyMethod m.name with
      | true => exact Or.inl rfl
      | false =>
        right
        rcases hredefines with hd | ⟨-, hget'⟩ | hn'
        · obtain ⟨a, ha, hsame, hr⟩ := (declarations_ne_nil_iff h hn).1 hd
          rw [candidates_eq hc, List.mem_append] at ha
          rcases ha with ha | ha
          · have ham : a = m := g.registry.eq_of_key_eq (List.mem_of_mem_filter ha) hm
              (Text.same_iff.1 hsame)
            exact absurd hf (by rw [← ham, hr.1]; decide)
          · exact ⟨a, ha, hsame, hr⟩
        · rw [hget] at hget'; cases hget'
        · rw [hn] at hn'; cases hn'
  · rintro (hget | ⟨-, -, hn | ⟨i, hi, hsame, hr⟩⟩)
    · exact Or.inr (Or.inr ((Support.isProxyMethod_congr (Text.same_iff.1 hget)).trans (by decide)))
    · exact Or.inr (Or.inr hn)
    · cases hn : Support.isProxyMethod m.name with
      | true => exact Or.inr (Or.inr hn)
      | false =>
        refine Or.inl ((declarations_ne_nil_iff h hn).2 ⟨i, ?_, hsame, hr⟩)
        rw [candidates_eq hc]
        exact List.mem_append_right _ hi

end Generator

namespace Sample

open Generator

/-- A class that leaves neither of its methods to others. -/
def factory : ClassDecl where
  name := "Factory"
  methods := [
    { name := "create", isStatic := true, isFinal := true, declaringClass := "Factory" },
    { name := "hash", isFinal := true, declaringClass := "Factory" }]

/-- An interface with a static method. -/
def creates : ClassDecl where
  name := "Creates"
  kind := .interface
  methods := [
    { name := "create", isStatic := true, isAbstract := true, declaringClass := "Creates" }]

/-- The generator that knows both. -/
def factories : Generator where
  registry := Registry.insertAll ∅ [factory, creates]

/-- The class as an implementation of the interface. -/
def creatingFactory : Target := ⟨some factory, [creates]⟩

theorem methods_factory : factories.registry.methods factory = factory.methods := by
  rw [Registry.methods_of_no_reference _ rfl rfl]; decide

theorem candidates_creatingFactory :
    factories.candidates creatingFactory = factory.methods ++ creates.methods := by
  rw [candidates_of_no_reference (by decide)]
  decide

theorem proxyObstacle?_creatingFactory : factories.proxyObstacle? creatingFactory = none := by
  have hinternal : factories.extendsInternal creatingFactory = false := by
    rw [extendsInternal_of_parent_eq_none (show creatingFactory.cls = some factory from rfl) rfl]
    decide
  exact proxyObstacle?_of_candidates candidates_creatingFactory (by decide) hinternal
    (by decide) (by decide)

/-- `hash` is not redefined. -/
theorem hash_kept : ∃ p cache', factories.proxy ∅ creatingFactory = .ok (p, cache') ∧
    ¬ p.Redefines "hash" := by
  obtain ⟨p, cache', h⟩ := exists_proxy ∅ proxyObstacle?_creatingFactory
  have hm : factory.methods[1] ∈ factories.registry.methods factory := by
    rw [methods_factory]; decide
  refine ⟨p, cache', h, fun hredefines => ?_⟩
  have hcases := (redefines_final_iff h rfl hm rfl rfl).1.1 hredefines
  exact absurd hcases (by simp only [factory]; decide)

/-- **`create` is redefined**, although the class declares it final. -/
theorem create_redefined : ∃ m ∈ factories.registry.methods factory,
    m.isPrivate = false ∧ m.isFinal = true ∧
      ∃ p cache', factories.proxy ∅ creatingFactory = .ok (p, cache') ∧ p.Redefines m.name ∧
        ∃ f ∈ p.declarations m.name, p.Declares factories f f.fallback := by
  obtain ⟨p, cache', h⟩ := exists_proxy ∅ proxyObstacle?_creatingFactory
  have hdeclared : p.declarations "create" ≠ [] := by
    refine (declarations_ne_nil_iff h (by decide)).2 ⟨creates.methods[0], ?_, by decide, rfl, ?_⟩
    · rw [candidates_creatingFactory]; decide
    · exact Or.inl rfl
  obtain ⟨f, hf⟩ := List.exists_mem_of_ne_nil _ hdeclared
  exact ⟨factory.methods[0], by rw [methods_factory]; decide, rfl, rfl, p, cache', h,
    Or.inl hdeclared, f, hf, declares_fallback h (List.mem_of_mem_filter hf)⟩

end Sample

end LazyClasses
