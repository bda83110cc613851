import LazyClasses.Proofs.Overridden
/-! # The visibility of what a proxy declares

A class may widen the visibility of a method that it inherits or has to provide, but may not narrow
it. A proxy declares a method as visible as the first of its name that it has to declare, and
whether that is wide enough depends on the methods behind it.

* `Signature.visibility?`: the visibility that a header declares, read from its text.
* `WideEnough`: the declared visibility is as wide as that of each method of the name.
* `NarrowsRequired`: the class has a method without a body that only its relatives may call, and an
  interface requires one of that name of everybody.
* `NarrowsByInterface`: the first method that an interface requires is narrower than another.
* `wideEnough_iff`: a declaration is wide enough unless one of the two is the case.
* `not_narrowsByInterface`: the second never is if interfaces require all methods of everybody. -/

namespace LazyClasses

/-- How many may use a member: the wider its visibility, the more. -/
def Visibility.width : Visibility → Nat
  | .publicAccess => 2
  | .protectedAccess => 1
  | .privateAccess => 0

namespace Visibility

theorem width_le (v : Visibility) : v.width ≤ publicAccess.width := by
  cases v <;> decide

theorem eq_publicAccess_of_lt {v w : Visibility} (h : v.width < w.width)
    (hv : v ≠ .privateAccess) : w = .publicAccess := by
  cases v <;> cases w <;> revert h hv <;> decide

end Visibility

/-- The text behind the attribute of a tentative result type, if that stands in front. -/
def behindMark (l : List Char) : List Char :=
  if (tentativeMark true).toList.isPrefixOf l then l.drop (tentativeMark true).length else l

/-- The visibility that the header declares: its first word, behind the attribute. -/
def Signature.visibility? (s : Signature) : Option Visibility :=
  Visibility.all.find? fun v => (v.keyword ++ " ").toList.isPrefixOf (behindMark s.header.toList)

/-- Only the attribute is taken away, and only where it stands. -/
theorem behindMark_tentativeMark (tentative : Bool) {l : List Char} (h : l.head? ≠ some '#') :
    behindMark ((tentativeMark tentative).toList ++ l) = l := by
  cases tentative with
  | true =>
    rw [behindMark, if_pos (List.isPrefixOf_iff_prefix.2 (List.prefix_append _ _))]
    exact List.drop_left
  | false =>
    rw [show (tentativeMark false).toList ++ l = l from rfl, behindMark, if_neg]
    intro hmark
    obtain ⟨rest, rfl⟩ := List.isPrefixOf_iff_prefix.1 hmark
    exact h rfl

/-- **A method is declared again as visible as it is.** -/
theorem Registry.visibility?_signature (r : Registry) (m : Method) (withTypes : Bool) :
    (r.signature m withTypes).visibility? = some m.visibility := by
  have hkeyword (l : List Char) : (m.visibility.keyword.toList ++ l).head? ≠ some '#' := by
    rw [List.head?_append]
    cases m.visibility <;> simp [Visibility.keyword]
  simp only [Signature.visibility?, Registry.signature, String.toList_append, List.append_assoc]
  rw [behindMark_tentativeMark _ (hkeyword _)]
  cases m.visibility <;> rfl

namespace Generator

variable {g : Generator} {t : Target} {c : ClassDecl} {m : Method} {name : String}

/-- **The declaration is wide enough**: the visibility that it declares is as wide as that of each
method of its name which is not private. -/
def WideEnough (g : Generator) (t : Target) (f : Forwarder) : Prop :=
  ∃ v, f.signature.visibility? = some v ∧ ∀ a ∈ g.candidates t, a.isPrivate = false →
    Text.same a.name f.method.name = true → a.visibility.width ≤ v.width

/-- **The class narrows the name**: it has a method of the name without a body that only its
relatives may call, and an interface requires one of everybody. -/
def NarrowsRequired (g : Generator) (t : Target) (name : String) : Prop :=
  ∃ c, t.cls = some c ∧ ∃ m ∈ g.classMethods c, Text.same m.name name = true ∧
    m.isAbstract = true ∧ m.isFinal = false ∧ m.isProtected = true ∧
    ∃ i ∈ g.interfaceMethods t, Text.same i.name name = true ∧ i.visibility = .publicAccess

/-- **An interface narrows the name**: no method of the class has to be declared under it, and the
first that the interfaces require is narrower than another of the name. -/
def NarrowsByInterface (g : Generator) (t : Target) (name : String) : Prop :=
  (∀ c, t.cls = some c → ∀ m ∈ g.classMethods c, Text.same m.name name = true →
    ¬ g.Required t m) ∧
  ∃ i, g.firstRequired? t (g.interfaceMethods t) name = some i ∧
    ∃ a ∈ g.candidates t, a.isPrivate = false ∧ Text.same a.name name = true ∧
      i.visibility.width < a.visibility.width

/-- What is declared is the first method of its name that has to be. -/
theorem firstRequired?_of_mem_forwarders {f : Forwarder} (h : g.proxyObstacle? t = none)
    (hf : f ∈ g.forwarders t) :
    g.firstRequired? t (g.candidates t) f.method.name = some f.method := by
  obtain ⟨p, cache', hp⟩ := exists_proxy ∅ h
  obtain ⟨heq, -, hfree, -⟩ := required_of_mem_forwarders h hf
  have hmem : f ∈ p.declarations f.method.name := by
    rw [Proxy.declarations, (proxy_eq_ok hp).2.2.2]
    exact List.mem_filter.2 ⟨hf, Text.same_refl _⟩
  rw [declarations_eq hp hfree, Option.mem_toList] at hmem
  obtain ⟨first, hfirst, hforwarder⟩ := Option.map_eq_some_iff.1 hmem
  rw [hfirst, ← hforwarder]
  rfl

/-- A method of the class that has to be declared is open to everybody unless it has no body. -/
theorem isAbstract_of_isProtected (h : g.Required t m) (hp : m.isProtected = true) :
    m.isAbstract = true :=
  h.2.resolve_right fun hopen => by rw [hopen.2.1] at hp; cases hp

/-- The declared method is one of the class or, if the class has none to declare, the first that
the interfaces require. -/
theorem firstRequired?_cases (h : g.firstRequired? t (g.candidates t) name = some m) :
    Text.same m.name name = true ∧ g.Required t m ∧
      ((∃ c, t.cls = some c ∧ m ∈ g.classMethods c) ∨
        (∀ c, t.cls = some c → ∀ a ∈ g.classMethods c, Text.same a.name name = true →
          ¬ g.Required t a) ∧
        g.firstRequired? t (g.interfaceMethods t) name = some m) := by
  have hm := List.find?_some h
  rw [Bool.and_eq_true, decide_eq_true_eq] at hm
  refine ⟨hm.1, hm.2, ?_⟩
  cases hc : t.cls with
  | none =>
    refine .inr ⟨nofun, ?_⟩
    rwa [candidates, hc, Option.toList_none, List.flatMap_nil, List.nil_append] at h
  | some c =>
    rw [candidates_eq hc, firstRequired?, List.find?_append, Option.or_eq_some_iff] at h
    rcases h with h | ⟨hnone, h⟩
    · exact .inl ⟨c, rfl, List.mem_of_find?_eq_some h⟩
    · refine .inr ⟨?_, h⟩
      intro c' hc' a ha hsame hrequired
      obtain rfl := Option.some.inj hc'
      exact List.find?_eq_none.1 hnone a ha (by simp [hsame, hrequired])

/-- A method that is narrower than another of its name which is not private. -/
def Narrower (g : Generator) (t : Target) (m : Method) : Prop :=
  ∃ a ∈ g.candidates t, a.isPrivate = false ∧ Text.same a.name m.name = true ∧
    m.visibility.width < a.visibility.width

theorem wideEnough_forwarder_iff : g.WideEnough t (g.forwarder m) ↔ ¬ g.Narrower t m := by
  have hdeclared : (g.forwarder m).signature.visibility? = some m.visibility :=
    g.registry.visibility?_signature m true
  rw [WideEnough, hdeclared]
  simp only [Option.some.injEq, exists_eq_left', Narrower, not_exists, not_and, not_lt]
  rfl

theorem isProtected_iff : m.isProtected = true ↔ m.visibility = .protectedAccess :=
  decide_eq_true_iff

theorem isPrivate_eq_false_iff : m.isPrivate = false ↔ m.visibility ≠ .privateAccess :=
  decide_eq_false_iff_not

/-- A method of the class that has to be declared is narrower than another of its name iff the
class narrows the name. -/
theorem narrower_iff_of_class (hc : t.cls = some c) (hm : m ∈ g.classMethods c)
    (hrequired : g.Required t m) : g.Narrower t m ↔ g.NarrowsRequired t m.name := by
  have honly {a : Method} (ha : a ∈ g.classMethods c) (hsame : Text.same a.name m.name = true) :
      a = m :=
    g.registry.eq_of_key_eq (List.mem_of_mem_filter ha) (List.mem_of_mem_filter hm)
      (Text.same_iff.1 hsame)
  constructor
  · rintro ⟨a, ha, hprivate, hsame, hlt⟩
    have hmprivate : m.visibility ≠ .privateAccess := by
      rw [← isPrivate_eq_false_iff]
      simpa using (List.mem_filter.1 hm).2
    have hpublic := Visibility.eq_publicAccess_of_lt hlt hmprivate
    have hprotected : m.isProtected = true := by
      rw [isProtected_iff]
      rw [hpublic] at hlt
      cases hv : m.visibility with
      | protectedAccess => rfl
      | publicAccess => rw [hv] at hlt; exact absurd hlt (lt_irrefl _)
      | privateAccess => exact absurd hv hmprivate
    have hinterface : a ∈ g.interfaceMethods t := by
      rw [candidates_eq hc, List.mem_append] at ha
      refine ha.resolve_left fun ha => ?_
      rw [honly ha hsame] at hlt
      exact lt_irrefl _ hlt
    exact ⟨c, hc, m, hm, Text.same_refl _, isAbstract_of_isProtected hrequired hprotected,
      hrequired.1, hprotected, a, hinterface, hsame, hpublic⟩
  · rintro ⟨c', hc', a, ha, hsame, -, -, hprotected, i, hi, hisame, hpublic⟩
    obtain rfl := Option.some.inj (hc.symm.trans hc')
    obtain rfl := honly ha hsame
    refine ⟨i, ?_, ?_, hisame, ?_⟩
    · rw [candidates_eq hc]
      exact List.mem_append_right _ hi
    · rw [isPrivate_eq_false_iff, hpublic]
      decide
    · rw [hpublic, isProtected_iff.1 hprotected]
      decide

/-- The interfaces narrow no name if they require all methods of everybody. -/
theorem not_narrowsByInterface (h : ∀ i ∈ g.interfaceMethods t, i.visibility = .publicAccess) :
    ¬ g.NarrowsByInterface t name := by
  rintro ⟨-, i, hi, a, -, -, -, hlt⟩
  rw [h i (List.mem_of_find?_eq_some hi)] at hlt
  exact absurd a.visibility.width_le hlt.not_ge

/-- **Which declarations are wide enough**: those under names that neither the class nor an
interface narrows. With interfaces that require all methods of everybody it is up to the class. The
declaration stands in the body as it is. -/
theorem wideEnough_iff {cache cache' : ScopeCache} {p : Proxy}
    (h : g.proxy cache t = .ok (p, cache')) {f : Forwarder} (hf : f ∈ p.forwarders) :
    (g.WideEnough t f ↔
      ¬ g.NarrowsRequired t f.method.name ∧ ¬ g.NarrowsByInterface t f.method.name) ∧
    ((∀ i ∈ g.interfaceMethods t, i.visibility = .publicAccess) →
      (g.WideEnough t f ↔ ¬ g.NarrowsRequired t f.method.name)) ∧
    p.Declares g f f.fallback := by
  have hdeclares := declares_fallback h hf
  obtain ⟨hnone, -, -, hforwarders⟩ := proxy_eq_ok h
  rw [hforwarders] at hf
  have hiff : g.WideEnough t f ↔
      ¬ g.NarrowsRequired t f.method.name ∧ ¬ g.NarrowsByInterface t f.method.name := by
    rw [(required_of_mem_forwarders hnone hf).1, wideEnough_forwarder_iff]
    obtain ⟨-, hrequired, ⟨c, hc, hm⟩ | ⟨hclass, hfirst⟩⟩ :=
      firstRequired?_cases (firstRequired?_of_mem_forwarders hnone hf)
    · -- a method of the class is declared, so no interface decides
      have hinterface : ¬ g.NarrowsByInterface t f.method.name :=
        fun hnarrows => hnarrows.1 c hc f.method hm (Text.same_refl _) hrequired
      rw [narrower_iff_of_class hc hm hrequired]
      exact (and_iff_left hinterface).symm
    · -- a method that narrows the name in the class would have to be declared itself
      have hrequiredByClass : ¬ g.NarrowsRequired t f.method.name := by
        rintro ⟨c, hc, m, hm, hsame, habstract, hfinal, -⟩
        exact hclass c hc m hm hsame ⟨hfinal, .inl habstract⟩
      refine Iff.trans (not_congr ?_) (and_iff_right hrequiredByClass).symm
      constructor
      · exact fun hnarrower => ⟨hclass, f.method, hfirst, hnarrower⟩
      · rintro ⟨-, i, hi, hnarrower⟩
        rw [Option.some.inj (hi.symm.trans hfirst)] at hnarrower
        exact hnarrower
  refine ⟨hiff, fun hpublic => hiff.trans (and_iff_left ?_), hdeclares⟩
  exact not_narrowsByInterface hpublic

end Generator

namespace Sample

open Generator

/-- A class that leaves two methods to those that extend it. -/
def job : ClassDecl where
  name := "Job"
  isAbstract := true
  methods := [
    { name := "run", visibility := .protectedAccess, isAbstract := true, declaringClass := "Job" },
    { name := "stop", visibility := .protectedAccess, isAbstract := true, declaringClass := "Job" }]

/-- An interface that requires one of them of everybody. -/
def runs : ClassDecl where
  name := "Runs"
  kind := .interface
  methods := [{ name := "run", isAbstract := true, declaringClass := "Runs" }]

/-- The generator that knows both. -/
def jobs : Generator where
  registry := Registry.insertAll ∅ [job, runs]

/-- The class as an implementation of the interface. -/
def runningJob : Target := ⟨some job, [runs]⟩

theorem methods_job : jobs.registry.methods job = job.methods := by
  rw [Registry.methods_of_no_reference _ rfl rfl]; decide

theorem candidates_runningJob :
    jobs.candidates runningJob = job.methods ++ runs.methods := by
  rw [candidates_of_no_reference (by decide)]
  decide

theorem interfaceMethods_runningJob : jobs.interfaceMethods runningJob = runs.methods := by
  rw [interfaceMethods, runningJob, List.flatMap_singleton,
    Registry.methods_of_no_reference _ rfl rfl]
  decide

theorem proxyObstacle?_runningJob : jobs.proxyObstacle? runningJob = none := by
  have hinternal : jobs.extendsInternal runningJob = false := by
    rw [extendsInternal_of_parent_eq_none (show runningJob.cls = some job from rfl) rfl]
    decide
  exact proxyObstacle?_of_candidates candidates_runningJob (by decide) hinternal
    (by decide) (by decide)

/-- The methods of the class are the first of their names, and have no body. -/
theorem firstRequired?_runningJob {m : Method} (hm : m ∈ job.methods) :
    jobs.firstRequired? runningJob (jobs.candidates runningJob) m.name = some m := by
  have hmem : m ∈ jobs.classMethods job := by
    rw [classMethods, methods_job]
    revert hm m
    decide
  have hrequired : jobs.Required runningJob m := by
    refine ⟨?_, .inl ?_⟩ <;> revert hm m <;> decide
  rw [firstRequired?_candidates (show runningJob.cls = some job from rfl) hmem, if_pos hrequired]

/-- What the proxy declares for a method of the class. -/
theorem forwarder_mem_runningJob {m : Method} (hm : m ∈ job.methods) {p : Proxy}
    {cache' : ScopeCache} (h : jobs.proxy ∅ runningJob = .ok (p, cache')) :
    jobs.forwarder m ∈ p.forwarders := by
  have hfree : Support.isProxyMethod m.name = false := by
    revert hm m
    decide
  have hmem : jobs.forwarder m ∈ p.declarations m.name := by
    rw [declarations_eq h hfree, firstRequired?_runningJob hm]
    exact List.mem_singleton_self _
  exact List.mem_of_mem_filter hmem

/-- `stop` is declared as visible as anyone requires. -/
theorem stop_wideEnough : ∃ p cache', jobs.proxy ∅ runningJob = .ok (p, cache') ∧
    ∃ f ∈ p.forwarders, f.method.name = "stop" ∧ jobs.WideEnough runningJob f := by
  obtain ⟨p, cache', h⟩ := exists_proxy ∅ proxyObstacle?_runningJob
  have hf := forwarder_mem_runningJob (m := job.methods[1]) (by decide) h
  have hpublic : ∀ i ∈ jobs.interfaceMethods runningJob, i.visibility = .publicAccess := by
    rw [interfaceMethods_runningJob]
    decide
  refine ⟨p, cache', h, _, hf, rfl, ((wideEnough_iff h hf).2.1 hpublic).2 ?_⟩
  rintro ⟨-, -, -, -, -, -, -, -, i, hi, hsame, -⟩
  rw [interfaceMethods_runningJob] at hi
  obtain rfl := List.mem_singleton.1 hi
  revert hsame
  decide

/-- **`run` is declared too narrow**: protected, although the interface requires it of everybody. -/
theorem run_narrowed : ∃ p cache', jobs.proxy ∅ runningJob = .ok (p, cache') ∧
    ∃ f ∈ p.forwarders, p.Declares jobs f f.fallback ∧
      f.signature.visibility? = some .protectedAccess ∧
      ∃ a ∈ jobs.candidates runningJob, a.isPrivate = false ∧
        Text.same a.name f.method.name = true ∧ a.visibility = .publicAccess := by
  obtain ⟨p, cache', h⟩ := exists_proxy ∅ proxyObstacle?_runningJob
  have hf := forwarder_mem_runningJob (m := job.methods[0]) (by decide) h
  refine ⟨p, cache', h, _, hf, declares_fallback h hf,
    Registry.visibility?_signature _ _ _, runs.methods[0], ?_, rfl, by decide, rfl⟩
  rw [candidates_runningJob]
  decide

end Sample

end LazyClasses
