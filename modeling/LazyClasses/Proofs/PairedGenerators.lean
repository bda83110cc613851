import LazyClasses.Proofs.Correspondence
import LazyClasses.Proofs.Declared
import LazyClasses.LazyClass.Ghost
/-! # Generators over registries that correspond

Generators that rely on the same options, over registries that correspond, are after the same
methods and decide about them alike. If paired methods are equal, not only up to their result
types, then what they write for paired classes has the same text.

* `SameOutcome`: the same failure, or results that stand for each other.
* `Pairing.decide`, `Pairing.decideAll`: one method, then a whole scan.
* `Pairing.forwarded`, `Pairing.methodObstacle?_eq`: what the scan comes to.
* `Pairing.ghostFor`, `Pairing.proxyFor`: the same refusal, or lazy classes of the same text.

Whether a `__get` promises another type than `mixed` is the one question about a result type that
pairing does not answer; where it matters, the lemmas say so. -/

namespace LazyClasses

/-! ### Outcomes -/

/-- The same failure, or results that stand for each other. -/
inductive SameOutcome {ε α β : Type} (R : α → β → Prop) : Except ε α → Except ε β → Prop
  | error (e : ε) : SameOutcome R (.error e) (.error e)
  | ok {a : α} {b : β} (h : R a b) : SameOutcome R (.ok a) (.ok b)

namespace SameOutcome

variable {ε α β γ δ : Type} {R : α → β → Prop} {Q : γ → δ → Prop}

theorem bind {x : Except ε α} {y : Except ε β} {f : α → Except ε γ} {g : β → Except ε δ}
    (h : SameOutcome R x y) (hfg : ∀ a b, R a b → SameOutcome Q (f a) (g b)) :
    SameOutcome Q (x.bind f) (y.bind g) := by
  cases h with
  | error e => exact .error e
  | ok hab => exact hfg _ _ hab

theorem map_eq {x : Except ε α} {y : Except ε β} {f : α → γ} {g : β → γ}
    (h : SameOutcome R x y) (hfg : ∀ a b, R a b → f a = g b) : x.map f = y.map g := by
  cases h with
  | error e => rfl
  | ok hab => exact congrArg Except.ok (hfg _ _ hab)

theorem eq {x y : Except ε α} {R : α → α → Prop} (h : SameOutcome R x y)
    (hR : ∀ a b, R a b → a = b) : x = y := by
  cases h with
  | error e => rfl
  | ok hab => rw [hR _ _ hab]

theorem mapM_option {f : α → Except ε γ} {g : β → Except ε δ} {a? : Option α} {b? : Option β}
    (h : Option.Rel R a? b?) (hfg : ∀ a b, R a b → SameOutcome Q (f a) (g b)) :
    SameOutcome (Option.Rel Q) (a?.mapM f) (b?.mapM g) := by
  cases h with
  | none => exact .ok .none
  | some hab => exact (hfg _ _ hab).bind fun c d hcd => .ok (.some hcd)

theorem mapM_list {f : α → Except ε γ} {g : β → Except ε δ} {l : List α} {l' : List β}
    (h : List.Forall₂ R l l') (hfg : ∀ a b, R a b → SameOutcome Q (f a) (g b)) :
    SameOutcome (List.Forall₂ Q) (l.mapM f) (l'.mapM g) := by
  induction h with
  | nil => exact .ok .nil
  | cons hab _ ih =>
    rw [List.mapM_cons, List.mapM_cons]
    exact (hfg _ _ hab).bind fun c d hcd => ih.bind fun cs ds hcds => .ok (.cons hcd hcds)

end SameOutcome

/-- The generator over the registry that takes the scopes which properties inherit. -/
def Registry.generator (r : Registry) (options : Options) : Generator where
  registry := r
  options := options

namespace Registry.Pairing

/-! ### Texts -/

section Texts

variable {r r' : Registry} (P : Pairing r r') {c c' : ClassDecl} {m m' : Method}

/-- The targets name paired classes and interfaces. -/
structure Targets (t t' : Target) : Prop where
  cls : Option.Rel P.Classes t.cls t'.cls
  interfaces : List.Forall₂ P.Classes t.interfaces t'.interfaces

structure Ghosts (made made' : Ghost × ScopeCache) : Prop where
  parent : P.Classes made.1.parent made'.1.parent
  scopes : made.1.scopes = made'.1.scopes
  cache : made.2 = made'.2

structure Proxies (made made' : Proxy × ScopeCache) : Prop where
  target : P.Targets made.1.target made'.1.target
  scopes : made.1.scopes = made'.1.scopes
  getterType : made.1.getterType = made'.1.getterType
  forwarders : made.1.forwarders = made'.1.forwarders
  cache : made.2 = made'.2

variable {t t' : Target}

include P

theorem isForeign_eq (h : P.Classes c c') (sentinel : String) :
    c.isForeign sentinel = c'.isForeign sentinel := by rw [P.frame h]; rfl

theorem isReadonly_eq (h : P.Classes c c') : c.isReadonly = c'.isReadonly := by rw [P.frame h]

theorem isInterface_eq (h : P.Classes c c') : c.isInterface = c'.isInterface := by
  rw [P.frame h]; rfl

theorem answerable_eq (T : P.Targets t t') (h : P.Methods m m') :
    t.answerable m = t'.answerable m' := by
  rw [Target.answerable, Target.answerable]
  obtain ⟨hnone, hnone'⟩ | ⟨c, c', hc, hc', hcc⟩ := rel_cases T.cls
  · rw [hnone, hnone', P.outline h]
  · rw [hc, hc']
    exact P.name_eq hcc

theorem interfaceNames_eq (T : P.Targets t t') : t.interfaceNames = t'.interfaceNames :=
  map_eq_of_forall₂ (forall₂_firstBy T.interfaces (fun _ _ => P.key_eq) []) fun _ _ => P.name_eq

theorem isSome_eq (T : P.Targets t t') : t.cls.isSome = t'.cls.isSome := by
  obtain ⟨hnone, hnone'⟩ | ⟨c, c', hc, hc', -⟩ := rel_cases T.cls
  · rw [hnone, hnone']
  · rw [hc, hc']; rfl

theorem realType_eq (T : P.Targets t t') : t.realType = t'.realType := by
  rw [Target.realType, Target.realType, P.isSome_eq T, P.interfaceNames_eq T]

end Texts

section Generated

variable {r r' : Registry} {P : Pairing r r'}

/-- Ghosts of paired classes read the same. -/
theorem Ghosts.generated_eq {made made' : Ghost × ScopeCache} (h : P.Ghosts made made')
    (options : Options) : made.1.generated options = made'.1.generated options := by
  rw [Ghost.generated, Ghost.generated, P.name_eq h.parent, P.isReadonly_eq h.parent, h.scopes]

/-- Proxies for paired targets read the same. -/
theorem Proxies.generated_eq {made made' : Proxy × ScopeCache} (h : P.Proxies made made')
    (options : Options) : made.1.generated options = made'.1.generated options := by
  have hreadonly :
      made.1.target.cls.any (·.isReadonly) = made'.1.target.cls.any (·.isReadonly) := by
    obtain ⟨hnone, hnone'⟩ | ⟨c, c', hc, hc', hcc⟩ := rel_cases h.target.cls
    · rw [hnone, hnone']
    · rw [hc, hc', Option.any_some, Option.any_some, P.isReadonly_eq hcc]
  have himplemented : made.1.implemented options = made'.1.implemented options := by
    rw [Proxy.implemented, Proxy.implemented, P.interfaceNames_eq h.target]
  have hmembers : made.1.members options = made'.1.members options := by
    rw [Proxy.members, Proxy.members, ← Option.not_isSome, ← Option.not_isSome,
      P.isSome_eq h.target, P.realType_eq h.target, h.getterType, h.forwarders]
  rw [Proxy.generated, Proxy.generated, hreadonly, himplemented, hmembers, P.realType_eq h.target,
    h.scopes]
  obtain ⟨hnone, hnone'⟩ | ⟨c, c', hc, hc', hcc⟩ := rel_cases h.target.cls
  · rw [hnone, hnone']
  · rw [hc, hc']
    cases made'.1.scopes <;> simp only [P.name_eq hcc]

end Generated

section Generators

variable {g g' : Generator} (P : Pairing g.registry g'.registry) {c c' : ClassDecl} {m m' : Method}
  {t t' : Target}

include P

/-! ### Classes -/

theorem shapeObstacle?_eq (ho : g.options = g'.options) (h : P.Classes c c') :
    g.shapeObstacle? c = g'.shapeObstacle? c' := by
  rw [Generator.shapeObstacle?, Generator.shapeObstacle?, ho, P.frame h]
  rfl

theorem ancestorObstacle?_eq (ho : g.options = g'.options) (h : P.Classes c c') :
    g.ancestorObstacle? c = g'.ancestorObstacle? c' := by
  rw [Generator.ancestorObstacle?, Generator.ancestorObstacle?, ho]
  exact map_eq_of_rel (rel_find? (P.ancestors h) fun a a' ha => P.isForeign_eq ha _)
    fun a a' ha => by rw [P.name_eq ha]

theorem traitObstacle?_eq (h : P.Classes c c') : g.traitObstacle? c = g'.traitObstacle? c' := by
  rw [Generator.traitObstacle?, Generator.traitObstacle?]
  congr 1
  funext name
  obtain ⟨hnone, hnone'⟩ | ⟨m, m', hm, hm', hmm⟩ := rel_cases (P.method? h name)
  · rw [hnone, hnone']
  · have hfinal : m.isFinal = m'.isFinal := by rw [P.outline hmm]
    simp only [hm, hm', hfinal, P.methodName_eq hmm]

/-- A method that is paired with itself promises the same outside its class. -/
theorem getterType_eq (m : Method) : g.getterType m = g'.getterType m := by
  rw [Generator.getterType, Generator.getterType, P.scope_eq]

/-- **The methods that count** are paired. -/
theorem candidates (T : P.Targets t t') :
    List.Forall₂ P.Methods (g.candidates t) (g'.candidates t') :=
  List.rel_append
    (List.rel_flatMap (forall₂_toList T.cls) fun _ _ hc => P.unhidden (P.methods hc))
    (List.rel_flatMap T.interfaces fun _ _ => P.methods)

theorem extendsInternal_eq (ho : g.options = g'.options) (T : P.Targets t t') :
    g.extendsInternal t = g'.extendsInternal t' := by
  rw [Generator.extendsInternal, Generator.extendsInternal, ho]
  obtain ⟨hnone, hnone'⟩ | ⟨c, c', hc, hc', hcc⟩ := rel_cases T.cls
  · rw [hnone, hnone']
    rfl
  · rw [hc, hc']
    exact any_eq_of_forall₂ (P.chain hcc) fun a a' ha => P.isForeign_eq ha _

theorem targetObstacle?_eq (T : P.Targets t t') : g.targetObstacle? t = g'.targetObstacle? t' := by
  have hinterfaces : ((t.interfaces.find? fun i => !i.isInterface).map fun i =>
        (i.name, Obstacle.notAnInterface)) =
      (t'.interfaces.find? fun i => !i.isInterface).map fun i => (i.name, .notAnInterface) :=
    map_eq_of_rel (rel_find? T.interfaces fun i i' hi => by rw [P.isInterface_eq hi])
      fun i i' hi => by rw [P.name_eq hi]
  rw [Generator.targetObstacle?, Generator.targetObstacle?, hinterfaces]
  obtain ⟨hnone, hnone'⟩ | ⟨c, c', hc, hc', hcc⟩ := rel_cases T.cls
  · rw [hnone, hnone']
    rfl
  · have hkind : c.kind = c'.kind := by rw [P.frame hcc]
    have hfinal : c.isFinal = c'.isFinal := by rw [P.frame hcc]
    simp only [hc, hc', Option.bind_some, hkind, hfinal, P.name_eq hcc, P.contains_eq]

/-- **Whether a result may be the proxy** hangs on the classes that the type names. -/
theorem mayReturnProxy_eq (T : P.Targets t t') (h : P.Methods m m') :
    g.mayReturnProxy t m = g'.mayReturnProxy t' m' := by
  have hdeclaring : m.declaringClass = m'.declaringClass := by rw [P.outline h]
  have hidentity {hint hint' : TypeHint} (hh : hint.SameClasses hint') :
      hint.leaves.any (Text.memIgnoreCase · Generator.identityTypes) =
        hint'.leaves.any (Text.memIgnoreCase · Generator.identityTypes) := by
    have hsplit (names : List String) : names.any (Text.memIgnoreCase · Generator.identityTypes) =
        (names.map Text.lower).any fun lower =>
          Generator.identityTypes.any fun type => lower == Text.lower type := by
      rw [List.any_map]
      rfl
    rw [hsplit, hsplit, hh.leaves]
  rw [Generator.mayReturnProxy, Generator.mayReturnProxy]
  obtain ⟨hnone, hnone'⟩ | ⟨hint, hint', hhint, hhint', hh⟩ := rel_cases (P.result h)
  · rw [hnone, hnone']
  · have hclasses : g.resultClasses m hint = g'.resultClasses m' hint' := by
      rw [Generator.resultClasses, Generator.resultClasses, hdeclaring, P.scope_eq, hh.classes]
    have hisA : (fun name => (t.cls.toList ++ t.interfaces).any fun c => g.registry.isA c name) =
        fun name => (t'.cls.toList ++ t'.interfaces).any fun c => g'.registry.isA c name :=
      funext fun name => any_eq_of_forall₂
        (List.rel_append (forall₂_toList T.cls) T.interfaces)
        fun c c' hc => P.isA_eq hc (Text.same_refl _)
    simp only [hhint, hhint', hclasses, hidentity hh, hisA]

/-! ### The scan -/

omit P in
/-- The methods meet the same fate. -/
inductive Decisions {r r' : Registry} (P : Pairing r r') : Decision → Decision → Prop
  | passOver : Decisions P .passOver .passOver
  | keepFinal : Decisions P .keepFinal .keepFinal
  | keepInherited : Decisions P .keepInherited .keepInherited
  | forward : Decisions P .forward .forward
  | refuse {final final' : Method} (h : P.Methods final final') :
    Decisions P (.refuse final) (.refuse final')

omit P in
structure Progresses {r r' : Registry} (P : Pairing r r') (before before' : Generator.Progress) :
    Prop where
  taken : before.taken = before'.taken
  finals : List.Forall₂ P.Methods before.finals before'.finals

omit P in
structure Decided {r r' : Registry} (P : Pairing r r') (d d' : Method × Decision) : Prop where
  method : P.Methods d.1 d'.1
  decision : P.Decisions d.2 d'.2

variable {must : Bool} {before before' : Generator.Progress}

/-- **One method**: behind methods of the same fate, it meets the same. -/
theorem decide (must : Bool) (T : P.Targets t t') (hb : P.Progresses before before')
    (h : P.Methods m m') :
    P.Decisions (g.decide t must before m) (g'.decide t' must before' m') := by
  have hname : m.name = m'.name := P.methodName_eq h
  have hkey : m.key = m'.key := P.methodKey_eq h
  have hstatic : m.isStatic = m'.isStatic := by rw [P.outline h]
  have habstract : m.isAbstract = m'.isAbstract := by rw [P.outline h]
  have hfinal : m.isFinal = m'.isFinal := by rw [P.outline h]
  have hprotected : m.isProtected = m'.isProtected := by rw [P.outline h]; rfl
  rw [Generator.decide, Generator.decide, ← hname, ← hkey, ← hstatic, ← habstract, ← hfinal,
    ← hprotected, ← P.returnsNothing h, ← P.mayReturnProxy_eq T h, ← hb.taken]
  have hfound : Option.Rel P.Methods (before.finals.find? (·.key == m.key))
      (before'.finals.find? (·.key == m.key)) :=
    rel_find? hb.finals fun final final' hf => by rw [P.methodKey_eq hf]
  split_ifs
  · exact .passOver
  · exact .refuse h
  · exact .keepFinal
  · exact .passOver
  all_goals
    obtain ⟨hnone, hnone'⟩ | ⟨final, final', hf, hf', hff⟩ := rel_cases hfound
    · rw [hnone, hnone']
      first | exact .forward | exact .keepInherited
    · rw [hf, hf']
      exact .refuse hff

theorem note {d d' : Decision} (hb : P.Progresses before before') (h : P.Methods m m')
    (hd : P.Decisions d d') : P.Progresses (before.note m d) (before'.note m' d') := by
  cases hd with
  | forward => exact ⟨by simp only [Generator.Progress.note, hb.taken, P.methodKey_eq h], hb.finals⟩
  | keepFinal => exact ⟨hb.taken, List.rel_append hb.finals (.cons h .nil)⟩
  | passOver | keepInherited | refuse => exact hb

/-- **A whole scan** over paired methods. -/
theorem decideAll (T : P.Targets t t') {l l' : List Method} (h : List.Forall₂ P.Methods l l') :
    ∀ {before before' : Generator.Progress}, P.Progresses before before' →
      List.Forall₂ P.Decided (g.decideAll t must before l) (g'.decideAll t' must before' l') := by
  induction h with
  | nil => exact fun _ => .nil
  | @cons m m' rest rest' hm _ ih =>
    intro before before' hb
    have hd := P.decide must T hb hm
    refine .cons ⟨hm, hd⟩ ?_
    have hrest := ih (P.note hb hm hd)
    -- Behind a refusal nothing is decided.
    generalize g.decide t must before m = d at hd hrest
    generalize g'.decide t' must before' m' = d' at hd hrest
    cases hd with
    | refuse => exact .nil
    | passOver | keepFinal | keepInherited | forward => exact hrest

/-- **All decisions**, if both generators or neither of them see a `__get` with a narrow type. -/
theorem decisions (ho : g.options = g'.options) (T : P.Targets t t')
    (hn : (g.narrowGetter? t).isSome = (g'.narrowGetter? t').isSome) :
    List.Forall₂ P.Decided (g.decisions t) (g'.decisions t') := by
  rw [Generator.decisions, Generator.decisions, Generator.mustProxy, Generator.mustProxy,
    Generator.atFirst, Generator.atFirst, P.extendsInternal_eq ho T, hn]
  exact P.decideAll T (P.candidates T) ⟨rfl, .nil⟩

theorem methodObstacle?_eq (ho : g.options = g'.options) (T : P.Targets t t')
    (hn : (g.narrowGetter? t).isSome = (g'.narrowGetter? t').isSome) :
    g.methodObstacle? t = g'.methodObstacle? t' := by
  refine findSome?_eq_of_forall₂ (P.decisions ho T hn) ?_
  rintro ⟨m, d⟩ ⟨m', d'⟩ ⟨-, hd⟩
  cases hd with
  | refuse h =>
    change some (_, Obstacle.finalMethod _) = some (_, .finalMethod _)
    rw [P.answerable_eq T h, P.methodName_eq h]
  | passOver | keepFinal | keepInherited | forward => rfl

/-- **The methods that are declared again** are paired. -/
theorem forwarded (ho : g.options = g'.options) (T : P.Targets t t')
    (hn : (g.narrowGetter? t).isSome = (g'.narrowGetter? t').isSome) :
    List.Forall₂ P.Methods (Generator.forwarded (g.decisions t))
      (Generator.forwarded (g'.decisions t')) := by
  refine List.rel_filterMap ?_ (P.decisions ho T hn)
  rintro ⟨m, d⟩ ⟨m', d'⟩ ⟨hm, hd⟩
  cases hd with
  | forward => exact .some hm
  | passOver | keepFinal | keepInherited | refuse => exact .none

/-! ### The same texts -/

omit P in
/-- Nothing that a text shows differs but for the spelling of references: paired methods are equal,
result types and all. -/
structure Faithful (P : Pairing g.registry g'.registry) : Prop where
  methods : ∀ {m m'}, P.Methods m m' → m = m'
  options : g.options = g'.options
  supplier : ∀ name, g.supplier name = g'.supplier name

omit P in
/-- With inherited scopes nothing but the methods matters. -/
theorem faithful {r r' : Registry} (P : Pairing r r') (h : ∀ m m', P.Methods m m' → m = m')
    (options : Options) : @Faithful (r.generator options) (r'.generator options) P where
  methods := h _ _
  options := rfl
  supplier _ := P.propertyScopes_eq (.inl rfl)

variable (F : P.Faithful)

include F

theorem scopes_eq (cache : ScopeCache) (name : String) :
    g.scopes cache name = g'.scopes cache name := by
  rw [Generator.scopes, Generator.scopes, F.supplier]

theorem getterObstacle?_eq (h : P.Classes c c') :
    g.getterObstacle? c = g'.getterObstacle? c' := by
  rw [Generator.getterObstacle?, Generator.getterObstacle?]
  obtain ⟨hnone, hnone'⟩ | ⟨m, m', hm, hm', hmm⟩ := rel_cases (P.method? h "__get")
  · rw [hnone, hnone']
  · obtain rfl := F.methods hmm
    simp only [hm, hm', P.getterType_eq]

/-- **The ghosts of paired classes**, or the same refusal. -/
theorem ghost (h : P.Classes c c') (cache : ScopeCache) :
    SameOutcome P.Ghosts (g.ghost cache c) (g'.ghost cache c') := by
  have hobstacle : g.ghostObstacle? c = g'.ghostObstacle? c' := by
    rw [Generator.ghostObstacle?, Generator.ghostObstacle?, P.shapeObstacle?_eq F.options h,
      P.getterObstacle?_eq F h, P.traitObstacle?_eq h, P.ancestorObstacle?_eq F.options h]
  rw [Generator.ghost, Generator.ghost, hobstacle, P.name_eq h, P.scopes_eq F]
  cases g'.ghostObstacle? c' with
  | some obstacle => exact .error _
  | none => exact .ok ⟨h, rfl, rfl⟩

theorem narrowGetter? (T : P.Targets t t') :
    Option.Rel P.Methods (g.narrowGetter? t) (g'.narrowGetter? t') :=
  rel_find? (P.candidates T) fun m m' h => by
    obtain rfl := F.methods h
    rw [P.getterType_eq]

theorem isSome_narrowGetter?_eq (T : P.Targets t t') :
    (g.narrowGetter? t).isSome = (g'.narrowGetter? t').isSome := by
  obtain ⟨hnone, hnone'⟩ | ⟨m, m', hm, hm', -⟩ := rel_cases (P.narrowGetter? F T)
  · rw [hnone, hnone']
  · rw [hm, hm']; rfl

theorem narrowGetterObstacle?_eq (T : P.Targets t t') :
    g.narrowGetterObstacle? t = g'.narrowGetterObstacle? t' := by
  rw [Generator.narrowGetterObstacle?, Generator.narrowGetterObstacle?]
  obtain ⟨hnone, hnone'⟩ | ⟨m, m', hm, hm', h⟩ := rel_cases (P.narrowGetter? F T)
  · rw [hnone, hnone']
    rfl
  · obtain rfl := F.methods h
    rw [hm, hm', Option.bind_some, Option.bind_some, P.answerable_eq T h]

theorem proxyObstacle?_eq (T : P.Targets t t') : g.proxyObstacle? t = g'.proxyObstacle? t' := by
  rw [Generator.proxyObstacle?, Generator.proxyObstacle?, P.targetObstacle?_eq T,
    P.narrowGetterObstacle?_eq F T,
    P.methodObstacle?_eq F.options T (P.isSome_narrowGetter?_eq F T)]

theorem forwarders_eq (T : P.Targets t t') : g.forwarders t = g'.forwarders t' := by
  rw [Generator.forwarders_eq_map, Generator.forwarders_eq_map]
  refine map_eq_of_forall₂ (P.forwarded F.options T (P.isSome_narrowGetter?_eq F T)) ?_
  intro m m' h
  obtain rfl := F.methods h
  rw [Generator.forwarder, Generator.forwarder, P.signature_eq h]

/-- **The proxies for paired targets**, or the same refusal. -/
theorem proxy (T : P.Targets t t') (cache : ScopeCache) :
    SameOutcome P.Proxies (g.proxy cache t) (g'.proxy cache t') := by
  have hgetter : (g.narrowGetter? t).map g.getterType = (g'.narrowGetter? t').map g'.getterType :=
    map_eq_of_rel (P.narrowGetter? F T) fun m m' h => by
      obtain rfl := F.methods h
      exact P.getterType_eq m
  rw [Generator.proxy, Generator.proxy, P.proxyObstacle?_eq F T, hgetter, P.forwarders_eq F T]
  cases g'.proxyObstacle? t' with
  | some obstacle => exact .error _
  | none =>
    obtain ⟨hnone, hnone'⟩ | ⟨c, c', hc, hc', hcc⟩ := rel_cases T.cls
    · simp only [hnone, hnone']
      exact .ok ⟨T, rfl, rfl, rfl, rfl⟩
    · simp only [hc, hc', P.name_eq hcc, P.scopes_eq F]
      exact .ok ⟨T, rfl, rfl, rfl, rfl⟩

/-! ### Requests -/

omit F in
theorem lookup (kind : LazyKind) {p p' : String} (h : g.registry.SameReference p p') :
    SameOutcome P.Classes (g.lookup kind p) (g'.lookup kind p') := by
  rw [Generator.lookup, Generator.lookup]
  obtain ⟨hnone, hnone'⟩ | ⟨c, c', hc, hc', hcc⟩ := rel_cases (P.find? h)
  · rcases h with rfl | ⟨-, hknown⟩
    · rw [hnone, hnone']
      exact .error _
    · rw [contains, hnone] at hknown
      cases hknown
  · rw [hc, hc']
    exact .ok hcc

omit F in
theorem targetFor {cls cls' : Option String} {interfaces interfaces' : List String}
    (hcls : Option.Rel g.registry.SameReference cls cls')
    (hinterfaces : List.Forall₂ g.registry.SameReference interfaces interfaces') :
    SameOutcome P.Targets (g.targetFor cls interfaces) (g'.targetFor cls' interfaces') :=
  (SameOutcome.mapM_option hcls fun _ _ => P.lookup .proxy).bind fun _ _ hc =>
    (SameOutcome.mapM_list hinterfaces fun _ _ => P.lookup .proxy).bind fun _ _ hi => .ok ⟨hc, hi⟩

/-- **A request for a ghost.** -/
theorem ghostFor {p p' : String} (h : g.registry.SameReference p p') (cache : ScopeCache) :
    SameOutcome P.Ghosts (g.ghostFor cache p) (g'.ghostFor cache p') :=
  (P.lookup .ghost h).bind fun _ _ hc => P.ghost F hc cache

/-- **A request for a proxy.** -/
theorem proxyFor {cls cls' : Option String} {interfaces interfaces' : List String}
    (hcls : Option.Rel g.registry.SameReference cls cls')
    (hinterfaces : List.Forall₂ g.registry.SameReference interfaces interfaces')
    (cache : ScopeCache) : SameOutcome P.Proxies (g.proxyFor cache cls interfaces)
      (g'.proxyFor cache cls' interfaces') :=
  (P.targetFor hcls hinterfaces).bind fun _ _ T => P.proxy F T cache

end Generators

end Registry.Pairing

end LazyClasses
