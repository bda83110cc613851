import LazyClasses.Proofs.FoldedTypes
import LazyClasses.Proofs.PairedGenerators
import LazyClasses.Proofs.Registration
/-! # The case of the names of the language, and lazy classes

Registries whose methods differ only in the case of the names of the language in their result types
make the same decisions, with one exception: whether a `__get` is of type `mixed` is asked of the
rendered text as it stands. The verdicts on a class agree as far as these answers do.

* `Registry.SameFolded`: the registries, but for the case of those names.
* `ghostVerdict`, `proxyVerdict`: success or the kind of failure, and the names that are declared.
* `WritesMixed`: a method of type `mixed` has it in lower case.
* `verdicts_of_folded`: when the verdicts agree. -/

namespace LazyClasses

/-! ### Classes up to the case of the names of the language -/

/-- The method with the names of the language in lower case. -/
def Method.foldBuiltins (m : Method) : Method :=
  { m with returnType := m.returnType.map TypeHint.foldBuiltins }

/-- The class with the names of the language in the result types of its methods in lower case. -/
def ClassDecl.foldBuiltins (c : ClassDecl) : ClassDecl :=
  { c with methods := c.methods.map Method.foldBuiltins }

def Target.foldBuiltins (t : Target) : Target :=
  ⟨t.cls.map ClassDecl.foldBuiltins, t.interfaces.map ClassDecl.foldBuiltins⟩

/-- The same classes are found, up to the case of the names of the language in result types. -/
def Registry.SameFolded (r r' : Registry) : Prop :=
  ∀ name, (r.find? name).map ClassDecl.foldBuiltins = (r'.find? name).map ClassDecl.foldBuiltins

theorem rel_of_map_eq {α β γ : Type} {f : α → γ} {g : β → γ} {a? : Option α} {b? : Option β}
    (h : a?.map f = b?.map g) : Option.Rel (fun a b => f a = g b) a? b? := by
  cases a? with
  | none =>
    obtain rfl := Option.map_eq_none_iff.1 h.symm
    exact .none
  | some a =>
    obtain ⟨b, rfl, hb⟩ := Option.map_eq_some_iff.1 h.symm
    exact .some hb.symm

theorem forall₂_of_map_eq {α β γ : Type} {f : α → γ} {g : β → γ} {l : List α} {l' : List β}
    (h : l.map f = l'.map g) : List.Forall₂ (fun a b => f a = g b) l l' := by
  rw [← List.forall₂_map_right_iff, ← List.forall₂_map_left_iff, h]
  exact List.forall₂_same.2 fun _ _ => rfl

theorem forall₂_and {α β : Type} {R : α → β → Prop} {p : α → Prop} {q : β → Prop} {l : List α}
    {l' : List β} (h : List.Forall₂ R l l') (hp : ∀ a ∈ l, p a) (hq : ∀ b ∈ l', q b) :
    List.Forall₂ (fun a b => R a b ∧ p a ∧ q b) l l' := by
  induction h with
  | nil => exact .nil
  | cons hab _ ih =>
    obtain ⟨ha, hp⟩ := List.forall_mem_cons.1 hp
    obtain ⟨hb, hq⟩ := List.forall_mem_cons.1 hq
    exact .cons ⟨hab, ha, hb⟩ (ih hp hq)

theorem ClassDecl.name_eq_of_fold {c c' : ClassDecl} (h : c.foldBuiltins = c'.foldBuiltins) :
    c.name = c'.name := by
  have hname := congrArg ClassDecl.name h
  exact hname

theorem normalize_foldBuiltins (c : ClassDecl) :
    c.normalize.foldBuiltins = c.foldBuiltins.normalize := by
  have hmethods : (c.methods.map (Method.normalize (ClassName.bare c.name) c.isInterface)).map
        Method.foldBuiltins =
      (c.methods.map Method.foldBuiltins).map
        (Method.normalize (ClassName.bare c.name) c.isInterface) := by
    rw [List.map_map, List.map_map]
    rfl
  exact congrArg (fun methods => { c.normalize with methods }) hmethods

/-- Registering keeps classes the same up to that case. -/
theorem Registry.sameFolded_insertAll {l l' : List ClassDecl}
    (h : l.map ClassDecl.foldBuiltins = l'.map ClassDecl.foldBuiltins) :
    (insertAll ∅ l).SameFolded (insertAll ∅ l') := by
  intro name
  have hall : List.Forall₂ (fun c c' => c.foldBuiltins = c'.foldBuiltins)
      (ClassDecl.stdClass :: l) (ClassDecl.stdClass :: l') := .cons rfl (forall₂_of_map_eq h)
  refine map_eq_of_rel (rel_find?_insertAll hall (fun c c' => ClassDecl.name_eq_of_fold)
    (fun c c' hc => ?_) name) fun c c' hc => hc
  rw [normalize_foldBuiltins, hc, normalize_foldBuiltins]

theorem returnsNothing_foldBuiltins (m : Method) :
    m.foldBuiltins.returnsNothing = m.returnsNothing := by
  rw [Method.returnsNothing, Method.returnsNothing, Method.foldBuiltins]
  cases m.returnType with
  | none => rfl
  | some hint =>
    cases hint with
    | named name nullable =>
      simp only [Option.map_some, TypeHint.foldBuiltins, TypeHint.same_foldName]
    | union members => simp only [Option.map_some, TypeHint.foldBuiltins]
    | intersection members => simp only [Option.map_some, TypeHint.foldBuiltins]

/-- Classes and methods stand for those with the same folded form. -/
def Registry.folded {r r' : Registry} (h : r.SameFolded r') : Registry.Pairing r r' where
  Classes c c' := c.foldBuiltins = c'.foldBuiltins
  Methods m m' := m.foldBuiltins = m'.foldBuiltins
  found name := rel_of_map_eq (h name)
  frame {c c'} hc := by
    obtain ⟨⟩ := c
    obtain ⟨⟩ := c'
    simp only [ClassDecl.foldBuiltins, ClassDecl.mk.injEq] at hc
    obtain ⟨rfl, rfl, rfl, rfl, rfl, rfl, -, -, -, rfl⟩ := hc
    rfl
  parent {c c'} hc := by
    have hparent : c.foldBuiltins.parent = c'.foldBuiltins.parent := by rw [hc]
    rw [show c.parent = c'.parent from hparent]
    exact rel_self (fun _ => .inl rfl) _
  references {c c'} hc := by
    have hinterfaces : c.foldBuiltins.interfaces = c'.foldBuiltins.interfaces := by rw [hc]
    rw [show c.interfaces = c'.interfaces from hinterfaces]
    exact List.forall₂_same.2 fun _ _ => .inl rfl
  declared hc := forall₂_of_map_eq (congrArg ClassDecl.methods hc)
  outline {m m'} hm := by
    obtain ⟨⟩ := m
    obtain ⟨⟩ := m'
    simp only [Method.foldBuiltins, Method.mk.injEq] at hm
    obtain ⟨rfl, rfl, rfl, rfl, rfl, rfl, rfl, rfl, -, rfl⟩ := hm
    rfl
  returnsNothing {m m'} hm := by
    rw [← returnsNothing_foldBuiltins m, hm, returnsNothing_foldBuiltins]
  result hm := rel_imp (rel_of_map_eq (congrArg Method.returnType hm)) fun _ _ =>
    TypeHint.sameClasses_of_fold

/-! ### Verdicts -/

/-- The obstacle without its texts. -/
def Obstacle.variant : Obstacle → Obstacle
  | .internalAncestor _ => .internalAncestor ""
  | .incompatibleGetter _ => .incompatibleGetter ""
  | .finalMethod _ => .finalMethod ""
  | obstacle => obstacle

/-- The verdict that the first obstacle leads to, if there is one. -/
def verdictOf {α : Type} (result : α) : Option Obstacle → Except Obstacle α
  | some obstacle => .error obstacle.variant
  | none => .ok result

theorem verdictOf_congr {α : Type} {o? o'? : Option Obstacle}
    (h : o?.map Obstacle.variant = o'?.map Obstacle.variant) (result : α) :
    verdictOf result o? = verdictOf result o'? := by
  obtain ⟨rfl, rfl⟩ | ⟨o, o', rfl, rfl, ho⟩ := rel_cases (rel_of_map_eq h)
  · rfl
  · exact congrArg Except.error ho

/-- The names of the methods that a proxy declares. -/
def Proxy.methodNames (p : Proxy) : List String :=
  (if p.target.cls.isNone then ["initializeLazyObject"] else []) ++
    (p.getterType.map fun _ => "__get").toList ++ p.forwarders.map (·.method.name)

namespace Generator

/-- Whether there is a ghost, and if not, for what kind of reason. -/
def ghostVerdict (g : Generator) (cache : ScopeCache) (c : ClassDecl) : Except Obstacle Unit :=
  ((g.ghost cache c).mapError (·.obstacle.variant)).map fun _ => ()

/-- The names that the proxy declares, or for what kind of reason there is none. -/
def proxyVerdict (g : Generator) (cache : ScopeCache) (t : Target) :
    Except Obstacle (List String) :=
  ((g.proxy cache t).mapError (·.obstacle.variant)).map (·.1.methodNames)

variable {g g' : Generator} {c c' : ClassDecl} {t t' : Target} {m m' : Method}

/-! ### Ghosts -/

theorem variant_getterObstacle? {o : Obstacle} (h : g.getterObstacle? c = some o) :
    o.variant = .incompatibleGetter "" := by
  unfold getterObstacle? at h
  split at h
  · split_ifs at h
    obtain rfl := Option.some.inj h
    rfl
  · cases h

/-- What comes behind the check of `__get` has another cause. -/
theorem variant_ne_of_later {o : Obstacle}
    (h : (g.traitObstacle? c).or (g.ancestorObstacle? c) = some o) :
    o.variant ≠ .incompatibleGetter "" := by
  rcases Option.or_eq_some_iff.1 h with h | ⟨-, h⟩
  · obtain ⟨name, -, hname⟩ := List.exists_of_findSome?_eq_some h
    split at hname
    · split_ifs at hname
      obtain rfl := Option.some.inj hname
      simp [Obstacle.variant]
    · cases hname
  · obtain ⟨a, -, rfl⟩ := Option.map_eq_some_iff.1 h
    simp [Obstacle.variant]

theorem ghostVerdict_eq (g : Generator) (cache : ScopeCache) (c : ClassDecl) :
    g.ghostVerdict cache c = verdictOf () (g.ghostObstacle? c) := by
  rw [ghostVerdict, ghost]
  cases g.ghostObstacle? c <;> rfl

/-- **The verdicts on a ghost agree** unless just one `__get` is of type `mixed` as it stands. -/
theorem ghostVerdict_eq_iff (ho : g.options = g'.options)
    (h : g.registry.SameFolded g'.registry) (cache cache' : ScopeCache)
    (hc : c.foldBuiltins = c'.foldBuiltins) :
    g.ghostVerdict cache c = g'.ghostVerdict cache' c' ↔ (g.shapeObstacle? c).isSome = true ∨
      (g.getterObstacle? c).isSome = (g'.getterObstacle? c').isSome := by
  let P := Registry.folded h
  rw [ghostVerdict_eq, ghostVerdict_eq, ghostObstacle?, ghostObstacle?,
    ← P.shapeObstacle?_eq ho hc, ← P.traitObstacle?_eq hc, ← P.ancestorObstacle?_eq ho hc]
  cases g.shapeObstacle? c with
  | some o => exact iff_of_true rfl (.inl rfl)
  | none =>
    have hlater := @variant_ne_of_later g c
    generalize (g.traitObstacle? c).or (g.ancestorObstacle? c) = later at hlater
    -- A refusal of `__get` is no refusal of another kind, and no success.
    have hne {o : Obstacle} (hvariant : o.variant = .incompatibleGetter "") :
        verdictOf () later ≠ verdictOf () (some o) := by
      cases later with
      | none => simp [verdictOf]
      | some obstacle =>
        rw [verdictOf, verdictOf, hvariant]
        exact fun heq => hlater rfl (Except.error.inj heq)
    simp only [Option.none_or, Option.isSome_none, Bool.false_eq_true, false_or]
    cases hget : g.getterObstacle? c with
    | none =>
      cases hget' : g'.getterObstacle? c' with
      | none => exact iff_of_true rfl rfl
      | some o' => exact iff_of_false (hne (variant_getterObstacle? hget')) Bool.false_ne_true
    | some o =>
      cases hget' : g'.getterObstacle? c' with
      | none =>
        exact iff_of_false (hne (variant_getterObstacle? hget)).symm Bool.false_ne_true.symm
      | some o' =>
        refine iff_of_true (congrArg Except.error ?_) rfl
        rw [variant_getterObstacle? hget, variant_getterObstacle? hget']

/-! ### Proxies -/

/-- The names that a proxy declares if nothing is in the way. -/
def namesToDeclare (g : Generator) (t : Target) : List String :=
  (if t.cls.isNone then ["initializeLazyObject"] else []) ++
    (if (g.narrowGetter? t).isSome then ["__get"] else []) ++
    (forwarded (g.decisions t)).map (·.name)

theorem proxyVerdict_eq (g : Generator) (cache : ScopeCache) (t : Target) :
    g.proxyVerdict cache t =
      verdictOf (g.namesToDeclare t) ((g.proxyObstacle? t).map Prod.snd) := by
  have hnames (scopes : Option ScopeMap) :
      Proxy.methodNames ⟨t, scopes, (g.narrowGetter? t).map g.getterType, g.forwarders t⟩ =
        g.namesToDeclare t := by
    rw [Proxy.methodNames, namesToDeclare, forwarders_eq_map, List.map_map]
    cases g.narrowGetter? t <;> rfl
  rw [proxyVerdict, proxy]
  cases g.proxyObstacle? t with
  | some o => rfl
  | none =>
    cases t.cls with
    | none => exact congrArg Except.ok (hnames none)
    | some c => exact congrArg Except.ok (hnames _)

/-- Whether a proxy declares `__get` hangs on whether some `__get` is narrow. -/
theorem get_mem_namesToDeclare_iff (h : g.proxyObstacle? t = none) :
    "__get" ∈ g.namesToDeclare t ↔ (g.narrowGetter? t).isSome = true := by
  have hforwarded : "__get" ∉ (forwarded (g.decisions t)).map (·.name) := by
    intro hmem
    obtain ⟨m, hm, hname⟩ := List.mem_map.1 hmem
    have hf : g.forwarder m ∈ g.forwarders t := by
      rw [forwarders_eq_map]
      exact List.mem_map_of_mem hm
    have hfree : Support.isProxyMethod m.name = false := (required_of_mem_forwarders h hf).2.2.1
    rw [hname] at hfree
    exact absurd hfree (by decide)
  have hinitializer : "__get" ∉ if t.cls.isNone then ["initializeLazyObject"] else [] := by
    split <;> decide
  rw [namesToDeclare, List.mem_append, List.mem_append, or_iff_left hforwarded,
    or_iff_right hinitializer]
  cases (g.narrowGetter? t).isSome <;> decide

theorem narrowGetterObstacle?_eq_none_iff : g.narrowGetterObstacle? t = none ↔
    (g.narrowGetter? t).map Method.isFinal ≠ some true := by
  rw [narrowGetterObstacle?]
  cases g.narrowGetter? t with
  | none => simp
  | some m => cases hfinal : m.isFinal <;> simp [hfinal]

theorem narrowGetter?_of_obstacle {o : String × Obstacle}
    (h : g.narrowGetterObstacle? t = some o) :
    (g.narrowGetter? t).map Method.isFinal = some true := by
  by_contra hfinal
  rw [narrowGetterObstacle?_eq_none_iff.2 hfinal] at h
  cases h

theorem variant_narrowGetterObstacle? (g : Generator) (t : Target) :
    (g.narrowGetterObstacle? t).map (Obstacle.variant ∘ Prod.snd) =
      if (g.narrowGetter? t).map Method.isFinal = some true then some (.finalMethod "")
      else none := by
  rw [narrowGetterObstacle?]
  cases g.narrowGetter? t with
  | none => rfl
  | some m => cases hfinal : m.isFinal <;> simp [hfinal, Obstacle.variant]

section Folded

variable (ho : g.options = g'.options) (h : g.registry.SameFolded g'.registry)
  (ht : t.foldBuiltins = t'.foldBuiltins)

include ht in
theorem targets_of_fold : (Registry.folded h).Targets t t' where
  cls := rel_of_map_eq (congrArg Target.cls ht)
  interfaces := forall₂_of_map_eq (congrArg Target.interfaces ht)

include ho h ht

/-- The verdicts on a proxy agree if the first narrow `__get` is final in both or neither. -/
theorem proxyVerdict_eq_of_narrowGetter? (cache cache' : ScopeCache)
    (hfinal : (g.narrowGetter? t).map Method.isFinal = (g'.narrowGetter? t').map Method.isFinal) :
    g.proxyVerdict cache t = g'.proxyVerdict cache' t' := by
  let P := Registry.folded h
  have T : P.Targets t t' := targets_of_fold h ht
  have hn : (g.narrowGetter? t).isSome = (g'.narrowGetter? t').isSome := by
    rw [← Option.isSome_map, hfinal, Option.isSome_map]
  have hnames : g.namesToDeclare t = g'.namesToDeclare t' := by
    rw [namesToDeclare, namesToDeclare, ← Option.not_isSome, ← Option.not_isSome, P.isSome_eq T, hn,
      map_eq_of_forall₂ (P.forwarded ho T hn) fun m m' => P.methodName_eq]
  rw [proxyVerdict_eq, proxyVerdict_eq, hnames]
  refine verdictOf_congr ?_ _
  rw [Option.map_map, Option.map_map, proxyObstacle?, proxyObstacle?, P.targetObstacle?_eq T,
    P.methodObstacle?_eq ho T hn, Option.map_or, Option.map_or, Option.map_or, Option.map_or,
    variant_narrowGetterObstacle?, variant_narrowGetterObstacle?, hfinal]

omit ho in
/-- Where nothing else is in the way, they agree only then. -/
theorem narrowGetter?_eq_of_proxyVerdict (cache cache' : ScopeCache)
    (htarget : g.targetObstacle? t = none) (hmethod : g.methodObstacle? t = none)
    (hmethod' : g'.methodObstacle? t' = none)
    (hverdict : g.proxyVerdict cache t = g'.proxyVerdict cache' t') :
    (g.narrowGetter? t).map Method.isFinal = (g'.narrowGetter? t').map Method.isFinal := by
  let P := Registry.folded h
  have htarget' : g'.targetObstacle? t' = none :=
    (P.targetObstacle?_eq (targets_of_fold h ht)).symm.trans htarget
  have hobstacle : g.proxyObstacle? t = g.narrowGetterObstacle? t := by
    rw [proxyObstacle?, htarget, hmethod, Option.none_or, Option.or_none]
  have hobstacle' : g'.proxyObstacle? t' = g'.narrowGetterObstacle? t' := by
    rw [proxyObstacle?, htarget', hmethod', Option.none_or, Option.or_none]
  rw [proxyVerdict_eq, proxyVerdict_eq, hobstacle, hobstacle'] at hverdict
  cases hgetter : g.narrowGetterObstacle? t with
  | some o =>
    cases hgetter' : g'.narrowGetterObstacle? t' with
    | some o' => rw [narrowGetter?_of_obstacle hgetter, narrowGetter?_of_obstacle hgetter']
    | none =>
      rw [hgetter, hgetter'] at hverdict
      cases hverdict
  | none =>
    cases hgetter' : g'.narrowGetterObstacle? t' with
    | some o' =>
      rw [hgetter, hgetter'] at hverdict
      cases hverdict
    | none =>
      rw [hgetter, hgetter'] at hverdict
      have hnames : g.namesToDeclare t = g'.namesToDeclare t' := Except.ok.inj hverdict
      have hsome : (g.narrowGetter? t).isSome = (g'.narrowGetter? t').isSome := by
        rw [Bool.eq_iff_iff, ← get_mem_namesToDeclare_iff (hobstacle.trans hgetter), hnames,
          get_mem_namesToDeclare_iff (hobstacle'.trans hgetter')]
      have hfinal := narrowGetterObstacle?_eq_none_iff.1 hgetter
      have hfinal' := narrowGetterObstacle?_eq_none_iff.1 hgetter'
      -- Neither is final, so they agree as soon as they are both there or both not.
      revert hsome hfinal hfinal'
      cases g.narrowGetter? t <;> cases g'.narrowGetter? t' <;> simp +contextual

end Folded

/-! ### The type of `__get` -/

/-- If the method is of type `mixed`, in any case of letters, then it is written so. -/
def WritesMixed (g : Generator) (m : Method) : Prop :=
  Text.same (g.getterType m) "mixed" = true → g.getterType m = "mixed"

theorem WritesMixed.getterType_eq_iff (hm : g.WritesMixed m) :
    g.getterType m = "mixed" ↔ Text.same (g.getterType m) "mixed" = true :=
  ⟨fun h => h ▸ Text.same_refl _, hm⟩

section Getters

variable (h : g.registry.SameFolded g'.registry)

include h

/-- Both say `mixed`, in some case of letters, or neither does. -/
theorem same_getterType_mixed (hm : m.foldBuiltins = m'.foldBuiltins) :
    Text.same (g.getterType m) "mixed" = Text.same (g'.getterType m') "mixed" := by
  have hdeclaring : m.foldBuiltins.declaringClass = m'.foldBuiltins.declaringClass := by rw [hm]
  have hscope : g.registry.scope m.declaringClass = g'.registry.scope m'.declaringClass := by
    rw [show m.declaringClass = m'.declaringClass from hdeclaring, (Registry.folded h).scope_eq]
  rw [getterType, getterType, hscope]
  obtain ⟨hnone, hnone'⟩ | ⟨hint, hint', hhint, hhint', hfold⟩ :=
    rel_cases (rel_of_map_eq (congrArg Method.returnType hm))
  · rw [hnone, hnone']
  · have hfold : hint.foldBuiltins = hint'.foldBuiltins := hfold
    simp only [hhint, hhint']
    rw [← (TypeHint.alike_render_foldBuiltins _ hint).isMixed, hfold,
      (TypeHint.alike_render_foldBuiltins _ hint').isMixed]

/-- Where `mixed` is written so, the checks of `__get` answer alike. -/
theorem getterType_eq_mixed_congr (hfold : m.foldBuiltins = m'.foldBuiltins) (hm : g.WritesMixed m)
    (hm' : g'.WritesMixed m') : g.getterType m = "mixed" ↔ g'.getterType m' = "mixed" := by
  rw [hm.getterType_eq_iff, hm'.getterType_eq_iff, same_getterType_mixed h hfold]

theorem isSome_getterObstacle?_eq (hc : c.foldBuiltins = c'.foldBuiltins)
    (hget : ∀ m, g.registry.method? c "__get" = some m → g.WritesMixed m)
    (hget' : ∀ m, g'.registry.method? c' "__get" = some m → g'.WritesMixed m) :
    (g.getterObstacle? c).isSome = (g'.getterObstacle? c').isSome := by
  rw [getterObstacle?, getterObstacle?]
  obtain ⟨hnone, hnone'⟩ | ⟨m, m', hm, hm', hfold⟩ :=
    rel_cases ((Registry.folded h).method? hc "__get")
  · rw [hnone, hnone']
  · simp only [hm, hm', getterType_eq_mixed_congr h hfold (hget m hm) (hget' m' hm')]
    split <;> rfl

theorem isFinal_narrowGetter?_eq (ht : t.foldBuiltins = t'.foldBuiltins)
    (hget : ∀ m ∈ g.candidates t, isGetter m = true → g.WritesMixed m)
    (hget' : ∀ m ∈ g'.candidates t', isGetter m = true → g'.WritesMixed m) :
    (g.narrowGetter? t).map Method.isFinal = (g'.narrowGetter? t').map Method.isFinal := by
  let P := Registry.folded h
  have hcandidates := forall₂_and (P.candidates (targets_of_fold h ht)) hget hget'
  rw [narrowGetter?, narrowGetter?]
  refine map_eq_of_rel (rel_find? hcandidates ?_) fun m m' hm => by rw [P.outline hm.1]
  rintro m m' ⟨hfold, hm, hm'⟩
  have hname : isGetter m = isGetter m' := by rw [isGetter, isGetter, P.methodName_eq hfold]
  cases hgetter : isGetter m with
  | false => rw [← hname, hgetter, Bool.false_and, Bool.false_and]
  | true =>
    rw [← hname, hgetter, Bool.true_and, Bool.true_and, Bool.eq_iff_iff, bne_iff_ne, bne_iff_ne,
      ne_eq, ne_eq, getterType_eq_mixed_congr h hfold (hm hgetter) (hm' (hname ▸ hgetter))]

end Getters

/-- **The case of the names of the language**: it does not matter to a lazy class, as long as each
`__get` of type `mixed` has it in lower case. Whether a `__get` is of type `mixed` is asked of the
text as it stands, and this is the one question to which the case can matter: the verdicts on a
ghost agree iff the class is refused before that or the answers agree; those on a proxy agree if the
first `__get` with a narrow type is there in both or neither, and final in both or neither, and
where nothing else is in the way, only then. -/
theorem verdicts_of_folded (ho : g.options = g'.options)
    (h : g.registry.SameFolded g'.registry) (cache cache' : ScopeCache) :
    (∀ c c', c.foldBuiltins = c'.foldBuiltins →
      ((∀ m, g.registry.method? c "__get" = some m → g.WritesMixed m) →
        (∀ m, g'.registry.method? c' "__get" = some m → g'.WritesMixed m) →
        g.ghostVerdict cache c = g'.ghostVerdict cache' c') ∧
      (g.ghostVerdict cache c = g'.ghostVerdict cache' c' ↔ (g.shapeObstacle? c).isSome = true ∨
        (g.getterObstacle? c).isSome = (g'.getterObstacle? c').isSome)) ∧
    ∀ t t', t.foldBuiltins = t'.foldBuiltins →
      ((∀ m ∈ g.candidates t, isGetter m = true → g.WritesMixed m) →
        (∀ m ∈ g'.candidates t', isGetter m = true → g'.WritesMixed m) →
        g.proxyVerdict cache t = g'.proxyVerdict cache' t') ∧
      ((g.narrowGetter? t).map Method.isFinal = (g'.narrowGetter? t').map Method.isFinal →
        g.proxyVerdict cache t = g'.proxyVerdict cache' t') ∧
      (g.targetObstacle? t = none → g.methodObstacle? t = none → g'.methodObstacle? t' = none →
        g.proxyVerdict cache t = g'.proxyVerdict cache' t' →
        (g.narrowGetter? t).map Method.isFinal = (g'.narrowGetter? t').map Method.isFinal) := by
  refine ⟨fun c c' hc => ?_, fun t t' ht => ?_⟩
  · have hiff := ghostVerdict_eq_iff ho h cache cache' hc
    exact ⟨fun hget hget' => hiff.2 (.inr (isSome_getterObstacle?_eq h hc hget hget')), hiff⟩
  · have hproxy := proxyVerdict_eq_of_narrowGetter? ho h ht cache cache'
    exact ⟨fun hget hget' => hproxy (isFinal_narrowGetter?_eq h ht hget hget'), hproxy,
      narrowGetter?_eq_of_proxyVerdict h ht cache cache'⟩

end Generator

namespace Sample

open Generator Registry

/-- A class with a `__get` and one more method, of the types that are given. -/
def lens (get focus : String) : ClassDecl where
  name := "Lens"
  methods := [
    { name := "__get", declaringClass := "Lens", returnType := some (.named get false) },
    { name := "focus", declaringClass := "Lens", returnType := some (.named focus false) }]

/-- The generator that knows the class. -/
def lenses (get focus : String) : Generator where
  registry := insertAll ∅ [lens get focus]

theorem getterObstacle?_lens (focus : String) :
    (lenses "mixed" focus).getterObstacle? (lens "mixed" focus) = none ∧
    (lenses "Mixed" focus).getterObstacle? (lens "Mixed" focus) =
      some (.incompatibleGetter "Mixed") := by
  rw [getterObstacle?, getterObstacle?, method?_of_no_reference _ rfl rfl,
    method?_of_no_reference _ rfl rfl]
  exact ⟨rfl, rfl⟩

theorem methods_lens (get focus : String) :
    (lenses get focus).registry.methods (lens get focus) = (lens get focus).methods := by
  rw [methods_of_no_reference _ rfl rfl, lens, firstOfEach, firstBy, firstBy, firstBy]
  have hkey : Text.lower "focus" ∉ [Text.lower "__get"] := by decide
  exact (if_neg List.not_mem_nil).trans (congrArg _ (if_neg hkey))

theorem writesMixed_lens {focus : String} {m : Method} (hm : m ∈ (lens "mixed" focus).methods)
    (hname : isGetter m = true) : (lenses "mixed" focus).WritesMixed m := by
  obtain _ | ⟨_, _ | ⟨_, ⟨⟩⟩⟩ := hm
  · exact fun _ => rfl
  · exact absurd hname (by decide : ¬Text.same "focus" "__get" = true)

theorem fold_lens {get get' focus focus' : String}
    (hget : TypeHint.foldName get = TypeHint.foldName get')
    (hfocus : TypeHint.foldName focus = TypeHint.foldName focus') :
    (lens get focus).foldBuiltins = (lens get' focus').foldBuiltins := by
  simp only [lens, ClassDecl.foldBuiltins, Method.foldBuiltins, List.map_cons, List.map_nil,
    Option.map_some, TypeHint.foldBuiltins, hget, hfocus]

/-- The case of `void` does not show. -/
theorem lens_void : (lens "mixed" "void").foldBuiltins = (lens "mixed" "VOID").foldBuiltins ∧
    (lenses "mixed" "void").ghostVerdict ∅ (lens "mixed" "void") =
      (lenses "mixed" "VOID").ghostVerdict ∅ (lens "mixed" "VOID") ∧
    (lenses "mixed" "void").proxyVerdict ∅ ⟨some (lens "mixed" "void"), []⟩ =
      (lenses "mixed" "VOID").proxyVerdict ∅ ⟨some (lens "mixed" "VOID"), []⟩ := by
  have hfold : (lens "mixed" "void").foldBuiltins = (lens "mixed" "VOID").foldBuiltins :=
    fold_lens rfl (by decide)
  have hsame : (lenses "mixed" "void").registry.SameFolded (lenses "mixed" "VOID").registry :=
    sameFolded_insertAll (congrArg (fun c => [c]) hfold)
  have hget (focus : String) (m : Method)
      (hm : (lenses "mixed" focus).registry.method? (lens "mixed" focus) "__get" = some m) :
      (lenses "mixed" focus).WritesMixed m := by
    rw [method?_of_no_reference _ rfl rfl] at hm
    exact writesMixed_lens (List.mem_of_find?_eq_some hm) (List.find?_some hm)
  have hcandidates (focus : String) (m : Method)
      (hm : m ∈ (lenses "mixed" focus).candidates ⟨some (lens "mixed" focus), []⟩) :
      isGetter m = true → (lenses "mixed" focus).WritesMixed m := by
    rw [candidates, Option.toList_some, List.flatMap_singleton, List.flatMap_nil, List.append_nil,
      methods_lens] at hm
    exact writesMixed_lens (List.mem_of_mem_filter hm)
  have hoptions : (lenses "mixed" "void").options = (lenses "mixed" "VOID").options := rfl
  obtain ⟨hghost, hproxy⟩ := verdicts_of_folded hoptions hsame ∅ ∅
  have htarget : (⟨some (lens "mixed" "void"), []⟩ : Target).foldBuiltins =
      (⟨some (lens "mixed" "VOID"), []⟩ : Target).foldBuiltins :=
    congrArg (fun c => (⟨some c, []⟩ : Target)) hfold
  exact ⟨hfold, (hghost _ _ hfold).1 (hget "void") (hget "VOID"),
    (hproxy _ _ htarget).1 (hcandidates "void") (hcandidates "VOID")⟩

/-- The case of `mixed` does: the class whose `__get` is of type `Mixed` is refused. -/
theorem lens_mixed : (lens "mixed" "void").foldBuiltins = (lens "Mixed" "void").foldBuiltins ∧
    (lenses "mixed" "void").registry.SameFolded (lenses "Mixed" "void").registry ∧
    (lenses "mixed" "void").ghostVerdict ∅ (lens "mixed" "void") = .ok () ∧
    (lenses "Mixed" "void").ghostVerdict ∅ (lens "Mixed" "void") =
      .error (.incompatibleGetter "") := by
  have hfold : (lens "mixed" "void").foldBuiltins = (lens "Mixed" "void").foldBuiltins :=
    fold_lens (by decide) rfl
  have htrait : (lenses "mixed" "void").traitObstacle? (lens "mixed" "void") = none := by
    simp only [traitObstacle?, method?_of_no_reference _
      (show (lens "mixed" "void").parent = none from rfl) rfl]
    decide
  have hancestor : (lenses "mixed" "void").ancestorObstacle? (lens "mixed" "void") = none := by
    rw [ancestorObstacle?, ancestors_of_parent_eq_none _ rfl]
    rfl
  refine ⟨hfold, sameFolded_insertAll (congrArg (fun c => [c]) hfold), ?_, ?_⟩
  · rw [ghostVerdict_eq, ghostObstacle?, (getterObstacle?_lens "void").1, htrait, hancestor]
    rfl
  · have hshape : (lenses "Mixed" "void").shapeObstacle? (lens "Mixed" "void") = none := rfl
    rw [ghostVerdict_eq, ghostObstacle?, hshape, (getterObstacle?_lens "void").2, Option.none_or,
      Option.some_or]
    rfl

end Sample

end LazyClasses
