import LazyClasses.Proofs.PairedGenerators
import LazyClasses.Proofs.Registration
/-! # What a registry remembers

A registry is known by what it finds: it answers for the last class of each name, `stdClass` being
the first of all. So classes of different names may be registered in any order; no walk, no
signature and no lazy class tells the orders apart.

* `SameAnswers`: all questions that a registry answers.
* `sameAnswers_of_find?`: registries that find the same answer the same.
* `insertAll_lastOfEach`: what is registered, and that the order does not matter. -/

namespace LazyClasses

namespace Registry

/-- The registries answer every question alike, and from an empty cache generators over them
write the same lazy classes. -/
structure SameAnswers (r r' : Registry) : Prop where
  find? : ∀ name, r.find? name = r'.find? name
  size : r.size = r'.size
  scope : ∀ name, r.scope name = r'.scope name
  ancestors : ∀ c, r.ancestors c = r'.ancestors c
  interfaces : ∀ c, r.interfaces c = r'.interfaces c
  isA : ∀ c type, r.isA c type = r'.isA c type
  method? : ∀ c name, r.method? c name = r'.method? c name
  methods : ∀ c, r.methods c = r'.methods c
  prototype? : ∀ m, r.prototype? m = r'.prototype? m
  propertyScopes : ∀ name, r.propertyScopes name = r'.propertyScopes name
  signature : ∀ m withTypes, r.signature m withTypes = r'.signature m withTypes
  ghost : ∀ options c, (r.generator options).ghost ∅ c = (r'.generator options).ghost ∅ c
  ghostFor : ∀ options name,
    (r.generator options).ghostFor ∅ name = (r'.generator options).ghostFor ∅ name
  proxy : ∀ options t, (r.generator options).proxy ∅ t = (r'.generator options).proxy ∅ t
  proxyFor : ∀ options cls interfaces, (r.generator options).proxyFor ∅ cls interfaces =
    (r'.generator options).proxyFor ∅ cls interfaces

/-! ### Registries that find the same -/

section Identity

variable {r r' : Registry}

/-- Every class and every method stands for itself. -/
def identity (h : ∀ name, r.find? name = r'.find? name) : Pairing r r' :=
  Pairing.ofClasses Eq (fun name => h name ▸ rel_self (fun _ => rfl) _) (fun hc => by rw [hc])
    (fun hc => hc ▸ rel_self (fun _ => .inl rfl) _)
    (fun hc => hc ▸ List.forall₂_same.2 fun _ _ => .inl rfl)

variable (h : ∀ name, r.find? name = r'.find? name)

theorem eq_of_ghosts {made made' : Ghost × ScopeCache}
    (hmade : (identity h).Ghosts made made') :
    made = made' := by
  obtain ⟨⟨c, scopes⟩, cache⟩ := made
  obtain ⟨⟨c', scopes'⟩, cache'⟩ := made'
  obtain ⟨rfl, rfl, rfl⟩ := hmade
  rfl

theorem eq_of_targets {t t' : Target}
    (T : (identity h).Targets t t') :
    t = t' := by
  obtain ⟨cls, interfaces⟩ := t
  obtain ⟨cls', interfaces'⟩ := t'
  rw [show cls = cls' from eq_of_rel T.cls, show interfaces = interfaces' from
    eq_of_forall₂ T.interfaces]

theorem eq_of_proxies {made made' : Proxy × ScopeCache}
    (hmade : (identity h).Proxies made made') : made = made' := by
  obtain ⟨⟨t, scopes, getterType, forwarders⟩, cache⟩ := made
  obtain ⟨⟨t', scopes', getterType', forwarders'⟩, cache'⟩ := made'
  obtain ⟨T, rfl, rfl, rfl, rfl⟩ := hmade
  rw [show t = t' from eq_of_targets h T]

end Identity

/-- **A registry is known by what it finds** and by its size. -/
theorem sameAnswers_of_find? {r r' : Registry} (h : ∀ name, r.find? name = r'.find? name)
    (hsize : r.size = r'.size) : r.SameAnswers r' := by
  let P : Pairing r r' := identity h
  have F (options : Options) := P.faithful (fun m m' hm => hm) options
  have hcls (cls : Option String) : Option.Rel r.SameReference cls cls :=
    rel_self (fun _ => .inl rfl) cls
  have hinterfaces (interfaces : List String) :
      List.Forall₂ r.SameReference interfaces interfaces :=
    List.forall₂_same.2 fun _ _ => .inl rfl
  refine ⟨h, hsize, P.scope_eq, fun c => eq_of_forall₂ (P.ancestors rfl),
    fun c => eq_of_forall₂ (P.interfaces rfl), fun c type => P.isA_eq rfl (Text.same_refl _),
    fun c name => eq_of_rel (P.method? rfl name), fun c => eq_of_forall₂ (P.methods rfl),
    fun m => eq_of_rel (P.prototype? rfl), fun name => P.propertyScopes_eq (.inl rfl),
    fun m => P.signature_eq rfl, fun options c => ?_, fun options name => ?_, fun options t => ?_,
    fun options cls interfaces => ?_⟩
  · exact (P.ghost (F options) rfl ∅).eq fun made made' => eq_of_ghosts h
  · exact (P.ghostFor (F options) (.inl rfl) ∅).eq fun made made' => eq_of_ghosts h
  · have T : P.Targets t t := ⟨rel_self (fun _ => rfl) _, List.forall₂_same.2 fun _ _ => rfl⟩
    exact (P.proxy (F options) T ∅).eq fun made made' => eq_of_proxies h
  · exact (P.proxyFor (F options) (hcls cls) (hinterfaces interfaces) ∅).eq fun made made' =>
      eq_of_proxies h

/-- **What a registry remembers.** After any classes it finds under a name the last of them that has
the name up to a leading `\` and the case of letters, or `stdClass`, which is the first of all; it
knows as many classes as there are such names. If no two classes share a name, every order gives
the same answers. -/
theorem insertAll_lastOfEach :
    (∀ (l : List ClassDecl) (name : String), (insertAll ∅ l).find? name =
      ((ClassDecl.stdClass :: l).filter fun c =>
        Text.same (ClassName.bare c.name) (ClassName.bare name)).getLast?.map
          ClassDecl.normalize) ∧
    (∀ l : List ClassDecl, (insertAll ∅ l).size =
      ((ClassDecl.stdClass :: l).map fun c => Text.lower (ClassName.bare c.name)).toFinset.card) ∧
    ∀ l l' : List ClassDecl, l.Perm l' →
      (l.map fun c => Text.lower (ClassName.bare c.name)).Nodup →
      (insertAll ∅ l).SameAnswers (insertAll ∅ l') := by
  refine ⟨find?_insertAll_empty, size_insertAll_empty, fun l l' hperm hnodup => ?_⟩
  refine sameAnswers_of_find? (congrFun (find?_insertAll_perm hperm hnodup)) ?_
  rw [size_insertAll_empty, size_insertAll_empty]
  exact congrArg Finset.card (List.toFinset_eq_of_perm _ _ ((hperm.cons _).map _))

end Registry

/-- The class and the interface of its methods, in either order. -/
theorem Sample.sameAnswers_collections :
    Registry.SameAnswers (Registry.insertAll ∅ [bag, collection])
      (Registry.insertAll ∅ [collection, bag]) :=
  Registry.insertAll_lastOfEach.2.2 _ _ (List.Perm.swap _ _ _) (by decide)

end LazyClasses
