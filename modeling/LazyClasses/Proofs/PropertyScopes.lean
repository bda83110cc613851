import LazyClasses.Proofs.Ancestors
import LazyClasses.Proofs.FirstOfEach
import LazyClasses.Proofs.ScopeMap
import LazyClasses.PropertyScope.Inherited
import Mathlib.Data.List.Basic
import Mathlib.Data.List.Find
/-! # What the scope map of a class holds

The map is filled in two rounds: the class files what it sees, then each ancestor its private
properties. Here it is said without the rounds which names have a scope, and which one.

* `visible?`, `hidden?`: the property that a plain name stands for.
* `Scoped`: the names with their scopes.
* `WellNamed`: no two of these names collide.
* `scoped_privateKey_iff`, `scoped_protectedKey_iff`, `scoped_plain_iff`: the names of one kind.
* `get?_propertyScopes_iff`: the map is `Scoped`, neither more nor less.

The names of the first round are plain or mangled, those of the second too, but the second round
never overwrites a plain name. So a name is looked up in one of two ways: one with `NUL` is mangled
and filed for a single property, one without is plain and belongs to the nearest property. -/

namespace LazyClasses

/-! ### Mangled names -/

namespace Property

theorem toList_privateKey (cls name : String) :
    (privateKey cls name).toList = '\x00' :: (cls.toList ++ '\x00' :: name.toList) := by
  simp [privateKey, String.toList_append]

theorem protectedKey_eq (name : String) : protectedKey name = privateKey "*" name := by
  apply String.toList_injective
  rw [toList_privateKey]
  simp [protectedKey, String.toList_append]

theorem nul_mem_privateKey (cls name : String) : '\x00' ∈ (privateKey cls name).toList := by
  rw [toList_privateKey]
  exact List.mem_cons_self

theorem nul_mem_protectedKey (name : String) : '\x00' ∈ (protectedKey name).toList := by
  rw [protectedKey_eq]
  exact nul_mem_privateKey "*" name

/-- **A mangled name is read back**: between its two `NUL` stands the class. -/
theorem privateKey_inj {a b m n : String} (ha : '\x00' ∉ a.toList) (hm : '\x00' ∉ m.toList)
    (h : privateKey b n = privateKey a m) : b = a ∧ n = m := by
  have hlist := congrArg String.toList h.symm
  rw [toList_privateKey, toList_privateKey, List.cons_inj_right] at hlist
  obtain ⟨hcls, -, hname⟩ := (List.append_cons_inj_of_notMem ha hm).1 hlist
  exact ⟨String.toList_injective hcls.symm, String.toList_injective hname.symm⟩

theorem protectedKey_ne_privateKey {a m n : String} (ha : '\x00' ∉ a.toList)
    (hm : '\x00' ∉ m.toList) (hstar : a ≠ "*") : protectedKey n ≠ privateKey a m := by
  intro h
  rw [protectedKey_eq] at h
  exact hstar (privateKey_inj ha hm h).1.symm

end Property

open Property

/-! ### The names and their scopes -/

/-- No name of a property can be taken for that of another. -/
structure WellNamed (chain : List ClassDecl) : Prop where
  nul_class : ∀ a ∈ chain, '\x00' ∉ a.name.toList
  /-- `*` is how protected properties are marked. -/
  star : ∀ a ∈ chain, a.name ≠ "*"
  nul_property : ∀ a ∈ chain, ∀ p ∈ a.properties, '\x00' ∉ p.name.toList
  nodup : ∀ a ∈ chain, (a.properties.map Property.name).Nodup

/-- The property that the class sees under the name: its own, or else the nearest that it
inherits. -/
def visible? (c : ClassDecl) (ancestors : List ClassDecl) (name : String) :
    Option OwnedProperty :=
  (c.objectProperties.find? (·.property.name == name)).or
    (ancestors.findSome? fun a =>
      a.objectProperties.find? fun p => p.property.name == name && !p.property.isPrivate)

/-- The nearest private property of that name that an ancestor keeps to itself. -/
def hidden? (ancestors : List ClassDecl) (name : String) : Option OwnedProperty :=
  ancestors.findSome? fun a =>
    a.objectProperties.find? fun p => p.property.name == name && p.property.isPrivate

/-- The property is private to an ancestor. -/
def HiddenIn (ancestors : List ClassDecl) (p : OwnedProperty) : Prop :=
  (∃ a ∈ ancestors, p ∈ a.objectProperties) ∧ p.property.isPrivate = true

/-- The scope of a property that is reached through the class `owner`. -/
def OwnedProperty.scopeIn (owner : String) (p : OwnedProperty) : PropertyScope :=
  ⟨owner, p.property.name, if p.property.isReadonly then some p.declaring else none⟩

/-- **The names that have a scope**, with it. -/
inductive Scoped (c : ClassDecl) (ancestors : List ClassDecl) : String → PropertyScope → Prop
  /-- A private property of any class of the chain, reached through that class. -/
  | ofPrivate {a p} : a ∈ c :: ancestors → p ∈ a.properties → p.isStatic = false →
      p.isPrivate = true → Scoped c ancestors (privateKey a.name p.name)
        ⟨a.name, p.name, if p.isReadonly then some a.name else none⟩
  /-- A protected property that the class sees. -/
  | ofProtected {name p} : visible? c ancestors name = some p →
      p.property.visibility = .protectedAccess → Scoped c ancestors (protectedKey name)
        ⟨c.name, name, if p.property.isReadonly then some p.declaring else none⟩
  /-- Any property that the class sees. -/
  | ofVisible {name p} : visible? c ancestors name = some p → Scoped c ancestors name
        ⟨c.name, name, if p.property.isReadonly then some p.declaring else none⟩
  /-- The private property of an ancestor, where the class sees none of that name. -/
  | ofHidden {name p} : visible? c ancestors name = none → hidden? ancestors name = some p →
      Scoped c ancestors name
        ⟨p.declaring, name, if p.property.isReadonly then some p.declaring else none⟩

section Chain

variable {c : ClassDecl} {ancestors : List ClassDecl} {p : OwnedProperty} {k name : String}

/-! ### What a class sees, and what it does not -/

theorem mem_objectProperties {a : ClassDecl} : p ∈ a.objectProperties ↔
    p.declaring = a.name ∧ p.property ∈ a.properties ∧ p.property.isStatic = false := by
  rw [ClassDecl.objectProperties, List.mem_map]
  constructor
  · rintro ⟨q, hq, rfl⟩
    rw [List.mem_filter, Bool.not_eq_true'] at hq
    exact ⟨rfl, hq⟩
  · rintro ⟨hdecl, hmem, hstatic⟩
    refine ⟨p.property, List.mem_filter.2 ⟨hmem, by rw [hstatic]; rfl⟩, ?_⟩
    rw [← hdecl]

theorem nodup_name_objectProperties {a : ClassDecl} (h : (a.properties.map Property.name).Nodup) :
    (a.objectProperties.map (·.property.name)).Nodup := by
  rw [ClassDecl.objectProperties, List.map_map]
  exact h.sublist (List.filter_sublist.map _)

theorem find?_filter_name (q : OwnedProperty → Bool) (l : List OwnedProperty) (name : String) :
    (l.filter q).find? (·.property.name == name) =
      l.find? fun p => p.property.name == name && q p := by
  rw [List.find?_filter]
  refine List.find?_congr fun p _ => ?_
  rw [Bool.decide_and, Bool.decide_eq_true, Bool.decide_eq_true, Bool.and_comm]

theorem find?_offered (c : ClassDecl) (ancestors : List ClassDecl) (name : String) :
    (c.objectProperties ++
      (ancestors.flatMap ClassDecl.objectProperties).filter fun p => !p.property.isPrivate).find?
        (·.property.name == name) = visible? c ancestors name := by
  rw [List.find?_append, find?_filter_name, List.find?_flatMap, visible?]

theorem mem_visibleProperties :
    p ∈ visibleProperties c ancestors ↔ visible? c ancestors p.property.name = some p := by
  rw [visibleProperties, firstOfEachName, mem_firstBy_nil_iff, find?_offered]

theorem find?_hiddenProperties (ancestors : List ClassDecl) (name : String) :
    ((ancestors.flatMap ClassDecl.objectProperties).filter (·.property.isPrivate)).find?
      (·.property.name == name) = hidden? ancestors name := by
  rw [find?_filter_name, List.find?_flatMap, hidden?]

theorem mem_hiddenProperties :
    p ∈ (ancestors.flatMap ClassDecl.objectProperties).filter (·.property.isPrivate) ↔
      HiddenIn ancestors p := by
  rw [List.mem_filter, List.mem_flatMap, HiddenIn]

/-- What is seen is declared in the chain under that name, and by the class itself if it is
private. -/
theorem visible?_eq_some (h : visible? c ancestors name = some p) :
    p.property.name = name ∧ (∃ a ∈ c :: ancestors, p ∈ a.objectProperties) ∧
      (p.property.isPrivate = true → p ∈ c.objectProperties) := by
  rw [visible?, Option.or_eq_some_iff] at h
  rcases h with hown | ⟨-, hinherited⟩
  · have hp := List.find?_some hown
    have hmem := List.mem_of_find?_eq_some hown
    exact ⟨beq_iff_eq.1 hp, ⟨c, List.mem_cons_self, hmem⟩, fun _ => hmem⟩
  · obtain ⟨a, ha, hfind⟩ := List.exists_of_findSome?_eq_some hinherited
    have hp := List.find?_some hfind
    rw [Bool.and_eq_true, beq_iff_eq, Bool.not_eq_true'] at hp
    refine ⟨hp.1, ⟨a, List.mem_cons_of_mem _ ha, List.mem_of_find?_eq_some hfind⟩, ?_⟩
    rw [hp.2]
    exact fun h => absurd h Bool.false_ne_true

theorem hidden?_eq_some (h : hidden? ancestors name = some p) :
    p.property.name = name ∧ HiddenIn ancestors p := by
  obtain ⟨a, ha, hfind⟩ := List.exists_of_findSome?_eq_some h
  have hp := List.find?_some hfind
  rw [Bool.and_eq_true, beq_iff_eq] at hp
  exact ⟨hp.1, ⟨a, ha, List.mem_of_find?_eq_some hfind⟩, hp.2⟩

/-- A class sees all that it declares itself. -/
theorem visible?_of_mem (hnodup : (c.properties.map Property.name).Nodup)
    (hp : p ∈ c.objectProperties) : visible? c ancestors p.property.name = some p := by
  rw [visible?, find?_key (nodup_name_objectProperties hnodup) hp]
  rfl

namespace WellNamed

theorem nul_declared (hw : WellNamed (c :: ancestors)) {a : ClassDecl}
    (ha : a ∈ c :: ancestors) (hp : p ∈ a.objectProperties) :
    '\x00' ∉ p.property.name.toList :=
  hw.nul_property a ha _ (mem_objectProperties.1 hp).2.1

theorem nul_visible (hw : WellNamed (c :: ancestors)) (h : visible? c ancestors name = some p) :
    '\x00' ∉ name.toList := by
  obtain ⟨rfl, ⟨a, ha, hp⟩, -⟩ := visible?_eq_some h
  exact hw.nul_declared ha hp

theorem nul_hidden (hw : WellNamed (c :: ancestors)) (h : hidden? ancestors name = some p) :
    '\x00' ∉ name.toList := by
  obtain ⟨rfl, ⟨a, ha, hp⟩, -⟩ := hidden?_eq_some h
  exact hw.nul_declared (List.mem_cons_of_mem c ha) hp

end WellNamed

/-! ### The first round -/

/-- The names under which the class `owner` files a property that it sees. -/
def visibleKeys (owner : String) (p : OwnedProperty) : List String :=
  match p.property.visibility with
  | .privateAccess => [p.property.name, privateKey owner p.property.name]
  | .protectedAccess => [p.property.name, protectedKey p.property.name]
  | .publicAccess => [p.property.name]

theorem mem_visibleKeys {owner : String} : k ∈ visibleKeys owner p ↔ k = p.property.name ∨
    p.property.isPrivate = true ∧ k = privateKey owner p.property.name ∨
    p.property.visibility = .protectedAccess ∧ k = protectedKey p.property.name := by
  unfold visibleKeys Property.isPrivate
  cases p.property.visibility <;> simp

theorem get?_fileVisible (owner : String) (m : ScopeMap) (p : OwnedProperty) (k : String) :
    (fileVisible owner m p).get? k =
      if k ∈ visibleKeys owner p then some (p.scopeIn owner) else m.get? k := by
  unfold fileVisible visibleKeys
  cases p.property.visibility with
  | publicAccess =>
    simp only [ScopeMap.get?_insert, List.mem_singleton]
    rfl
  | protectedAccess =>
    simp only [ScopeMap.get?_insert, List.mem_cons, List.not_mem_nil, or_false]
    by_cases hname : k = p.property.name <;>
      by_cases hkey : k = protectedKey p.property.name <;>
        simp [hname, hkey, OwnedProperty.scopeIn]
  | privateAccess =>
    simp only [ScopeMap.get?_insert, List.mem_cons, List.not_mem_nil, or_false]
    by_cases hname : k = p.property.name <;>
      by_cases hkey : k = privateKey owner p.property.name <;>
        simp [hname, hkey, OwnedProperty.scopeIn]

theorem eq_name_or_privateKey {owner : String} (howner : '\x00' ∉ owner.toList)
    (h : k ∈ visibleKeys owner p) : k = p.property.name ∨
      ∃ cls : String, '\x00' ∉ cls.toList ∧ k = privateKey cls p.property.name := by
  rcases mem_visibleKeys.1 h with hname | ⟨-, hkey⟩ | ⟨-, hkey⟩
  · exact Or.inl hname
  · exact Or.inr ⟨owner, howner, hkey⟩
  · exact Or.inr ⟨"*", by decide, hkey.trans (protectedKey_eq _)⟩

/-- A name is filed for the properties of one name only. -/
theorem name_eq_of_mem_visibleKeys {owner : String} {q : OwnedProperty}
    (howner : '\x00' ∉ owner.toList) (hp : '\x00' ∉ p.property.name.toList)
    (hq : '\x00' ∉ q.property.name.toList) (hkp : k ∈ visibleKeys owner p)
    (hkq : k ∈ visibleKeys owner q) : p.property.name = q.property.name := by
  rcases eq_name_or_privateKey howner hkp with rfl | ⟨a, ha, rfl⟩
  · rcases eq_name_or_privateKey howner hkq with h | ⟨b, -, h⟩
    · exact h
    · exact absurd (h ▸ nul_mem_privateKey b q.property.name) hp
  · rcases eq_name_or_privateKey howner hkq with h | ⟨b, hb, h⟩
    · exact absurd (h ▸ nul_mem_privateKey a p.property.name) hq
    · exact (privateKey_inj hb hq h).2

/-- **After the first round** a name has the scope of the one property that is filed under it. -/
theorem get?_firstRound (hw : WellNamed (c :: ancestors)) (k : String) (s : PropertyScope) :
    ((visibleProperties c ancestors).foldl (fileVisible c.name) ∅).get? k = some s ↔
      ∃ p, visible? c ancestors p.property.name = some p ∧ k ∈ visibleKeys c.name p ∧
        p.scopeIn c.name = s := by
  have hc := hw.nul_class c List.mem_cons_self
  have hunique : ∀ p ∈ visibleProperties c ancestors, ∀ q ∈ visibleProperties c ancestors,
      k ∈ visibleKeys c.name p → k ∈ visibleKeys c.name q → p = q := by
    intro p hp q hq hkp hkq
    rw [mem_visibleProperties] at hp hq
    have hname := name_eq_of_mem_visibleKeys hc (hw.nul_visible hp) (hw.nul_visible hq) hkp hkq
    rw [hname, hq] at hp
    exact (Option.some.inj hp).symm
  rw [ScopeMap.get?_foldl_file (fun p _ m => get?_fileVisible c.name m p k) hunique,
    ScopeMap.get?_empty]
  simp [mem_visibleProperties]

/-- A plain name has the scope of the property that the class sees under it. -/
theorem get?_firstRound_of_plain (hw : WellNamed (c :: ancestors)) (hk : '\x00' ∉ k.toList) :
    ((visibleProperties c ancestors).foldl (fileVisible c.name) ∅).get? k =
      (visible? c ancestors k).map (·.scopeIn c.name) := by
  refine Option.ext fun s => ?_
  rw [get?_firstRound hw, Option.map_eq_some_iff]
  constructor
  · rintro ⟨p, hp, hkp, rfl⟩
    rcases eq_name_or_privateKey (hw.nul_class c List.mem_cons_self) hkp with rfl | ⟨a, -, rfl⟩
    · exact ⟨p, hp, rfl⟩
    · exact absurd (nul_mem_privateKey a _) hk
  · rintro ⟨p, hp, rfl⟩
    have hname := (visible?_eq_some hp).1
    exact ⟨p, hname ▸ hp, mem_visibleKeys.2 (Or.inl hname.symm), rfl⟩

/-! ### The second round -/

theorem fileHidden_eq (m : ScopeMap) (p : OwnedProperty) : fileHidden m p =
    (m.insert (privateKey p.declaring p.property.name) (p.scopeIn p.declaring)).insertIfNew
      p.property.name (p.scopeIn p.declaring) := rfl

theorem get?_fileHidden_of_nul (hk : '\x00' ∈ k.toList) (hp : '\x00' ∉ p.property.name.toList)
    (m : ScopeMap) : (fileHidden m p).get? k =
      if k ∈ [privateKey p.declaring p.property.name] then some (p.scopeIn p.declaring)
      else m.get? k := by
  have hname : k ≠ p.property.name := fun h => hp (h ▸ hk)
  rw [fileHidden_eq, ScopeMap.get?_insertIfNew, if_neg hname, ScopeMap.get?_insert]
  simp only [List.mem_singleton]

theorem get?_fileHidden_of_plain (hk : '\x00' ∉ k.toList) (p : OwnedProperty) (m : ScopeMap) :
    (fileHidden m p).get? k =
      if k = p.property.name then (m.get? k).or (some (p.scopeIn p.declaring)) else m.get? k := by
  have hkey : k ≠ privateKey p.declaring p.property.name :=
    fun h => hk (h ▸ nul_mem_privateKey _ _)
  rw [fileHidden_eq, ScopeMap.get?_insertIfNew, ScopeMap.get?_insert, if_neg hkey]

/-- A plain name keeps the scope it has, and otherwise gets that of the first property. -/
theorem get?_foldl_fileHidden_of_plain (hk : '\x00' ∉ k.toList) :
    ∀ (l : List OwnedProperty) (m : ScopeMap), (l.foldl fileHidden m).get? k =
      (m.get? k).or ((l.find? (·.property.name == k)).map fun p => p.scopeIn p.declaring)
  | [], m => by simp
  | p :: l, m => by
    rw [List.foldl_cons, get?_foldl_fileHidden_of_plain hk l, get?_fileHidden_of_plain hk]
    by_cases hname : k = p.property.name
    · rw [if_pos hname, List.find?_cons_of_pos (by simp [hname]), Option.or_assoc]
      rfl
    · rw [if_neg hname, List.find?_cons_of_neg (by simpa using Ne.symm hname)]

/-! ### The map -/

/-- **Plain names**: the property that the class sees, or else the nearest that is hidden. -/
theorem get?_scopesOf_of_plain (hw : WellNamed (c :: ancestors)) (hk : '\x00' ∉ k.toList) :
    (scopesOf c ancestors).get? k = ((visible? c ancestors k).map (·.scopeIn c.name)).or
      ((hidden? ancestors k).map fun p => p.scopeIn p.declaring) := by
  rw [scopesOf, get?_foldl_fileHidden_of_plain hk, get?_firstRound_of_plain hw hk,
    find?_hiddenProperties]

/-- A hidden property is told by its class and its name. -/
theorem eq_of_hiddenIn (hnames : ((c :: ancestors).map ClassDecl.name).Nodup)
    (hw : WellNamed (c :: ancestors)) {q : OwnedProperty} (hp : HiddenIn ancestors p)
    (hq : HiddenIn ancestors q)
    (hkey : privateKey p.declaring p.property.name = privateKey q.declaring q.property.name) :
    p = q := by
  obtain ⟨⟨a, ha, hpa⟩, -⟩ := hp
  obtain ⟨⟨b, hb, hqb⟩, -⟩ := hq
  have hb' := List.mem_cons_of_mem c hb
  have hdecl : q.declaring = b.name := (mem_objectProperties.1 hqb).1
  obtain ⟨hcls, hname⟩ := privateKey_inj (hdecl ▸ hw.nul_class b hb') (hw.nul_declared hb' hqb) hkey
  rw [(mem_objectProperties.1 hpa).1, hdecl] at hcls
  obtain rfl := List.inj_on_of_nodup_map hnames (List.mem_cons_of_mem c ha) hb' hcls
  exact List.inj_on_of_nodup_map (nodup_name_objectProperties (hw.nodup a hb')) hpa hqb hname

/-- **Mangled names**: a hidden property, or else what the class has filed itself. -/
theorem get?_scopesOf_of_nul (hnames : ((c :: ancestors).map ClassDecl.name).Nodup)
    (hw : WellNamed (c :: ancestors)) (hk : '\x00' ∈ k.toList) (s : PropertyScope) :
    (scopesOf c ancestors).get? k = some s ↔
      (∃ p, HiddenIn ancestors p ∧ k = privateKey p.declaring p.property.name ∧
        p.scopeIn p.declaring = s) ∨
      (∀ p, HiddenIn ancestors p → k ≠ privateKey p.declaring p.property.name) ∧
        ∃ p, visible? c ancestors p.property.name = some p ∧ k ∈ visibleKeys c.name p ∧
          p.scopeIn c.name = s := by
  have hfile : ∀ p ∈ (ancestors.flatMap ClassDecl.objectProperties).filter (·.property.isPrivate),
      ∀ m : ScopeMap, (fileHidden m p).get? k =
        if k ∈ [privateKey p.declaring p.property.name] then some (p.scopeIn p.declaring)
        else m.get? k := by
    intro p hp m
    obtain ⟨⟨a, ha, hpa⟩, -⟩ := mem_hiddenProperties.1 hp
    exact get?_fileHidden_of_nul hk (hw.nul_declared (List.mem_cons_of_mem c ha) hpa) m
  rw [scopesOf, ScopeMap.get?_foldl_file hfile, get?_firstRound hw]
  · simp only [mem_hiddenProperties, List.mem_singleton]
  · intro p hp q hq hkp hkq
    rw [List.mem_singleton] at hkp hkq
    exact eq_of_hiddenIn hnames hw (mem_hiddenProperties.1 hp) (mem_hiddenProperties.1 hq)
      (hkp.symm.trans hkq)

theorem scoped_of_hiddenIn (h : HiddenIn ancestors p) :
    Scoped c ancestors (privateKey p.declaring p.property.name) (p.scopeIn p.declaring) := by
  obtain ⟨⟨a, ha, hp⟩, hprivate⟩ := h
  obtain ⟨hdecl, hmem, hstatic⟩ := mem_objectProperties.1 hp
  rw [OwnedProperty.scopeIn, hdecl]
  exact Scoped.ofPrivate (List.mem_cons_of_mem c ha) hmem hstatic hprivate

theorem scoped_of_visible (h : visible? c ancestors p.property.name = some p)
    (hk : k ∈ visibleKeys c.name p) : Scoped c ancestors k (p.scopeIn c.name) := by
  rcases mem_visibleKeys.1 hk with rfl | ⟨hprivate, rfl⟩ | ⟨hprotected, rfl⟩
  · exact Scoped.ofVisible h
  · obtain ⟨hdecl, hmem, hstatic⟩ := mem_objectProperties.1 ((visible?_eq_some h).2.2 hprivate)
    rw [OwnedProperty.scopeIn, hdecl]
    exact Scoped.ofPrivate List.mem_cons_self hmem hstatic hprivate
  · exact Scoped.ofProtected h hprotected

/-- What the map holds has a scope. -/
theorem scoped_of_get?_scopesOf (hnames : ((c :: ancestors).map ClassDecl.name).Nodup)
    (hw : WellNamed (c :: ancestors)) {s : PropertyScope}
    (h : (scopesOf c ancestors).get? k = some s) : Scoped c ancestors k s := by
  by_cases hk : '\x00' ∈ k.toList
  · rw [get?_scopesOf_of_nul hnames hw hk] at h
    rcases h with ⟨p, hp, rfl, rfl⟩ | ⟨-, p, hp, hkp, rfl⟩
    · exact scoped_of_hiddenIn hp
    · exact scoped_of_visible hp hkp
  · rw [get?_scopesOf_of_plain hw hk, Option.or_eq_some_iff, Option.map_eq_some_iff,
      Option.map_eq_none_iff, Option.map_eq_some_iff] at h
    rcases h with ⟨p, hp, rfl⟩ | ⟨hnone, p, hp, rfl⟩
    · obtain rfl := (visible?_eq_some hp).1
      exact Scoped.ofVisible hp
    · obtain rfl := (hidden?_eq_some hp).1
      exact Scoped.ofHidden hnone hp

/-- What has a scope is in the map. -/
theorem get?_scopesOf_of_scoped (hnames : ((c :: ancestors).map ClassDecl.name).Nodup)
    (hw : WellNamed (c :: ancestors)) {s : PropertyScope} (h : Scoped c ancestors k s) :
    (scopesOf c ancestors).get? k = some s := by
  have hc := List.mem_cons_self (a := c) (l := ancestors)
  have hhidden : ∀ p, HiddenIn ancestors p → '\x00' ∉ p.declaring.toList ∧
      '\x00' ∉ p.property.name.toList ∧ p.declaring ≠ "*" ∧ p.declaring ≠ c.name := by
    rintro p ⟨⟨a, ha, hp⟩, -⟩
    have ha' := List.mem_cons_of_mem c ha
    rw [(mem_objectProperties.1 hp).1]
    refine ⟨hw.nul_class a ha', hw.nul_declared ha' hp, hw.star a ha', fun hname => ?_⟩
    exact (List.nodup_cons.1 hnames).1 (List.mem_map.2 ⟨a, ha, hname⟩)
  cases h with
  | @ofPrivate a p ha hp hstatic hprivate =>
    rw [get?_scopesOf_of_nul hnames hw (nul_mem_privateKey _ _)]
    have hmem : (⟨a.name, p⟩ : OwnedProperty) ∈ a.objectProperties :=
      mem_objectProperties.2 ⟨rfl, hp, hstatic⟩
    rcases List.mem_cons.1 ha with rfl | ha
    · refine Or.inr ⟨fun q hq hkey => ?_, ⟨a.name, p⟩, visible?_of_mem (hw.nodup a hc) hmem,
        mem_visibleKeys.2 (Or.inr (Or.inl ⟨hprivate, rfl⟩)), rfl⟩
      obtain ⟨hcls, hname, -, hne⟩ := hhidden q hq
      exact hne (privateKey_inj hcls hname hkey).1.symm
    · exact Or.inl ⟨⟨a.name, p⟩, ⟨⟨a, ha, hmem⟩, hprivate⟩, rfl, rfl⟩
  | @ofProtected name p hp hprotected =>
    rw [get?_scopesOf_of_nul hnames hw (nul_mem_protectedKey _)]
    obtain rfl := (visible?_eq_some hp).1
    refine Or.inr ⟨fun q hq => ?_, p, hp, mem_visibleKeys.2 (Or.inr (Or.inr ⟨hprotected, rfl⟩)),
      rfl⟩
    obtain ⟨hcls, hname, hstar, -⟩ := hhidden q hq
    exact protectedKey_ne_privateKey hcls hname hstar
  | @ofVisible name p hp =>
    obtain rfl := (visible?_eq_some hp).1
    rw [get?_scopesOf_of_plain hw (hw.nul_visible hp), hp]
    rfl
  | @ofHidden name p hnone hp =>
    obtain rfl := (hidden?_eq_some hp).1
    rw [get?_scopesOf_of_plain hw (hw.nul_hidden hp), hnone, hp]
    rfl

/-! ### The names do not collide -/

theorem scoped_privateKey_iff (hw : WellNamed (c :: ancestors)) {cls : String} (hcls : cls ≠ "*")
    (s : PropertyScope) : Scoped c ancestors (privateKey cls name) s ↔
      ∃ a ∈ c :: ancestors, a.name = cls ∧ ∃ p ∈ a.properties, p.name = name ∧
        p.isStatic = false ∧ p.isPrivate = true ∧
          s = ⟨cls, name, if p.isReadonly then some cls else none⟩ := by
  constructor
  · intro h
    generalize hk : privateKey cls name = k at h
    cases h with
    | @ofPrivate a p ha hp hstatic hprivate =>
      obtain ⟨rfl, rfl⟩ := privateKey_inj (hw.nul_class a ha) (hw.nul_property a ha p hp) hk
      exact ⟨a, ha, rfl, p, hp, rfl, hstatic, hprivate, rfl⟩
    | @ofProtected _ p hp _ =>
      rw [protectedKey_eq] at hk
      exact absurd (privateKey_inj (by decide) (hw.nul_visible hp) hk).1 hcls
    | ofVisible hp => exact absurd (hk ▸ nul_mem_privateKey cls name) (hw.nul_visible hp)
    | ofHidden _ hp => exact absurd (hk ▸ nul_mem_privateKey cls name) (hw.nul_hidden hp)
  · rintro ⟨a, ha, rfl, p, hp, rfl, hstatic, hprivate, rfl⟩
    exact Scoped.ofPrivate ha hp hstatic hprivate

theorem scoped_protectedKey_iff (hw : WellNamed (c :: ancestors)) (s : PropertyScope) :
    Scoped c ancestors (protectedKey name) s ↔
      ∃ p, visible? c ancestors name = some p ∧ p.property.visibility = .protectedAccess ∧
        s = ⟨c.name, name, if p.property.isReadonly then some p.declaring else none⟩ := by
  constructor
  · intro h
    generalize hk : protectedKey name = k at h
    cases h with
    | @ofPrivate a p ha hp _ _ =>
      have hne := protectedKey_ne_privateKey (n := name) (hw.nul_class a ha)
        (hw.nul_property a ha p hp) (hw.star a ha)
      exact absurd hk hne
    | @ofProtected _ p hp hprotected =>
      rw [protectedKey_eq, protectedKey_eq] at hk
      obtain ⟨-, rfl⟩ := privateKey_inj (by decide) (hw.nul_visible hp) hk
      exact ⟨p, hp, hprotected, rfl⟩
    | ofVisible hp => exact absurd (hk ▸ nul_mem_protectedKey name) (hw.nul_visible hp)
    | ofHidden _ hp => exact absurd (hk ▸ nul_mem_protectedKey name) (hw.nul_hidden hp)
  · rintro ⟨p, hp, hprotected, rfl⟩
    exact Scoped.ofProtected hp hprotected

theorem scoped_plain_iff (hname : '\x00' ∉ name.toList) (s : PropertyScope) :
    Scoped c ancestors name s ↔
      (∃ p, visible? c ancestors name = some p ∧
        s = ⟨c.name, name, if p.property.isReadonly then some p.declaring else none⟩) ∨
      (visible? c ancestors name = none ∧ ∃ p, hidden? ancestors name = some p ∧
        s = ⟨p.declaring, name, if p.property.isReadonly then some p.declaring else none⟩) := by
  constructor
  · intro h
    cases h with
    | ofPrivate => exact absurd (nul_mem_privateKey _ _) hname
    | ofProtected => exact absurd (nul_mem_protectedKey _) hname
    | ofVisible hp => exact Or.inl ⟨_, hp, rfl⟩
    | ofHidden hnone hp => exact Or.inr ⟨hnone, _, hp, rfl⟩
  · rintro (⟨p, hp, rfl⟩ | ⟨hnone, p, hp, rfl⟩)
    · exact Scoped.ofVisible hp
    · exact Scoped.ofHidden hnone hp

end Chain

/-- **The map of a class is `Scoped`**: the names there, with the scopes there, and no others. In
particular, of the three kinds of names none gets in the way of another. -/
theorem Registry.get?_propertyScopes_iff {r : Registry} {reference : String} {c : ClassDecl}
    (hc : r.find? reference = some c) (hw : WellNamed (c :: r.ancestors c)) :
    (∀ k s, (r.propertyScopes reference).get? k = some s ↔ Scoped c (r.ancestors c) k s) ∧
    (∀ cls name s, cls ≠ "*" →
      ((r.propertyScopes reference).get? (privateKey cls name) = some s ↔
        ∃ a ∈ c :: r.ancestors c, a.name = cls ∧ ∃ p ∈ a.properties, p.name = name ∧
          p.isStatic = false ∧ p.isPrivate = true ∧
            s = ⟨cls, name, if p.isReadonly then some cls else none⟩)) ∧
    (∀ name s, (r.propertyScopes reference).get? (protectedKey name) = some s ↔
      ∃ p, visible? c (r.ancestors c) name = some p ∧
        p.property.visibility = .protectedAccess ∧
          s = ⟨c.name, name, if p.property.isReadonly then some p.declaring else none⟩) ∧
    ∀ name s, '\x00' ∉ name.toList →
      ((r.propertyScopes reference).get? name = some s ↔
        (∃ p, visible? c (r.ancestors c) name = some p ∧
          s = ⟨c.name, name, if p.property.isReadonly then some p.declaring else none⟩) ∨
        (visible? c (r.ancestors c) name = none ∧
          ∃ p, hidden? (r.ancestors c) name = some p ∧
            s = ⟨p.declaring, name,
              if p.property.isReadonly then some p.declaring else none⟩)) := by
  have hnames := r.nodup_name_chain c
  have hmap : r.propertyScopes reference = scopesOf c (r.ancestors c) := by
    rw [propertyScopes, hc]
  have hscoped : ∀ k s,
      (r.propertyScopes reference).get? k = some s ↔ Scoped c (r.ancestors c) k s := by
    intro k s
    rw [hmap]
    exact ⟨scoped_of_get?_scopesOf hnames hw, get?_scopesOf_of_scoped hnames hw⟩
  refine ⟨hscoped, fun cls name s hcls => ?_, fun name s => ?_, fun name s hname => ?_⟩
  · rw [hscoped, scoped_privateKey_iff hw hcls]
  · rw [hscoped, scoped_protectedKey_iff hw]
  · rw [hscoped, scoped_plain_iff hname]

/-! ### A class that redeclares a private property -/

namespace Sample

/-- A class with two private properties and a protected one. -/
def document : ClassDecl where
  name := "Document"
  properties := [
    { name := "title", visibility := .privateAccess },
    { name := "secret", visibility := .privateAccess, isReadonly := true },
    { name := "author", visibility := .protectedAccess, isReadonly := true }]

/-- A class below it with a title of its own. -/
def invoice : ClassDecl where
  name := "Invoice"
  parent := some "Document"
  properties := [{ name := "title" }]

/-- The registry of both. -/
def documents : Registry := Registry.insertAll ∅ [document, invoice]

theorem ancestors_invoice : documents.ancestors invoice = [document] := by
  have hparent : documents.find? "Document" = some document := by decide
  have hnew : document.key ∉ [invoice.key] := by decide
  rw [Registry.ancestors, show invoice.parent = some "Document" from rfl,
    Registry.climb_of_find?_eq_some hparent, if_neg hnew, show document.parent = none from rfl,
    Registry.climb]

theorem wellNamed_invoice : WellNamed [invoice, document] where
  nul_class := by decide
  star := by decide
  nul_property := by decide
  nodup := by decide

/-- The titles do not get in each other's way, and the secret is reached through the class that
declares it. -/
theorem scopes_invoice :
    (documents.propertyScopes "Invoice").get? "title" = some ⟨"Invoice", "title", none⟩ ∧
      (documents.propertyScopes "Invoice").get? (privateKey "Document" "title") =
        some ⟨"Document", "title", none⟩ ∧
      (documents.propertyScopes "Invoice").get? "secret" =
        some ⟨"Document", "secret", some "Document"⟩ ∧
      (documents.propertyScopes "Invoice").get? (protectedKey "author") =
        some ⟨"Invoice", "author", some "Document"⟩ := by
  have hfind : documents.find? "Invoice" = some invoice := by decide
  have hw : WellNamed (invoice :: documents.ancestors invoice) := by
    rw [ancestors_invoice]
    exact wellNamed_invoice
  obtain ⟨hscopes, -⟩ := Registry.get?_propertyScopes_iff hfind hw
  rw [ancestors_invoice] at hscopes
  simp only [hscopes]
  refine ⟨?_, ?_, ?_, ?_⟩
  · exact Scoped.ofVisible (p := ⟨"Invoice", { name := "title" }⟩) (by decide)
  · exact Scoped.ofPrivate (a := document) (p := { name := "title", visibility := .privateAccess })
      (by decide) (by decide) rfl rfl
  · exact Scoped.ofHidden
      (p := ⟨"Document", { name := "secret", visibility := .privateAccess, isReadonly := true }⟩)
      (by decide) (by decide)
  · exact Scoped.ofProtected
      (p := ⟨"Document", { name := "author", visibility := .protectedAccess, isReadonly := true }⟩)
      (by decide) rfl

end Sample

end LazyClasses
