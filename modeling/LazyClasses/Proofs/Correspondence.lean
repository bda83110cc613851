import LazyClasses.Proofs.Reached
import LazyClasses.Proofs.Registration
import LazyClasses.PropertyScope.Inherited
import LazyClasses.Signature
import Mathlib.Data.List.Forall2
/-! # Registries that correspond

Two registries may hold different declarations and still say the same. A `Pairing` tells which
classes and which methods of the two stand for each other: paired classes differ at most in how
they spell references to known classes and in methods that are paired, and paired methods at most
in result types that name the same classes. Every question about the inheritance graph then has
paired answers, since each walk follows references through the lookup alone.

* `Pairing.climb`, `Pairing.spread`: the two walks, step by step.
* `Pairing.ancestors`, `Pairing.interfaces`, `Pairing.methods`, `Pairing.prototype?`: paired
  answers.
* `Pairing.isA_eq`, `Pairing.scope_eq`, `Pairing.propertyScopes_eq`: answers that are the same. -/

namespace LazyClasses

/-! ### Lists element by element -/

section Lists

variable {α β γ δ : Type} {R : α → β → Prop} {Q : γ → δ → Prop} {l : List α} {l' : List β}

theorem map_eq_of_forall₂ {f : α → γ} {g : β → γ} (h : List.Forall₂ R l l')
    (hfg : ∀ a b, R a b → f a = g b) : l.map f = l'.map g := by
  induction h with
  | nil => rfl
  | cons hab _ ih => rw [List.map_cons, List.map_cons, hfg _ _ hab, ih]

theorem any_eq_of_forall₂ {p : α → Bool} {q : β → Bool} (h : List.Forall₂ R l l')
    (hpq : ∀ a b, R a b → p a = q b) : l.any p = l'.any q := by
  induction h with
  | nil => rfl
  | cons hab _ ih => rw [List.any_cons, List.any_cons, hpq _ _ hab, ih]

theorem rel_head? (h : List.Forall₂ R l l') : Option.Rel R l.head? l'.head? := by
  cases h with
  | nil => exact .none
  | cons hab _ => exact .some hab

theorem rel_findSome? {f : α → Option γ} {g : β → Option δ} (h : List.Forall₂ R l l')
    (hfg : ∀ a b, R a b → Option.Rel Q (f a) (g b)) :
    Option.Rel Q (l.findSome? f) (l'.findSome? g) := by
  rw [← List.head?_filterMap, ← List.head?_filterMap]
  exact rel_head? (List.rel_filterMap (fun a b => hfg a b) h)

theorem forall₂_filter {p : α → Bool} {q : β → Bool} (h : List.Forall₂ R l l')
    (hpq : ∀ a b, R a b → p a = q b) : List.Forall₂ R (l.filter p) (l'.filter q) :=
  List.rel_filter (fun a b hab => Bool.eq_iff_iff.1 (hpq a b hab)) h

theorem forall₂_firstBy {key : α → String} {key' : β → String} (h : List.Forall₂ R l l')
    (hkey : ∀ a b, R a b → key a = key' b) :
    ∀ seen, List.Forall₂ R (firstBy key seen l) (firstBy key' seen l') := by
  induction h with
  | nil => exact fun _ => .nil
  | cons hab _ ih =>
    intro seen
    rw [firstBy, firstBy, ← hkey _ _ hab]
    split
    · exact ih seen
    · exact .cons hab (ih _)

theorem rel_find? {p : α → Bool} {q : β → Bool} (h : List.Forall₂ R l l')
    (hpq : ∀ a b, R a b → p a = q b) : Option.Rel R (l.find? p) (l'.find? q) := by
  rw [← List.head?_filter, ← List.head?_filter]
  exact rel_head? (forall₂_filter h hpq)

theorem findSome?_eq_of_forall₂ {p : α → Option γ} {q : β → Option γ} (h : List.Forall₂ R l l')
    (hpq : ∀ a b, R a b → p a = q b) : l.findSome? p = l'.findSome? q := by
  induction h with
  | nil => rfl
  | cons hab _ ih => rw [List.findSome?_cons, List.findSome?_cons, hpq _ _ hab, ih]

theorem rel_cases {a? : Option α} {b? : Option β} (h : Option.Rel R a? b?) :
    a? = none ∧ b? = none ∨ ∃ a b, a? = some a ∧ b? = some b ∧ R a b := by
  cases h with
  | none => exact .inl ⟨rfl, rfl⟩
  | some hab => exact .inr ⟨_, _, rfl, rfl, hab⟩

theorem map_eq_of_rel {f : α → γ} {g : β → γ} {a? : Option α} {b? : Option β}
    (h : Option.Rel R a? b?) (hfg : ∀ a b, R a b → f a = g b) : a?.map f = b?.map g := by
  cases h with
  | none => rfl
  | some hab => exact congrArg some (hfg _ _ hab)

theorem rel_option_map {f : α → γ} {g : β → δ} {a? : Option α} {b? : Option β}
    (h : Option.Rel R a? b?) (hfg : ∀ a b, R a b → Q (f a) (g b)) :
    Option.Rel Q (a?.map f) (b?.map g) := by
  cases h with
  | none => exact .none
  | some hab => exact .some (hfg _ _ hab)

theorem rel_getLast? (h : List.Forall₂ R l l') : Option.Rel R l.getLast? l'.getLast? := by
  rw [← List.head?_reverse, ← List.head?_reverse]
  exact rel_head? (List.forall₂_reverse_iff.2 h)

theorem rel_or {a? a₂? : Option α} {b? b₂? : Option β} (h : Option.Rel R a? b?)
    (h₂ : Option.Rel R a₂? b₂?) : Option.Rel R (a?.or a₂?) (b?.or b₂?) := by
  cases h with
  | none => exact h₂
  | some hab => exact .some hab

theorem rel_imp {R' : α → β → Prop} {a? : Option α} {b? : Option β} (h : Option.Rel R a? b?)
    (hR : ∀ a b, R a b → R' a b) : Option.Rel R' a? b? := by
  cases h with
  | none => exact .none
  | some hab => exact .some (hR _ _ hab)

theorem forall₂_toList {a? : Option α} {b? : Option β}
    (h : Option.Rel R a? b?) : List.Forall₂ R a?.toList b?.toList := by
  cases h with
  | none => exact .nil
  | some hab => exact .cons hab .nil

theorem eq_of_rel {a? b? : Option α} (h : Option.Rel Eq a? b?) : a? = b? := by
  cases h with
  | none => rfl
  | some h => rw [h]

theorem rel_self {R : α → α → Prop} (hR : ∀ a, R a a) (a? : Option α) :
    Option.Rel R a? a? := by
  cases a? with
  | none => exact .none
  | some a => exact .some (hR a)

theorem eq_of_forall₂ {l l' : List α} (h : List.Forall₂ Eq l l') : l = l' := by
  rwa [List.forall₂_eq_eq_eq] at h

end Lists

/-- The hints have the same names up to letter case, and name the same classes. -/
structure TypeHint.SameClasses (hint hint' : TypeHint) : Prop where
  leaves : hint.leaves.map Text.lower = hint'.leaves.map Text.lower
  classes : ∀ scope, hint.render scope .classesOnly = hint'.render scope .classesOnly

namespace Registry

/-- Where related classes are registered, related classes are found. -/
theorem rel_find?_insertAll {R Q : ClassDecl → ClassDecl → Prop} {l l' : List ClassDecl}
    (h : List.Forall₂ R (ClassDecl.stdClass :: l) (ClassDecl.stdClass :: l'))
    (hname : ∀ c c', R c c' → c.name = c'.name)
    (hnormalize : ∀ c c', R c c' → Q c.normalize c'.normalize) (name : String) :
    Option.Rel Q ((insertAll ∅ l).find? name) ((insertAll ∅ l').find? name) := by
  have hfilter := forall₂_filter h fun c c' hc =>
    show (ClassName.key c.name == ClassName.key name) =
      (ClassName.key c'.name == ClassName.key name) by rw [hname c c' hc]
  rw [find?_insertAll_empty, find?_insertAll_empty]
  exact rel_option_map (rel_getLast? hfilter) hnormalize

/-! ### Pairings -/

/-- The references are the same, or they mean the same known class. -/
def SameReference (r : Registry) (p p' : String) : Prop :=
  p = p' ∨ ClassName.key p = ClassName.key p' ∧ r.contains p = true

theorem SameReference.key_eq {r : Registry} {p p' : String} (h : r.SameReference p p') :
    ClassName.key p = ClassName.key p' := by
  rcases h with rfl | ⟨hkey, -⟩
  · rfl
  · exact hkey

/-- **Which classes and methods of two registries stand for each other.** -/
structure Pairing (r r' : Registry) where
  Classes : ClassDecl → ClassDecl → Prop
  Methods : Method → Method → Prop
  /-- A reference means paired classes, or no class in both. -/
  found : ∀ name, Option.Rel Classes (r.find? name) (r'.find? name)
  /-- Paired classes differ at most in their references and methods. -/
  frame : ∀ {c c'}, Classes c c' → c' =
    { c with parent := c'.parent, interfaces := c'.interfaces, methods := c'.methods }
  parent : ∀ {c c'}, Classes c c' → Option.Rel r.SameReference c.parent c'.parent
  references : ∀ {c c'}, Classes c c' → List.Forall₂ r.SameReference c.interfaces c'.interfaces
  declared : ∀ {c c'}, Classes c c' → List.Forall₂ Methods c.methods c'.methods
  /-- Paired methods differ at most in their result types. -/
  outline : ∀ {m m'}, Methods m m' → m' = { m with returnType := m'.returnType }
  returnsNothing : ∀ {m m'}, Methods m m' → m.returnsNothing = m'.returnsNothing
  result : ∀ {m m'}, Methods m m' → Option.Rel TypeHint.SameClasses m.returnType m'.returnType

/-- A pairing in which every method stands for itself. -/
def Pairing.ofClasses {r r' : Registry} (Classes : ClassDecl → ClassDecl → Prop)
    (found : ∀ name, Option.Rel Classes (r.find? name) (r'.find? name))
    (frame : ∀ {c c'}, Classes c c' →
      c' = { c with parent := c'.parent, interfaces := c'.interfaces })
    (parent : ∀ {c c'}, Classes c c' → Option.Rel r.SameReference c.parent c'.parent)
    (references : ∀ {c c'}, Classes c c' →
      List.Forall₂ r.SameReference c.interfaces c'.interfaces) : Pairing r r' where
  Classes := Classes
  Methods := Eq
  found := found
  frame hc := by rw [frame hc]
  parent := parent
  references := references
  declared hc := by
    rw [frame hc]
    exact List.forall₂_same.2 fun _ _ => rfl
  outline hm := by rw [hm]
  returnsNothing hm := by rw [hm]
  result hm := by
    rw [hm]
    exact rel_self (fun _ => ⟨rfl, fun _ => rfl⟩) _

namespace Pairing

variable {r r' : Registry} (P : Pairing r r') {c c' : ClassDecl} {m m' : Method}

include P

theorem name_eq (h : P.Classes c c') : c.name = c'.name := by rw [P.frame h]

theorem key_eq (h : P.Classes c c') : c.key = c'.key := congrArg Text.lower (P.name_eq h)

theorem properties_eq (h : P.Classes c c') : c.properties = c'.properties := by rw [P.frame h]

theorem methodName_eq (h : P.Methods m m') : m.name = m'.name := by rw [P.outline h]

theorem methodKey_eq (h : P.Methods m m') : m.key = m'.key :=
  congrArg Text.lower (P.methodName_eq h)

theorem isPrivate_eq (h : P.Methods m m') : m.isPrivate = m'.isPrivate := by rw [P.outline h]; rfl

theorem contains_eq (name : String) : r.contains name = r'.contains name := by
  rw [contains, contains]
  obtain ⟨hnone, hnone'⟩ | ⟨c, c', hc, hc', -⟩ := rel_cases (P.found name)
  · rw [hnone, hnone']
  · rw [hc, hc']; rfl

/-- Paired references mean paired classes. -/
theorem find? {p p' : String} (h : r.SameReference p p') :
    Option.Rel P.Classes (r.find? p) (r'.find? p') := by
  rw [show r'.find? p' = r'.find? p by rw [Registry.find?, ← h.key_eq]; rfl]
  exact P.found p

theorem find?_none {p p' : String} (h : r.SameReference p p') (hnone : r.find? p = none) :
    r'.find? p' = none := by
  obtain ⟨-, hnone'⟩ | ⟨c, -, hc, -⟩ := rel_cases (P.find? h)
  · exact hnone'
  · rw [hnone] at hc
    cases hc

theorem find?_some {p p' : String} (h : r.SameReference p p') (hc : r.find? p = some c) :
    ∃ c', r'.find? p' = some c' ∧ P.Classes c c' := by
  obtain ⟨hnone, -⟩ | ⟨d, c', hd, hc', hcc⟩ := rel_cases (P.find? h)
  · rw [hnone] at hc
    cases hc
  · obtain rfl := Option.some.inj (hd.symm.trans hc)
    exact ⟨c', hc', hcc⟩

/-! ### Walks -/

/-- **The way up** meets paired classes. -/
theorem climb (seen : List String) (next : Option String) :
    ∀ {next' : Option String}, Option.Rel r.SameReference next next' →
      List.Forall₂ P.Classes (r.climb seen next) (r'.climb seen next') := by
  induction seen, next using Registry.climb.induct r with
  | case1 seen =>
    rintro _ ⟨⟩
    rw [Registry.climb, Registry.climb]
    exact .nil
  | case2 seen name hnone =>
    rintro _ ⟨hname⟩
    rw [climb_of_find?_eq_none hnone, climb_of_find?_eq_none (P.find?_none hname hnone)]
    exact .nil
  | case3 seen name c hc hseen =>
    rintro _ ⟨hname⟩
    obtain ⟨c', hc', hcc⟩ := P.find?_some hname hc
    rw [climb_of_find?_eq_some hc, climb_of_find?_eq_some hc', ← P.key_eq hcc, if_pos hseen,
      if_pos hseen]
    exact .nil
  | case4 seen name c hc hseen ih =>
    rintro _ ⟨hname⟩
    obtain ⟨c', hc', hcc⟩ := P.find?_some hname hc
    rw [climb_of_find?_eq_some hc, climb_of_find?_eq_some hc', ← P.key_eq hcc, if_neg hseen,
      if_neg hseen]
    exact .cons hcc (ih (P.parent hcc))

/-- **The spread over interfaces** meets paired classes. -/
theorem spread (seen pending : List String) :
    ∀ {pending' : List String}, List.Forall₂ r.SameReference pending pending' →
      List.Forall₂ P.Classes (r.spread seen pending) (r'.spread seen pending') := by
  induction seen, pending using Registry.spread.induct r with
  | case1 seen =>
    rintro _ ⟨⟩
    rw [Registry.spread, Registry.spread]
    exact .nil
  | case2 seen name rest hnone ih =>
    rintro _ (_ | ⟨hname, hrest⟩)
    rw [spread_of_find?_eq_none hnone, spread_of_find?_eq_none (P.find?_none hname hnone)]
    exact ih hrest
  | case3 seen name rest c hc hseen ih =>
    rintro _ (_ | ⟨hname, hrest⟩)
    obtain ⟨c', hc', hcc⟩ := P.find?_some hname hc
    rw [spread_of_find?_eq_some hc, spread_of_find?_eq_some hc', ← P.key_eq hcc, if_pos hseen,
      if_pos hseen]
    exact ih hrest
  | case4 seen name rest c hc hseen ih =>
    rintro _ (_ | ⟨hname, hrest⟩)
    obtain ⟨c', hc', hcc⟩ := P.find?_some hname hc
    rw [spread_of_find?_eq_some hc, spread_of_find?_eq_some hc', ← P.key_eq hcc, if_neg hseen,
      if_neg hseen]
    exact .cons hcc (ih (List.rel_append hrest (P.references hcc)))

/-! ### Paired answers -/

theorem ancestors (h : P.Classes c c') :
    List.Forall₂ P.Classes (r.ancestors c) (r'.ancestors c') := by
  rw [Registry.ancestors, Registry.ancestors, ← P.key_eq h]
  exact P.climb _ _ (P.parent h)

theorem chain (h : P.Classes c c') :
    List.Forall₂ P.Classes (c :: r.ancestors c) (c' :: r'.ancestors c') :=
  .cons h (P.ancestors h)

theorem interfaces (h : P.Classes c c') :
    List.Forall₂ P.Classes (r.interfaces c) (r'.interfaces c') :=
  P.spread _ _ <| List.rel_append (P.references h) <|
    List.rel_flatMap (P.ancestors h) fun _ _ => P.references

theorem types (h : P.Classes c c') :
    List.Forall₂ P.Classes (c :: r.supertypes c) (c' :: r'.supertypes c') :=
  .cons h (List.rel_append (P.ancestors h) (P.interfaces h))

/-- Whether a class is of a type hangs on the type's name without a leading separator and in any
case of letters. -/
theorem isA_eq (h : P.Classes c c') {type type' : String}
    (htype : Text.same (ClassName.bare type) (ClassName.bare type') = true) :
    r.isA c type = r'.isA c' type' :=
  any_eq_of_forall₂ (P.types h) fun _ _ hd => by
    rw [P.name_eq hd, Text.same, Text.same, Text.same_iff.1 htype]

theorem declaredMethod? (h : P.Classes c c') (name : String) :
    Option.Rel P.Methods (c.method? name) (c'.method? name) :=
  rel_find? (P.declared h) fun m m' hm => by rw [P.methodName_eq hm]

theorem method? (h : P.Classes c c') (name : String) :
    Option.Rel P.Methods (r.method? c name) (r'.method? c' name) :=
  rel_findSome? (P.types h) fun _ _ hd => P.declaredMethod? hd name

theorem unhidden {l l' : List Method} (h : List.Forall₂ P.Methods l l') :
    List.Forall₂ P.Methods (l.filter fun m => !m.isPrivate) (l'.filter fun m => !m.isPrivate) :=
  forall₂_filter h fun m m' hm => by rw [P.isPrivate_eq hm]

theorem methods (h : P.Classes c c') : List.Forall₂ P.Methods (r.methods c) (r'.methods c') := by
  refine forall₂_firstBy (List.rel_append (List.rel_append (P.declared h) ?_) ?_)
    (fun _ _ => P.methodKey_eq) []
  · exact List.rel_flatMap (P.ancestors h) fun a a' ha => P.unhidden (P.declared ha)
  · exact List.rel_flatMap (P.interfaces h) fun i i' => P.declared

theorem prototype? (h : P.Methods m m') :
    Option.Rel P.Methods (r.prototype? m) (r'.prototype? m') := by
  have hdeclaring : m.declaringClass = m'.declaringClass := by rw [P.outline h]
  rw [Registry.prototype?, Registry.prototype?, ← P.isPrivate_eq h, ← hdeclaring,
    ← P.methodName_eq h]
  split
  · exact .none
  · obtain ⟨hnone, hnone'⟩ | ⟨c, c', hc, hc', hcc⟩ := rel_cases (P.found m.declaringClass)
    · rw [hnone, hnone']
      exact .none
    · rw [hc, hc']
      have hinherited : List.Forall₂ P.Methods
          ((r.ancestors c).filterMap (·.method? m.name))
          ((r'.ancestors c').filterMap (·.method? m.name)) :=
        List.rel_filterMap (fun a a' (ha : P.Classes a a') => P.declaredMethod? ha m.name)
          (P.ancestors hcc)
      exact rel_or (rel_find? hinherited fun p p' hp => by rw [P.isPrivate_eq hp])
        (rel_findSome? (P.interfaces hcc) fun i i' hi => P.declaredMethod? hi m.name)

/-! ### Answers that are the same -/

/-- The parent of a class reads the same in its scope: a known one as it is registered. -/
theorem scope_eq (name : String) : r.scope name = r'.scope name := by
  have hparent {p p' : String} (hp : r.SameReference p p') :
      ((r.find? p).map ClassDecl.name).getD p = ((r'.find? p').map ClassDecl.name).getD p' := by
    obtain ⟨hnone, hnone'⟩ | ⟨d, d', hd, hd', hdd⟩ := rel_cases (P.find? hp)
    · rw [hnone, hnone']
      -- Nothing is found, so the references are the same.
      rcases hp with rfl | ⟨-, hknown⟩
      · rfl
      · rw [contains, hnone] at hknown
        cases hknown
    · rw [hd, hd', Option.map_some, Option.map_some, P.name_eq hdd]
      rfl
  rw [scope, scope]
  obtain ⟨hnone, hnone'⟩ | ⟨c, c', hc, hc', hcc⟩ := rel_cases (P.found name)
  · rw [hnone, hnone']
  · have hparents := map_eq_of_rel (P.parent hcc) fun p p' => hparent
    simp only [hc, hc', P.name_eq hcc, hparents]

theorem meetsTentative_eq (n : Nat) :
    ∀ {m m' : Method}, P.Methods m m' → r.meetsTentative n m = r'.meetsTentative n m' := by
  induction n with
  | zero => exact fun _ => rfl
  | succ n ih =>
    intro m m' h
    have htentative : m.isTentative = m'.isTentative := by rw [P.outline h]
    have habstract : m.isAbstract = m'.isAbstract := by rw [P.outline h]
    rw [meetsTentative, meetsTentative, ← htentative, ← habstract]
    obtain ⟨hnone, hnone'⟩ | ⟨p, p', hp, hp', hpp⟩ := rel_cases (P.prototype? h)
    · rw [hnone, hnone']
    · simp only [hp, hp', ih hpp]

/-- A method that is paired with itself has the same signature. -/
theorem signature_eq (h : P.Methods m m) (withTypes : Bool) :
    r.signature m withTypes = r'.signature m withTypes := by
  rw [signature, signature, hasTentativeReturn, hasTentativeReturn, P.meetsTentative_eq _ h,
    P.scope_eq]

theorem objectProperties_eq (h : P.Classes c c') : c.objectProperties = c'.objectProperties := by
  rw [ClassDecl.objectProperties, ClassDecl.objectProperties, P.name_eq h, P.properties_eq h]

theorem propertyScopes_eq {name name' : String} (h : r.SameReference name name') :
    r.propertyScopes name = r'.propertyScopes name' := by
  rw [propertyScopes, propertyScopes]
  obtain ⟨hnone, hnone'⟩ | ⟨c, c', hc, hc', hcc⟩ := rel_cases (P.find? h)
  · rw [hnone, hnone']
  · have hinherited : (r.ancestors c).flatMap ClassDecl.objectProperties =
        (r'.ancestors c').flatMap ClassDecl.objectProperties := by
      rw [List.flatMap_def, List.flatMap_def,
        map_eq_of_forall₂ (P.ancestors hcc) fun a a' => P.objectProperties_eq]
    rw [hc, hc']
    change scopesOf c (r.ancestors c) = scopesOf c' (r'.ancestors c')
    rw [scopesOf, scopesOf, visibleProperties, visibleProperties, hinherited,
      P.objectProperties_eq hcc, P.name_eq hcc]

end Pairing

end Registry

end LazyClasses
