import LazyClasses.Proofs.Decisions
import LazyClasses.Proofs.RenderedClasses
/-! # Methods that may return the proxy

A method stays as it is inherited only if none of the names in its result type can be met by the
proxy. The generator finds that out from a text: the rendered type without the types of the
language, cut at its punctuation.

* `mem_resultClasses_iff`: the cut text gives back what the leaves stand for, and nothing else.
* `Generator.Fits`: the proxy can be what a leaf asks for.
* `mayReturnProxy_iff`: the question, said of the leaves. -/

namespace LazyClasses

/-- The class and the interfaces that a proxy is of. -/
def Target.classes (t : Target) : List ClassDecl := t.cls.toList ++ t.interfaces

namespace Generator

open TypeHint (IsWord Readable ReadName Uncut outsideName isBuiltin)

variable {g : Generator} {t : Target} {m : Method} {hint : TypeHint}

/-- **The proxy can be what the leaf asks for**: any object is, or the leaf stands for a type that
the class or one of the interfaces has. -/
def Fits (g : Generator) (t : Target) (m : Method) (leaf : String) : Prop :=
  (∃ any ∈ ["static", "object", "mixed"], Text.same leaf any = true) ∨
    isBuiltin leaf = false ∧ ∃ c ∈ t.classes,
      g.registry.isA c (outsideName (g.registry.scope m.declaringClass) leaf) = true

/-- A name that is read is in one piece. -/
theorem isWord_of_readName {name : String} (h : ReadName name) : IsWord isTypePunctuation name := by
  refine ⟨h.isName.ne_nil, fun c hc => ?_⟩
  have hplain := h.isName.isPunctuation_eq_false c hc
  simp only [TypeHint.isPunctuation, List.mem_cons, List.not_mem_nil, or_false,
    decide_eq_false_iff_not, not_or] at hplain
  simp [isTypePunctuation, hplain]

/-- **The classes in a result type** are what its leaves stand for, types of the language apart. -/
theorem mem_resultClasses_iff (h : Readable hint)
    (hscope : ∀ cls ∈ (g.registry.scope m.declaringClass).names, IsWord isTypePunctuation cls)
    {name : String} : name ∈ g.resultClasses m hint ↔ ∃ leaf ∈ hint.leaves,
      isBuiltin leaf = false ∧ outsideName (g.registry.scope m.declaringClass) leaf = name := by
  have hrendered {leaf text : String} (hleaf : leaf ∈ hint.leaves) :
      TypeHint.renderName (g.registry.scope m.declaringClass) .classesOnly leaf = some text ↔
        isBuiltin leaf = false ∧
          outsideName (g.registry.scope m.declaringClass) leaf = text := by
    rw [TypeHint.renderName_classesOnly_eq_some_iff, (h.readName leaf hleaf).bare_eq]
  have huncut : Uncut isTypePunctuation (g.registry.scope m.declaringClass) .classesOnly
      hint.leaves := by
    intro leaf hleaf text htext
    obtain ⟨-, rfl⟩ := (hrendered hleaf).1 htext
    exact TypeHint.isWord_outsideName hscope (isWord_of_readName (h.readName leaf hleaf))
  change name ∈ (Text.words isTypePunctuation _).map String.ofList ↔ _
  rw [(TypeHint.words_classesOnly_perm huncut).mem_iff, List.mem_filterMap]
  exact exists_congr fun leaf => and_congr_right fun hleaf => hrendered hleaf

/-- What is left as it is inherited cannot return the proxy. -/
theorem mayReturnProxy_of_keepInherited {must : Bool} {before : Progress}
    (h : g.decide t must before m = .keepInherited) : g.mayReturnProxy t m = false := by
  unfold decide at h
  split_ifs at h with _ _ _ _ hforward
  · split at h <;> cases h
  · rw [Bool.or_eq_true, not_or, Bool.not_eq_true, Bool.not_eq_true] at hforward
    exact hforward.2

/-- **Whether a method may return the proxy**, said of the leaves of its result type: there is
none, or the proxy can be what one of its leaves asks for. So where a method stays as it is
inherited, the proxy can be none of the things that its result type asks for. -/
theorem mayReturnProxy_iff
    (hread : ∀ hint, m.returnType = some hint → ∃ text, TypeHint.parse text = .ok hint)
    (hscope : ∀ cls ∈ (g.registry.scope m.declaringClass).names, IsWord isTypePunctuation cls) :
    (g.mayReturnProxy t m = true ↔ m.returnType = none ∨
      ∃ hint, m.returnType = some hint ∧ ∃ leaf ∈ hint.leaves, g.Fits t m leaf) ∧
    ∀ must before, g.decide t must before m = .keepInherited →
      ∃ hint, m.returnType = some hint ∧ ∀ leaf ∈ hint.leaves, ¬ g.Fits t m leaf := by
  have hiff : g.mayReturnProxy t m = true ↔ m.returnType = none ∨
      ∃ hint, m.returnType = some hint ∧ ∃ leaf ∈ hint.leaves, g.Fits t m leaf := by
    unfold mayReturnProxy
    cases hreturn : m.returnType with
    | none => simp
    | some hint =>
      obtain ⟨text, htext⟩ := hread hint hreturn
      have hclasses {name : String} : name ∈ g.resultClasses m hint ↔ ∃ leaf ∈ hint.leaves,
          isBuiltin leaf = false ∧
            outsideName (g.registry.scope m.declaringClass) leaf = name :=
        mem_resultClasses_iff (TypeHint.readable_of_parse htext) hscope
      simp only [Bool.or_eq_true, List.any_eq_true, hclasses, reduceCtorEq, false_or,
        Option.some.injEq, exists_eq_left']
      constructor
      · rintro (⟨leaf, hleaf, hany⟩ | ⟨-, ⟨leaf, hleaf, hbuiltin, rfl⟩, hfits⟩)
        · exact ⟨leaf, hleaf, .inl (List.any_eq_true.1 hany)⟩
        · exact ⟨leaf, hleaf, .inr ⟨hbuiltin, hfits⟩⟩
      · rintro ⟨leaf, hleaf, hany | ⟨hbuiltin, hfits⟩⟩
        · exact .inl ⟨leaf, hleaf, List.any_eq_true.2 hany⟩
        · exact .inr ⟨_, ⟨leaf, hleaf, hbuiltin, rfl⟩, hfits⟩
  refine ⟨hiff, fun must before hkept => ?_⟩
  have hnot := mt hiff.2 (by rw [mayReturnProxy_of_keepInherited hkept]; decide)
  rw [not_or] at hnot
  obtain ⟨hint, hreturn⟩ := Option.ne_none_iff_exists'.1 hnot.1
  exact ⟨hint, hreturn, fun leaf hleaf hfits => hnot.2 ⟨hint, hreturn, leaf, hleaf, hfits⟩⟩

end Generator

namespace Sample

open Generator

/-- A class whose methods return something else, itself among other things, and numbers. -/
def node : ClassDecl where
  name := "App\\Node"
  methods := [
    { name := "sibling", declaringClass := "App\\Node",
      returnType := some (.named "App\\Other" true) },
    { name := "next", declaringClass := "App\\Node",
      returnType := some (.union [.named "int" false, TypeHint.allOf ["Countable", "Self"]]) }]

/-- The generator that knows it. -/
def nodes : Generator where
  registry := Registry.insertAll ∅ [node]

/-- The class alone. -/
def nodeAlone : Target := ⟨some node, []⟩

theorem isA_node (type : String) :
    nodes.registry.isA node type = Text.same node.name (ClassName.bare type) := by
  rw [Registry.isA, Registry.supertypes, Registry.ancestors_of_parent_eq_none _ rfl,
    Registry.interfaces_of_no_reference _ rfl rfl]
  simp

/-- Of a group the one name that is the class itself is enough; another class is not. -/
theorem next_mayReturnProxy :
    TypeHint.parse "?App\\Other" = .ok (.named "App\\Other" true) ∧
    TypeHint.parse "int|(Countable&Self)" =
      .ok (.union [.named "int" false, TypeHint.allOf ["Countable", "Self"]]) ∧
    (∀ cls ∈ (nodes.registry.scope "App\\Node").names,
      TypeHint.IsWord isTypePunctuation cls) ∧
    nodes.mayReturnProxy nodeAlone node.methods[0] = false ∧
    nodes.mayReturnProxy nodeAlone node.methods[1] = true := by
  have hother : TypeHint.parse "?App\\Other" = .ok (.named "App\\Other" true) := rfl
  have hgroup : TypeHint.parse "int|(Countable&Self)" =
      .ok (.union [.named "int" false, TypeHint.allOf ["Countable", "Self"]]) := rfl
  have hscope : ∀ cls ∈ (nodes.registry.scope "App\\Node").names,
      TypeHint.IsWord isTypePunctuation cls := by
    rw [show (nodes.registry.scope "App\\Node").names = ["App\\Node"] by decide]
    intro cls hcls
    obtain rfl := List.mem_singleton.1 hcls
    exact ⟨by decide, by simp [isTypePunctuation]⟩
  refine ⟨hother, hgroup, hscope, ?_, ?_⟩
  · rw [← Bool.not_eq_true, (mayReturnProxy_iff (m := node.methods[0])
      (fun hint h => ⟨_, Option.some.inj h ▸ hother⟩) hscope).1]
    rintro (h | ⟨hint, h, leaf, hleaf, hfits⟩)
    · cases h
    · obtain rfl := Option.some.inj h
      obtain rfl := List.mem_singleton.1 hleaf
      rcases hfits with hany | ⟨-, c, hc, hisA⟩
      · revert hany; decide
      · obtain rfl := List.mem_singleton.1 hc
        rw [isA_node] at hisA
        revert hisA; decide
  · refine (mayReturnProxy_iff (m := node.methods[1])
      (fun hint h => ⟨_, Option.some.inj h ▸ hgroup⟩) hscope).1.2 ?_
    refine .inr ⟨_, rfl, "Self", by decide, ?_⟩
    refine .inr ⟨by decide, node, List.mem_singleton_self _, ?_⟩
    rw [isA_node]
    decide

end Sample

end LazyClasses
