import LazyClasses.LazyClass.Proxy
import LazyClasses.Proofs.RenderedTypes
/-! # The classes in a rendered type

Rendered without the types of the language, a hint shows the classes that it names, and cutting the
text at its punctuation gives them back: each as often as it occurs, none of them torn apart or run
together with another one. This holds of hints of any depth, in which whole groups may vanish.

* `renderName_classesOnly`: the text of one name.
* `render_classesOnly_of_builtin`: where there is nothing but types of the language, nothing is
  left, brackets included.
* `words_classesOnly_perm`: what cutting gives, said of the rendered names.
* `cut_classesOnly`: the same of hints and scopes whose names are `Unbroken`. -/

namespace LazyClasses.TypeHint

open Generator (isTypePunctuation)
open Text (words words_nil)

variable {scope : ClassScope} {hint : TypeHint} {name : String}

/-! ### Names -/

/-- Among the class names alone stands what the name stands for outside the scope, unless it is a
type of the language. -/
theorem renderName_classesOnly (scope : ClassScope) (name : String) :
    renderName scope .classesOnly name =
      if isBuiltin (ClassName.bare name) then none
      else some (outsideName scope (ClassName.bare name)) := by
  rw [renderName, outsideName]
  cases isBuiltin (ClassName.bare name) with
  | true => rfl
  | false => cases scope.resolve (ClassName.bare name) <;> rfl

theorem renderName_classesOnly_eq_none_iff :
    renderName scope .classesOnly name = none ↔ isBuiltin (ClassName.bare name) = true := by
  rw [renderName_classesOnly]
  split_ifs with h <;> simp [h]

theorem renderName_classesOnly_eq_some_iff {text : String} :
    renderName scope .classesOnly name = some text ↔
      isBuiltin (ClassName.bare name) = false ∧ outsideName scope (ClassName.bare name) = text := by
  rw [renderName_classesOnly]
  split_ifs with h <;> simp [h]

/-- What a name in one piece stands for is in one piece, if the classes of the scope are. -/
theorem isWord_outsideName (hscope : ∀ cls ∈ scope.names, IsWord isTypePunctuation cls)
    (h : IsWord isTypePunctuation name) : IsWord isTypePunctuation (outsideName scope name) := by
  rw [outsideName]
  cases hcls : scope.resolve name with
  | none =>
    rw [Option.getD_none]
    rcases ClassScope.resolve_eq_none hcls with ⟨hlower, -⟩ | ⟨hlower, -⟩ <;> rw [hlower] <;>
      exact ⟨by decide, by simp [isTypePunctuation]⟩
  | some cls =>
    rw [Option.getD_some]
    rcases ClassScope.resolve_eq_some hcls with hmem | rfl
    · exact hscope cls hmem
    · exact h

/-! ### Where nothing is left -/

mutual

theorem render_classesOnly_of_builtin (scope : ClassScope) : ∀ hint : TypeHint,
    (∀ leaf ∈ hint.leaves, isBuiltin (ClassName.bare leaf) = true) →
    render scope .classesOnly hint = ""
  | .named name nullable, h => by
    rw [render, renderName_classesOnly_eq_none_iff.2 (h name (List.mem_singleton_self name))]
  | .union members, h => by
    rw [render, renderMembers_classesOnly_of_builtin scope members h]
    simp [sortTexts]
  | .intersection members, h => by
    rw [render, renderMembers_classesOnly_of_builtin scope members h]
    simp [sortTexts]

theorem renderMembers_classesOnly_of_builtin (scope : ClassScope) : ∀ members : List TypeHint,
    (∀ leaf ∈ leavesAll members, isBuiltin (ClassName.bare leaf) = true) →
    renderMembers scope .classesOnly members = []
  | [], _ => rfl
  | member :: members, h => by
    rw [leavesAll] at h
    have hmember := fun leaf hleaf => h leaf (List.mem_append_left _ hleaf)
    rw [renderMembers, render_classesOnly_of_builtin scope member hmember,
      renderMembers_classesOnly_of_builtin scope members
        fun leaf hleaf => h leaf (List.mem_append_right _ hleaf), List.append_nil]
    cases member with
    | named name nullable =>
      rw [contribution,
        renderName_classesOnly_eq_none_iff.2 (hmember name (List.mem_singleton_self name))]
      rfl
    | union _ => rfl
    | intersection _ => rfl

end

/-! ### Cutting -/

/-- Cutting gives the rendered names, if each of them is in one piece. -/
theorem words_classesOnly_perm (h : Uncut isTypePunctuation scope .classesOnly hint.leaves) :
    ((words isTypePunctuation (render scope .classesOnly hint).toList).map String.ofList).Perm
      (hint.leaves.filterMap (renderName scope .classesOnly)) := by
  have hcuts : Cuts isTypePunctuation .classesOnly := ⟨rfl, rfl, rfl, rfl, nofun⟩
  have hwords := (words_render hcuts hint h).map String.ofList
  rwa [renderedWords, List.map_map, Function.comp_def, funext fun s => String.ofList_toList,
    List.map_id'] at hwords

/-- The name has something behind one leading `\`, and no punctuation of types in it. -/
structure Unbroken (name : String) : Prop where
  nonempty : ClassName.bare name ≠ ""
  uncut : ∀ ch ∈ name.toList, isTypePunctuation ch = false

instance (name : String) : Decidable (Unbroken name) :=
  decidable_of_iff
    (ClassName.bare name ≠ "" ∧ (name.toList.all fun ch => !isTypePunctuation ch) = true)
    ⟨fun h => ⟨h.1, by simpa using h.2⟩, fun h => ⟨h.nonempty, by simpa using h.uncut⟩⟩

theorem mem_toList_bare {ch : Char} (h : ch ∈ (ClassName.bare name).toList) : ch ∈ name.toList := by
  rw [ClassName.toList_bare] at h
  unfold ClassName.bareChars at h
  split at h
  · rename_i rest hname
    exact hname ▸ List.mem_cons_of_mem _ h
  · exact h

theorem Unbroken.isWord (h : Unbroken name) : IsWord isTypePunctuation name := by
  refine ⟨fun hnil => h.nonempty ?_, h.uncut⟩
  rw [String.toList_eq_nil_iff.1 hnil]
  rfl

theorem Unbroken.isWord_bare (h : Unbroken name) :
    IsWord isTypePunctuation (ClassName.bare name) :=
  ⟨fun hnil => h.nonempty (String.toList_eq_nil_iff.1 hnil),
    fun ch hch => h.uncut ch (mem_toList_bare hch)⟩

/-- The names in a hint that are no types of the language, without a leading `\`. -/
def classLeaves (hint : TypeHint) : List String :=
  (hint.leaves.map ClassName.bare).filter fun name => !isBuiltin name

theorem filterMap_leaves (scope : ClassScope) (hint : TypeHint) :
    hint.leaves.filterMap (renderName scope .classesOnly) =
      hint.classLeaves.map (outsideName scope) := by
  rw [classLeaves, List.filter_map, List.map_map, ← List.filterMap_eq_map, List.filterMap_filter]
  refine List.filterMap_congr fun name _ => ?_
  rw [renderName_classesOnly]
  cases h : isBuiltin (ClassName.bare name) <;> simp [h]

theorem classLeaves_eq_nil_iff : hint.classLeaves = [] ↔
    ∀ leaf ∈ hint.leaves, isBuiltin (ClassName.bare leaf) = true := by
  simp [classLeaves, List.filter_eq_nil_iff]

/-- **The classes in a rendered type.** Cut at the punctuation of types, the text of a hint without
the types of the language gives what the other names in the hint stand for, each as often as it
occurs. So the text is empty iff there are no others. -/
theorem cut_classesOnly (hleaves : ∀ leaf ∈ hint.leaves, Unbroken leaf)
    (hscope : ∀ cls ∈ scope.names, Unbroken cls) :
    (((Text.split isTypePunctuation (render scope .classesOnly hint).toList).filter
        (!·.isEmpty)).map String.ofList).Perm (hint.classLeaves.map (outsideName scope)) ∧
      (render scope .classesOnly hint = "" ↔
        ∀ leaf ∈ hint.leaves, isBuiltin (ClassName.bare leaf) = true) := by
  have huncut : Uncut isTypePunctuation scope .classesOnly hint.leaves := by
    intro leaf hleaf text htext
    obtain ⟨-, rfl⟩ := renderName_classesOnly_eq_some_iff.1 htext
    exact isWord_outsideName (fun cls hcls => (hscope cls hcls).isWord)
      (hleaves leaf hleaf).isWord_bare
  have hperm := filterMap_leaves scope hint ▸ words_classesOnly_perm huncut
  refine ⟨hperm, fun hempty => ?_, render_classesOnly_of_builtin scope hint⟩
  rw [hempty] at hperm
  exact classLeaves_eq_nil_iff.1 (List.map_eq_nil_iff.1 hperm.nil_eq.symm)

namespace Sample

/-- A hint with a group of which nothing is left, and a union inside of another one. -/
def nestedClasses : TypeHint := .union [
  .intersection [.named "int" false, .intersection [.named "NULL" true]],
  .named "\\Self" true,
  .intersection [.union [.named "parent" false, .named "Countable" false], .named "self" false]]

/-- The scope of a class without a parent. -/
def rootScope : ClassScope := ⟨some "App\\Node", none⟩

/-- The class comes twice, since the hint names it twice, and the keyword that stands for nothing
stays. -/
theorem nestedClasses_cut :
    (∀ leaf ∈ nestedClasses.leaves, Unbroken leaf) ∧ (∀ cls ∈ rootScope.names, Unbroken cls) ∧
    (((Text.split isTypePunctuation (render rootScope .classesOnly nestedClasses).toList).filter
      (!·.isEmpty)).map String.ofList).Perm
        ["App\\Node", "Countable", "parent", "App\\Node"] := by
  have hleaves : ∀ leaf ∈ nestedClasses.leaves, Unbroken leaf := by decide
  have hscope : ∀ cls ∈ rootScope.names, Unbroken cls := by decide
  refine ⟨hleaves, hscope, (cut_classesOnly hleaves hscope).1.trans ?_⟩
  decide

end Sample

end LazyClasses.TypeHint
