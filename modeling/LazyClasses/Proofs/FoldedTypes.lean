import LazyClasses.Proofs.Correspondence
import LazyClasses.Proofs.RenderedTypes
/-! # The case of the names of the language

PHP does not tell `Mixed` from `mixed`. `foldBuiltins` is a hint with the names of types of the
language in lower case; hints with the same folded form are the same type. They name the same
classes, and rendered in full they are `mixed`, up to letter case, or both something else.

* `sameClasses_of_fold`: the classes that are named.
* `Alike`: texts that are both empty or not, and both `mixed` or not.
* `alike_render_foldBuiltins`: the text of a hint and of its folded form. -/

namespace LazyClasses.TypeHint

/-- The name, in lower case if it is a type of the language. -/
def foldName (name : String) : String :=
  if isBuiltin (ClassName.bare name) then Text.lower name else name

mutual

/-- The hint with the types of the language in lower case. -/
def foldBuiltins : TypeHint → TypeHint
  | .named name nullable => .named (foldName name) nullable
  | .union members => .union (foldAll members)
  | .intersection members => .intersection (foldAll members)

def foldAll : List TypeHint → List TypeHint
  | [] => []
  | member :: members => foldBuiltins member :: foldAll members

end

/-! ### Names -/

theorem lower_foldName (name : String) : Text.lower (foldName name) = Text.lower name := by
  rw [foldName]
  split
  · exact Text.lower_lower name
  · rfl

theorem same_foldName (name other : String) :
    Text.same (foldName name) other = Text.same name other := by
  rw [Text.same, Text.same, lower_foldName]

theorem showsMark_foldName (name : String) : showsMark (foldName name) = showsMark name := by
  rw [showsMark, showsMark, same_foldName, same_foldName]

theorem isBuiltin_congr {a b : String} (h : Text.lower a = Text.lower b) :
    isBuiltin a = isBuiltin b := by
  have hsame : Text.same a = Text.same b := funext fun s => by rw [Text.same, Text.same, h]
  rw [isBuiltin, isBuiltin, Text.memIgnoreCase, Text.memIgnoreCase, hsame]

theorem isBuiltin_bare_foldName (name : String) :
    isBuiltin (ClassName.bare (foldName name)) = isBuiltin (ClassName.bare name) := by
  refine isBuiltin_congr ?_
  change ClassName.key _ = ClassName.key _
  rw [ClassName.key_eq_bare_lower, ClassName.key_eq_bare_lower, lower_foldName]

theorem foldName_of_not_builtin {name : String} (h : isBuiltin (ClassName.bare name) = false) :
    foldName name = name := by
  rw [foldName, h]
  rfl

/-! ### The classes that are named -/

theorem renderName_classesOnly_foldName (scope : ClassScope) (name : String) :
    renderName scope .classesOnly (foldName name) = renderName scope .classesOnly name := by
  cases hname : isBuiltin (ClassName.bare name) with
  | true => simp [renderName, hname, isBuiltin_bare_foldName]
  | false => rw [foldName_of_not_builtin hname]

theorem contribution_classesOnly_foldBuiltins (scope : ClassScope) (inner : String)
    (member : TypeHint) : contribution scope .classesOnly inner (foldBuiltins member) =
      contribution scope .classesOnly inner member := by
  cases member with
  | named name nullable =>
    rw [foldBuiltins, contribution, contribution, renderName_classesOnly_foldName]
  | union members => rfl
  | intersection members => rfl

mutual

theorem render_classesOnly_foldBuiltins (scope : ClassScope) : ∀ hint : TypeHint,
    (foldBuiltins hint).render scope .classesOnly = hint.render scope .classesOnly
  | .named name nullable => by
    rw [foldBuiltins, render, render, renderName_classesOnly_foldName]
    simp [mark]
  | .union members => by
    rw [foldBuiltins, render, render, renderMembers_classesOnly_foldAll scope members]
  | .intersection members => by
    rw [foldBuiltins, render, render, renderMembers_classesOnly_foldAll scope members]

theorem renderMembers_classesOnly_foldAll (scope : ClassScope) : ∀ members : List TypeHint,
    renderMembers scope .classesOnly (foldAll members) = renderMembers scope .classesOnly members
  | [] => rfl
  | member :: members => by
    rw [foldAll, renderMembers, renderMembers, render_classesOnly_foldBuiltins scope member,
      contribution_classesOnly_foldBuiltins, renderMembers_classesOnly_foldAll scope members]

end

mutual

theorem lower_leaves_foldBuiltins : ∀ hint : TypeHint,
    (foldBuiltins hint).leaves.map Text.lower = hint.leaves.map Text.lower
  | .named name nullable => by
    rw [foldBuiltins, leaves, leaves, List.map_singleton, List.map_singleton, lower_foldName]
  | .union members => by rw [foldBuiltins, leaves, leaves, lower_leavesAll_foldAll members]
  | .intersection members => by rw [foldBuiltins, leaves, leaves, lower_leavesAll_foldAll members]

theorem lower_leavesAll_foldAll : ∀ members : List TypeHint,
    (leavesAll (foldAll members)).map Text.lower = (leavesAll members).map Text.lower
  | [] => rfl
  | member :: members => by
    rw [foldAll, leavesAll, leavesAll, List.map_append, List.map_append,
      lower_leaves_foldBuiltins member, lower_leavesAll_foldAll members]

end

/-- **Hints that differ in the case of the names of the language name the same classes.** -/
theorem sameClasses_of_fold {hint hint' : TypeHint}
    (h : foldBuiltins hint = foldBuiltins hint') : hint.SameClasses hint' where
  leaves := by rw [← lower_leaves_foldBuiltins hint, h, lower_leaves_foldBuiltins]
  classes scope := by
    rw [← render_classesOnly_foldBuiltins scope hint, h, render_classesOnly_foldBuiltins]

/-! ### The full text -/

/-- Both texts are empty or neither is, and both are `mixed`, in any case of letters, or neither
is. -/
structure Alike (a b : String) : Prop where
  isEmpty : a.isEmpty = b.isEmpty
  isMixed : Text.same a "mixed" = Text.same b "mixed"

theorem Alike.refl (a : String) : Alike a a := ⟨rfl, rfl⟩

theorem isEmpty_eq_toList (s : String) : s.isEmpty = s.toList.isEmpty := by
  rw [Bool.eq_iff_iff, String.isEmpty_iff, List.isEmpty_iff, String.toList_eq_nil_iff]

theorem alike_of_lower_eq {a b : String} (h : Text.lower a = Text.lower b) : Alike a b where
  isEmpty := by
    have hlist (s : String) : s.toList.isEmpty = (Text.lower s).toList.isEmpty := by
      rw [Text.toList_lower, List.isEmpty_map]
    rw [isEmpty_eq_toList, isEmpty_eq_toList, hlist, h, ← hlist]
  isMixed := by rw [Text.same, Text.same, h]

/-- A text with a character that is not in `mixed` is neither empty nor `mixed`. -/
theorem alike_of_mem {c : Char} (hc : c.toLower ∉ "mixed".toList) {a b : String}
    (ha : c ∈ a.toList) (hb : c ∈ b.toList) : Alike a b := by
  have hempty {s : String} (hs : c ∈ s.toList) : s.isEmpty = false := by
    rw [isEmpty_eq_toList, List.isEmpty_eq_false_iff_exists_mem]
    exact ⟨c, hs⟩
  have hmixed {s : String} (hs : c ∈ s.toList) : Text.same s "mixed" = false := by
    rw [Bool.eq_false_iff]
    intro hsame
    have hlower : c.toLower ∈ (Text.lower s).toList := by
      rw [Text.toList_lower]
      exact List.mem_map_of_mem hs
    rw [Text.same_iff.1 hsame] at hlower
    exact hc hlower
  exact ⟨by rw [hempty ha, hempty hb], by rw [hmixed ha, hmixed hb]⟩

/-- Texts that are alike one by one are alike when they are sorted and joined. -/
theorem alike_join {sep : Char} (hsep : sep.toLower ∉ "mixed".toList) {texts texts' : List String}
    (h : List.Forall₂ Alike texts texts') :
    Alike ((String.singleton sep).intercalate (sortTexts texts))
      ((String.singleton sep).intercalate (sortTexts texts')) := by
  have hmem {texts : List String} (hlength : 2 ≤ texts.length) :
      sep ∈ ((String.singleton sep).intercalate (sortTexts texts)).toList := by
    rw [toList_intercalate]
    refine Text.mem_intercalate_sep sep ?_
    rwa [List.length_map, sortTexts, List.length_mergeSort]
  cases h with
  | nil => exact .refl _
  | cons hab hrest =>
    cases hrest with
    | nil =>
      rw [sortTexts, sortTexts, List.mergeSort_singleton, List.mergeSort_singleton,
        String.intercalate_singleton, String.intercalate_singleton]
      exact hab
    | cons _ _ => exact alike_of_mem hsep (hmem (by simp)) (hmem (by simp))

theorem renderName_full_foldName (scope : ClassScope) (name : String) :
    Option.Rel (fun a b => Text.lower a = Text.lower b)
      (renderName scope .full (foldName name)) (renderName scope .full name) := by
  cases hname : isBuiltin (ClassName.bare name) with
  | false =>
    rw [foldName_of_not_builtin hname]
    exact rel_self (R := fun a b => Text.lower a = Text.lower b) (fun _ => rfl) _
  | true =>
    have hfolded := (isBuiltin_bare_foldName name).trans hname
    rw [renderName_of_own rfl (.inl hname), renderName_of_own rfl (.inl hfolded)]
    refine .some ?_
    change ClassName.key _ = ClassName.key _
    rw [ClassName.key_eq_bare_lower, ClassName.key_eq_bare_lower, lower_foldName]

theorem forall₂_contribution (scope : ClassScope) {inner inner' : String} (h : Alike inner inner')
    (member : TypeHint) : List.Forall₂ Alike
      (contribution scope .full inner (foldBuiltins member))
      (contribution scope .full inner' member) := by
  cases member with
  | named name nullable =>
    have hnames : Option.Rel Alike (renderName scope .full (foldName name))
        (renderName scope .full name) :=
      rel_imp (renderName_full_foldName scope name) fun _ _ => alike_of_lower_eq
    rw [foldBuiltins, contribution, contribution]
    exact forall₂_toList hnames
  | union members =>
    rw [foldBuiltins, contribution, contribution, h.isEmpty]
    split
    · exact .nil
    · exact .cons h .nil
  | intersection members =>
    rw [foldBuiltins, contribution, contribution, h.isEmpty]
    split
    · exact .nil
    · have hparen : '('.toLower ∉ "mixed".toList := by decide
      exact .cons (alike_of_mem hparen (by simp) (by simp)) .nil

mutual

/-- **The folded form is rendered alike.** -/
theorem alike_render_foldBuiltins (scope : ClassScope) : ∀ hint : TypeHint,
    Alike ((foldBuiltins hint).render scope .full) (hint.render scope .full)
  | .named name nullable => by
    have hmark : mark .full (foldName name) nullable = mark .full name nullable := by
      rw [mark, mark, showsMark_foldName]
    rw [foldBuiltins, render, render, hmark]
    obtain ⟨hnone, hnone'⟩ | ⟨text, text', htext, htext', hlower⟩ :=
      rel_cases (renderName_full_foldName scope name)
    · rw [hnone, hnone']
      exact .refl _
    · rw [htext, htext']
      exact alike_of_lower_eq (by rw [Text.lower_append, Text.lower_append, hlower])
  | .union members => by
    rw [foldBuiltins, render, render]
    have hbar : '|'.toLower ∉ "mixed".toList := by decide
    exact alike_join hbar (forall₂_renderMembers_foldAll scope members)
  | .intersection members => by
    rw [foldBuiltins, render, render]
    have hamp : '&'.toLower ∉ "mixed".toList := by decide
    exact alike_join hamp (forall₂_renderMembers_foldAll scope members)

theorem forall₂_renderMembers_foldAll (scope : ClassScope) : ∀ members : List TypeHint,
    List.Forall₂ Alike (renderMembers scope .full (foldAll members))
      (renderMembers scope .full members)
  | [] => .nil
  | member :: members =>
    List.rel_append (forall₂_contribution scope (alike_render_foldBuiltins scope member) member)
      (forall₂_renderMembers_foldAll scope members)

end

end LazyClasses.TypeHint
