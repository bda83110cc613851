import LazyClasses.Proofs.RenderedLeaves
import Mathlib.Logic.Relation
/-! # The order of members does not show

Rendering sorts what members add to the text around them. So the members of the unions and
intersections of a hint may be given in any order, at any depth.

* `Reorders`: the members of one union or intersection, somewhere in the hint, are put in another
  order.
* `sortTexts_eq_of_perm`: sorting forgets the order. Texts that neither comes before the other are
  the same text, so nothing is left that would tell two orders apart.
* `Reorders.render_eq`, `render_eq_of_reordered`: one such change, and any number of them. -/

namespace LazyClasses.TypeHint

/-- The members of one union or intersection of the hint, at any depth, come in another order. -/
inductive Reorders : TypeHint → TypeHint → Prop
  | union {members members' : List TypeHint} : members.Perm members' →
      Reorders (.union members) (.union members')
  | intersection {members members' : List TypeHint} : members.Perm members' →
      Reorders (.intersection members) (.intersection members')
  | inUnion {member member' : TypeHint} (front back : List TypeHint) : Reorders member member' →
      Reorders (.union (front ++ member :: back)) (.union (front ++ member' :: back))
  | inIntersection {member member' : TypeHint} (front back : List TypeHint) :
      Reorders member member' → Reorders (.intersection (front ++ member :: back))
        (.intersection (front ++ member' :: back))

/-! ### What the members add -/

theorem sortTexts_sorted (texts : List String) : (sortTexts texts).Pairwise (· ≤ ·) := by
  have htrans (a b c : String) (hab : decide (a ≤ b) = true) (hbc : decide (b ≤ c) = true) :
      decide (a ≤ c) = true := by
    rw [decide_eq_true_eq] at hab hbc ⊢
    exact String.le_trans hab hbc
  have htotal (a b : String) : (decide (a ≤ b) || decide (b ≤ a)) = true := by
    simpa using String.le_total a b
  have hpairwise := List.pairwise_mergeSort htrans htotal texts
  unfold sortTexts
  simpa only [decide_eq_true_eq] using hpairwise

theorem sortTexts_eq_of_perm {texts texts' : List String} (h : texts.Perm texts') :
    sortTexts texts = sortTexts texts' := by
  have hperm : (sortTexts texts).Perm (sortTexts texts') :=
    (sortTexts_perm texts).trans (h.trans (sortTexts_perm texts').symm)
  exact hperm.eq_of_pairwise (fun _ _ _ _ => String.le_antisymm) (sortTexts_sorted texts)
    (sortTexts_sorted texts')

section Render

variable (scope : ClassScope) (detail : Detail)

theorem renderMembers_eq_flatMap (members : List TypeHint) :
    renderMembers scope detail members =
      members.flatMap fun member =>
        contribution scope detail (render scope detail member) member := by
  induction members with
  | nil => rfl
  | cons member members ih => rw [renderMembers, ih, List.flatMap_cons]

theorem sortTexts_renderMembers_of_perm {members members' : List TypeHint}
    (h : members.Perm members') : sortTexts (renderMembers scope detail members) =
      sortTexts (renderMembers scope detail members') := by
  simp only [renderMembers_eq_flatMap]
  exact sortTexts_eq_of_perm (h.flatMap_right _)

variable {scope detail}

/-- What a member adds depends on its text and on whether it is a union or an intersection. -/
theorem Reorders.renderMembers_eq {member member' : TypeHint} (h : Reorders member member')
    (hrender : render scope detail member = render scope detail member')
    (front back : List TypeHint) : renderMembers scope detail (front ++ member :: back) =
      renderMembers scope detail (front ++ member' :: back) := by
  have hadds : contribution scope detail (render scope detail member) member =
      contribution scope detail (render scope detail member') member' := by
    rw [hrender]
    cases h <;> rfl
  simp only [renderMembers_eq_flatMap, List.flatMap_append, List.flatMap_cons, hadds]

/-- **One union or intersection** in another order. -/
theorem Reorders.render_eq {hint hint' : TypeHint} (h : Reorders hint hint') :
    render scope detail hint = render scope detail hint' := by
  induction h with
  | union hperm => rw [render, render, sortTexts_renderMembers_of_perm scope detail hperm]
  | intersection hperm => rw [render, render, sortTexts_renderMembers_of_perm scope detail hperm]
  | inUnion front back h ih => rw [render, render, h.renderMembers_eq ih]
  | inIntersection front back h ih => rw [render, render, h.renderMembers_eq ih]

end Render

/-- **The order of members does not show.** Hints that differ only in the order in which the members
of unions and intersections are given are rendered to the same text. -/
theorem render_eq_of_reordered {hint hint' : TypeHint}
    (h : Relation.ReflTransGen Reorders hint hint') (scope : ClassScope) (detail : Detail) :
    render scope detail hint = render scope detail hint' := by
  induction h with
  | refl => rfl
  | tail _ hstep ih => exact ih.trans hstep.render_eq

namespace Sample

/-- `self&(?B|int)`. -/
def nested : TypeHint :=
  .intersection [.named "self" false, .union [.named "B" true, .named "int" false]]

/-- `(int|?B)&self`. -/
def nestedBackwards : TypeHint :=
  .intersection [.union [.named "int" false, .named "B" true], .named "self" false]

theorem nested_reorders : Relation.ReflTransGen Reorders nested nestedBackwards := by
  have hinner : Reorders (.union [.named "B" true, .named "int" false])
      (.union [.named "int" false, .named "B" true]) := .union (.swap _ _ [])
  have houter : Reorders nested
      (.intersection [.union [.named "B" true, .named "int" false], .named "self" false]) :=
    .intersection (.swap _ _ [])
  exact (Relation.ReflTransGen.single houter).tail (.inIntersection [] _ hinner)

/-- A union, and an intersection and a union in one of its members, in another order. -/
theorem nested_reordered :
    Relation.ReflTransGen Reorders (.union [nested, .named "null" false, nested])
      (.union [.named "null" false, nested, nestedBackwards]) ∧
    render ⟨some "App\\User", none⟩ .full (.union [nested, .named "null" false, nested]) =
      render ⟨some "App\\User", none⟩ .full
        (.union [.named "null" false, nested, nestedBackwards]) := by
  have hfirst : Reorders (.union [nested, .named "null" false, nested])
      (.union [.named "null" false, nested, nested]) := .union (.swap _ _ [nested])
  have hrest : Relation.ReflTransGen Reorders (.union [.named "null" false, nested, nested])
      (.union [.named "null" false, nested, nestedBackwards]) :=
    nested_reorders.lift (fun m => TypeHint.union [.named "null" false, nested, m])
      fun _ _ h => Reorders.inUnion [.named "null" false, nested] [] h
  have hpath := hrest.head hfirst
  exact ⟨hpath, render_eq_of_reordered hpath _ _⟩

end Sample

end LazyClasses.TypeHint
