import LazyClasses.Proofs.Pieces
import LazyClasses.TypeHint.Render
/-! # The leaves of a rendered type

Rendering sorts, joins and encloses, but it neither loses nor makes up names: the words of the
rendered text are the rendered names of the hint, in some order (`words_render`). This holds of
hints of any depth. -/

namespace LazyClasses.TypeHint

open Text (words words_nil)

variable {isCut : Char → Bool} {scope : ClassScope} {detail : Detail}

/-- The characters that stand around names in a rendered type are cuts. -/
structure Cuts (isCut : Char → Bool) (detail : Detail) : Prop where
  bar : isCut '|' = true
  amp : isCut '&' = true
  opening : isCut '(' = true
  closing : isCut ')' = true
  mark : detail = .full → isCut '?' = true

/-- The text is one word. -/
def IsWord (isCut : Char → Bool) (text : String) : Prop :=
  text.toList ≠ [] ∧ ∀ c ∈ text.toList, isCut c = false

/-- What is rendered for each of the names is one word. -/
def Uncut (isCut : Char → Bool) (scope : ClassScope) (detail : Detail) (names : List String) :
    Prop :=
  ∀ name ∈ names, ∀ text, renderName scope detail name = some text → IsWord isCut text

/-- The words that are rendered for names. -/
def renderedWords (scope : ClassScope) (detail : Detail) (names : List String) : List (List Char) :=
  (names.filterMap (renderName scope detail)).map String.toList

theorem words_mark (hcuts : Cuts isCut detail) (name : String) (nullable : Bool) (text : String) :
    words isCut (mark detail name nullable ++ text).toList = words isCut text.toList := by
  unfold mark
  split_ifs with h
  · simp only [Bool.and_eq_true, decide_eq_true_eq] at h
    rw [String.toList_append]
    exact Text.words_cons (hcuts.mark h.2) text.toList
  · rw [String.empty_append]

theorem words_group (hcuts : Cuts isCut detail) (text : String) :
    words isCut ("(" ++ text ++ ")").toList = words isCut text.toList := by
  rw [String.toList_append, String.toList_append, List.append_assoc]
  refine (Text.words_cons hcuts.opening _).trans ?_
  exact Text.words_concat hcuts.closing text.toList

theorem words_join {sep : Char} (hsep : isCut sep = true) (texts : List String) :
    words isCut ((String.singleton sep).intercalate texts).toList =
      texts.flatMap fun text => words isCut text.toList := by
  rw [String.toList_intercalate, String.toList_singleton, Text.words_intercalate hsep,
    List.flatMap_map]

/-- A member adds the words of its own text to those around it. -/
theorem words_contribution (hcuts : Cuts isCut detail) (member : TypeHint) :
    ((contribution scope detail (render scope detail member) member).flatMap fun text =>
      words isCut text.toList) = words isCut (render scope detail member).toList := by
  have hempty {text : String} (h : text.isEmpty = true) : words isCut text.toList = [] := by
    rw [String.isEmpty_iff.1 h]
    rfl
  cases member with
  | named name nullable =>
    rw [contribution, render]
    cases renderName scope detail name with
    | none => rfl
    | some text =>
      simp only
      rw [words_mark hcuts, Option.toList_some, List.flatMap_singleton]
  | union members =>
    rw [contribution]
    split_ifs with h
    · rw [hempty h]
      rfl
    · rw [List.flatMap_singleton]
  | intersection members =>
    rw [contribution]
    split_ifs with h
    · rw [hempty h]
      rfl
    · rw [List.flatMap_singleton, words_group hcuts]

theorem sortTexts_perm (texts : List String) : (sortTexts texts).Perm texts :=
  List.mergeSort_perm texts _

mutual

/-- **The words of the rendered text are the rendered names**, up to order. -/
theorem words_render (hcuts : Cuts isCut detail) : ∀ hint : TypeHint,
    Uncut isCut scope detail hint.leaves →
    (words isCut (render scope detail hint).toList).Perm (renderedWords scope detail hint.leaves)
  | .named name nullable, h => by
    have hmark := words_mark hcuts name nullable
    rw [leaves, renderedWords, render]
    cases hname : renderName scope detail name with
    | none => simp [hname, words_nil]
    | some text =>
      obtain ⟨hne, huncut⟩ := h name (List.mem_singleton_self name) text hname
      simp only
      rw [hmark, Text.words_of_uncut hne huncut]
      simp [hname]
  | .union members, h => by
    rw [render, leaves]
    refine List.Perm.trans ?_ (words_renderMembers hcuts members h)
    exact (words_join hcuts.bar _).symm ▸ (sortTexts_perm _).flatMap_right _
  | .intersection members, h => by
    rw [render, leaves]
    refine List.Perm.trans ?_ (words_renderMembers hcuts members h)
    exact (words_join hcuts.amp _).symm ▸ (sortTexts_perm _).flatMap_right _

theorem words_renderMembers (hcuts : Cuts isCut detail) : ∀ members : List TypeHint,
    Uncut isCut scope detail (leavesAll members) →
    ((renderMembers scope detail members).flatMap fun text => words isCut text.toList).Perm
      (renderedWords scope detail (leavesAll members))
  | [], _ => by simp [renderMembers, leavesAll, renderedWords]
  | member :: members, h => by
    rw [leavesAll] at h
    rw [renderMembers, leavesAll, List.flatMap_append, words_contribution hcuts, renderedWords,
      List.filterMap_append, List.map_append]
    exact (words_render hcuts member fun name hname => h name (List.mem_append_left _ hname)).append
      (words_renderMembers hcuts members fun name hname => h name (List.mem_append_right _ hname))

end

end LazyClasses.TypeHint
