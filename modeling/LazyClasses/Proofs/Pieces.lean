import LazyClasses.Text.Blank
import LazyClasses.Text.Split
import Mathlib.Algebra.GroupWithZero.Nat
import Mathlib.Data.List.Forall2
import Mathlib.Data.List.TakeWhile
import Mathlib.Tactic.SplitIfs
/-! # What a text is made of

How a text is put together, said without the functions that take it apart.

* `Padded`: a text with blanks around it. `trimChars_eq_iff`: trimming finds the text inside.
* `Listed`: items written one after the other with a character between them.
  `mapM_split_eq_some_iff`: cutting at that character and reading the pieces finds the items.
* `words`: the pieces that are not empty; `words_intercalate` finds those of each item. -/

namespace LazyClasses.Text

/-! ### Blanks around a text -/

/-- No blank stands at either end. -/
structure Tight (l : List Char) : Prop where
  first : ∀ c, l.head? = some c → isBlank c = false
  last : ∀ c, l.getLast? = some c → isBlank c = false

/-- The core stands between blanks, and takes in none of them. -/
structure Padded (core l : List Char) : Prop where
  tight : Tight core
  around : ∃ front back, l = front ++ core ++ back ∧ (∀ c ∈ front, isBlank c = true) ∧
    ∀ c ∈ back, isBlank c = true

theorem trimLeft_spec (l : List Char) : ∃ front, l = front ++ trimLeft l ∧
    (∀ c ∈ front, isBlank c = true) ∧ ∀ c, (trimLeft l).head? = some c → isBlank c = false := by
  refine ⟨l.takeWhile isBlank, List.takeWhile_append_dropWhile.symm,
    fun c => List.mem_takeWhile_imp, fun c hc => ?_⟩
  have h := List.head?_dropWhile_not isBlank l
  rwa [show l.dropWhile isBlank = trimLeft l from rfl, hc] at h

theorem padded_trimChars (l : List Char) : Padded (trimChars l) l := by
  obtain ⟨front, hl, hfront, hfirst⟩ := trimLeft_spec l
  obtain ⟨back, hback, hblank, hlast⟩ := trimLeft_spec (trimLeft l).reverse
  have hcore : trimLeft l = trimChars l ++ back.reverse := by
    rw [← List.reverse_inj, hback, List.reverse_append, List.reverse_reverse, trimChars,
      List.reverse_reverse, ← hback]
  refine ⟨⟨fun c hc => hfirst c ?_, fun c hc => hlast c ?_⟩, front, back.reverse, ?_, hfront, ?_⟩
  · rw [hcore, List.head?_append, hc]
    rfl
  · rwa [trimChars, List.getLast?_reverse] at hc
  · rw [List.append_assoc, ← hcore, ← hl]
  · exact fun c hc => hblank c (List.mem_reverse.1 hc)

theorem trimLeft_append {front l : List Char} (hfront : ∀ c ∈ front, isBlank c = true)
    (hl : ∀ c, l.head? = some c → isBlank c = false) : trimLeft (front ++ l) = l := by
  rw [trimLeft, List.dropWhile_append_of_pos hfront]
  cases l with
  | nil => rfl
  | cons c l => exact List.dropWhile_cons_of_neg (by simp [hl c rfl])

/-- **Trimming finds the text between the blanks.** -/
theorem trimChars_eq_iff {core l : List Char} : trimChars l = core ↔ Padded core l := by
  constructor
  · rintro rfl
    exact padded_trimChars l
  · rintro ⟨htight, front, back, rfl, hfront, hback⟩
    have hblank : ∀ c ∈ back.reverse, isBlank c = true :=
      fun c hc => hback c (List.mem_reverse.1 hc)
    cases core with
    | nil =>
      have hall : ∀ c ∈ front ++ [] ++ back, isBlank c = true := by
        simpa [or_imp, forall_and] using ⟨hfront, hback⟩
      have hnil : trimLeft (front ++ [] ++ back) = [] := List.dropWhile_eq_nil_iff.2 hall
      rw [trimChars, hnil]
      rfl
    | cons c core =>
      rw [trimChars, List.append_assoc,
        trimLeft_append (l := c :: core ++ back) hfront fun d hd => htight.first d hd,
        List.reverse_append, trimLeft_append hblank, List.reverse_reverse]
      intro d hd
      exact htight.last d (by rwa [List.head?_reverse] at hd)

theorem Tight.padded {l : List Char} (h : Tight l) : Padded l l :=
  ⟨h, [], [], by simp, by simp, by simp⟩

theorem Tight.trimChars {l : List Char} (h : Tight l) : trimChars l = l :=
  trimChars_eq_iff.2 h.padded

theorem padded_trimChars_iff {core l : List Char} : Padded core (trimChars l) ↔ Padded core l := by
  rw [← trimChars_eq_iff, ← trimChars_eq_iff, (padded_trimChars l).tight.trimChars]

theorem Padded.mem {core l : List Char} (h : Padded core l) {c : Char} (hc : c ∈ l) :
    c ∈ core ∨ isBlank c = true := by
  obtain ⟨-, front, back, rfl, hfront, hback⟩ := h
  simp only [List.mem_append, or_assoc] at hc
  rcases hc with hc | hc | hc
  · exact .inr (hfront c hc)
  · exact .inl hc
  · exact .inr (hback c hc)

theorem Padded.length_le {core l : List Char} (h : Padded core l) : core.length ≤ l.length := by
  obtain ⟨-, front, back, rfl, -, -⟩ := h
  simp only [List.length_append]
  omega

/-! ### Items in a row -/

section Listed

variable {α : Type} {sep : Char} {Writes : List Char → α → Prop}

/-- The text writes the items one after the other, with the character between them. -/
def Listed (sep : Char) (Writes : List Char → α → Prop) (l : List Char) (items : List α) : Prop :=
  ∃ pieces, l = [sep].intercalate pieces ∧ List.Forall₂ Writes pieces items

theorem split_eq_splitOnP (isCut : Char → Bool) : ∀ l, split isCut l = l.splitOnP isCut
  | [] => by simp [split]
  | c :: l => by
    rw [split, split_eq_splitOnP isCut l, List.splitOnP_cons_eq_if_modifyHead]
    cases h : l.splitOnP isCut with
    | nil => exact absurd (split_eq_splitOnP isCut l ▸ h) (split_ne_nil isCut l)
    | cons piece pieces => rfl

theorem intercalate_split (sep : Char) (l : List Char) :
    [sep].intercalate (split (· == sep) l) = l := by
  rw [split_eq_splitOnP]
  exact List.intercalate_splitOn sep

theorem split_intercalate {pieces : List (List Char)} (hne : pieces ≠ [])
    (h : ∀ piece ∈ pieces, sep ∉ piece) : split (· == sep) ([sep].intercalate pieces) = pieces := by
  rw [split_eq_splitOnP]
  exact List.splitOn_intercalate sep h hne

theorem mem_intercalate {c : Char} : ∀ {pieces : List (List Char)},
    c ∈ [sep].intercalate pieces → c = sep ∨ ∃ piece ∈ pieces, c ∈ piece
  | [], h => by simp at h
  | [piece], h => .inr ⟨piece, List.mem_singleton_self _, by simpa using h⟩
  | piece :: next :: pieces, h => by
    rw [List.intercalate_cons_cons, List.append_assoc, List.mem_append, List.mem_append] at h
    rcases h with h | h | h
    · exact .inr ⟨piece, List.mem_cons_self, h⟩
    · exact .inl (List.mem_singleton.1 h)
    · exact (mem_intercalate h).imp_right fun ⟨p, hp, hc⟩ => ⟨p, List.mem_cons_of_mem _ hp, hc⟩

theorem mem_intercalate_sep (sep : Char) : ∀ {pieces : List (List Char)}, 2 ≤ pieces.length →
    sep ∈ [sep].intercalate pieces
  | piece :: next :: pieces, _ => by simp [List.intercalate_cons_cons]

theorem tight_intercalate : ∀ {pieces : List (List Char)}, pieces ≠ [] →
    (∀ piece ∈ pieces, piece ≠ [] ∧ Tight piece) → Tight ([sep].intercalate pieces)
  | [], hne, _ => absurd rfl hne
  | [piece], _, h => by
    rw [List.intercalate_singleton]
    exact (h piece (List.mem_singleton_self _)).2
  | piece :: next :: pieces, _, h => by
    obtain ⟨hne, hpiece⟩ := h piece List.mem_cons_self
    have ih := tight_intercalate (List.cons_ne_nil next pieces)
      fun p hp => h p (List.mem_cons_of_mem _ hp)
    have hrest : [sep].intercalate (next :: pieces) ≠ [] := by
      obtain ⟨c, cs, hnext⟩ := List.exists_cons_of_ne_nil (h next (by simp)).1
      rw [hnext, List.intercalate_cons_cons_left]
      exact List.cons_ne_nil _ _
    rw [List.intercalate_cons_cons]
    constructor
    · rw [List.append_assoc, List.head?_append_of_ne_nil _ hne]
      exact hpiece.first
    · rw [List.getLast?_append_of_ne_nil _ hrest]
      exact ih.last

/-- Each piece but the last has a character behind it. -/
theorem length_intercalate (sep : Char) : ∀ {pieces : List (List Char)}, pieces ≠ [] →
    ([sep].intercalate pieces).length + 1 = (pieces.map fun p => p.length + 1).sum
  | [], hne => absurd rfl hne
  | [piece], _ => by simp
  | piece :: next :: pieces, _ => by
    have ih := length_intercalate sep (List.cons_ne_nil next pieces)
    rw [List.intercalate_cons_cons, List.map_cons, List.sum_cons, ← ih]
    simp only [List.length_append, List.length_singleton]
    omega

theorem forall_of_forall₂ {β : Type} {R : β → α → Prop} {P : β → Prop} (hR : ∀ b a, R b a → P b)
    {l : List β} {items : List α} (h : List.Forall₂ R l items) : ∀ b ∈ l, P b :=
  ((List.forall₂_and_left l items).1 (h.imp fun b a hba => ⟨hR b a hba, hba⟩)).1

theorem mapM_eq_some_iff {β : Type} {f : β → Option α} : ∀ {l : List β} {items : List α},
    l.mapM f = some items ↔ List.Forall₂ (fun b a => f b = some a) l items
  | [], items => by
    rw [List.mapM_nil, List.forall₂_nil_left_iff]
    exact Option.some_inj.trans eq_comm
  | b :: l, items => by
    rw [List.mapM_cons, List.forall₂_cons_left_iff]
    constructor
    · intro h
      obtain ⟨a, ha, h⟩ := Option.bind_eq_some_iff.1 h
      obtain ⟨rest, hrest, h⟩ := Option.bind_eq_some_iff.1 h
      exact ⟨a, rest, ha, mapM_eq_some_iff.1 hrest, (Option.some.inj h).symm⟩
    · rintro ⟨a, rest, ha, hrest, rfl⟩
      rw [ha, mapM_eq_some_iff.2 hrest]
      rfl

/-- **Cutting and reading finds the items of a row**, if none of them is written with the character
between them. -/
theorem mapM_split_eq_some_iff {f : List Char → Option α} (hf : ∀ l a, f l = some a ↔ Writes l a)
    (hsep : ∀ l a, Writes l a → sep ∉ l) {l : List Char} {items : List α} (hne : items ≠ []) :
    (split (· == sep) l).mapM f = some items ↔ Listed sep Writes l items := by
  have hR : (fun l a => f l = some a) = Writes := by
    funext l a
    exact propext (hf l a)
  rw [mapM_eq_some_iff, hR]
  constructor
  · exact fun h => ⟨_, (intercalate_split sep l).symm, h⟩
  · rintro ⟨pieces, rfl, h⟩
    have hpieces : pieces ≠ [] := by
      rintro rfl
      exact hne (List.forall₂_nil_left_iff.1 h)
    rwa [split_intercalate hpieces]
    exact forall_of_forall₂ hsep h

end Listed

/-! ### Words -/

section Words

variable {isCut : Char → Bool} {sep : Char}

/-- The pieces that are not empty. -/
def words (isCut : Char → Bool) (l : List Char) : List (List Char) :=
  (split isCut l).filter fun word => !word.isEmpty

theorem words_nil : words isCut [] = [] := rfl

theorem words_append (hsep : isCut sep = true) (l m : List Char) :
    words isCut (l ++ sep :: m) = words isCut l ++ words isCut m := by
  simp only [words, split_eq_splitOnP]
  rw [List.splitOnP_append_cons l m hsep, List.filter_append]

theorem words_of_uncut {l : List Char} (hne : l ≠ []) (h : ∀ c ∈ l, isCut c = false) :
    words isCut l = [l] := by
  rw [words, split_eq_splitOnP, List.splitOnP_eq_singleton h]
  simp [hne]

theorem words_cons (hsep : isCut sep = true) (l : List Char) :
    words isCut (sep :: l) = words isCut l := by
  rw [← List.nil_append (sep :: l), words_append hsep, words_nil, List.nil_append]

theorem words_concat (hsep : isCut sep = true) (l : List Char) :
    words isCut (l ++ [sep]) = words isCut l := by
  rw [words_append hsep, words_nil, List.append_nil]

theorem words_intercalate (hsep : isCut sep = true) : ∀ pieces : List (List Char),
    words isCut ([sep].intercalate pieces) = pieces.flatMap (words isCut)
  | [] => rfl
  | [piece] => by simp
  | piece :: next :: pieces => by
    rw [List.intercalate_cons_cons, List.append_assoc, List.singleton_append, words_append hsep,
      words_intercalate hsep (next :: pieces), ← List.flatMap_cons]

end Words

end LazyClasses.Text
