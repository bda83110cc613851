import Mathlib.Data.List.Basic
import Mathlib.Tactic.SplitIfs
/-! # String expressions

What a PHP string expression denotes: texts in single quotes, `"\0"` for NUL, `parent::class` where
there is a parent, and any of these joined by dots, with blanks in between.

* `unquote`: between single quotes `\` escapes `\` and `'`, and stands for itself before all else.
* `operand`, `concatenation`: what stands in front of a text, and the rest.
* `denoted`: what the whole of a text denotes, if it is a string expression.
* `unquote_quoted`, `concatenation_of_operand`: one step of reading each. -/

namespace LazyClasses.StringExpr

/-- Puts a text in front of what was read. -/
def prepend (front : List Char) (p : List Char × List Char) : List Char × List Char :=
  (front ++ p.1, p.2)

/-- Whether the next token may stand behind the character. -/
def isSpace (c : Char) : Bool := c == ' ' || c == '\n' || c == '\t' || c == '\r'

/-- The text from its first character that is no blank on. -/
def skip (l : List Char) : List Char := l.dropWhile isSpace

/-- What stands behind a word, if the text begins with it. -/
def afterWord (word l : List Char) : Option (List Char) :=
  if word.isPrefixOf l then some (l.drop word.length) else none

/-- What the text behind an opening single quote denotes up to the closing one, and the rest. -/
def unquote : List Char → Option (List Char × List Char)
  | [] => none
  | '\\' :: c :: rest =>
    (unquote rest).map (prepend (if c = '\\' ∨ c = '\'' then [c] else ['\\', c]))
  | c :: rest => if c = '\'' then some ([], rest) else (unquote rest).map (prepend [c])

/-- What the operand in front denotes, and the rest; `parent` is what `parent::class` stands for. -/
def operand (parent : Option String) : List Char → Option (List Char × List Char)
  | '\'' :: rest => unquote rest
  | '"' :: rest => (afterWord "\\0\"".toList rest).map (['\x00'], ·)
  | l => parent.bind fun cls => (afterWord "parent::class".toList l).map (cls.toList, ·)

theorem length_unquote_lt {l : List Char} {p : List Char × List Char} (h : unquote l = some p) :
    p.2.length < l.length := by
  fun_induction unquote l generalizing p with
  | case1 => cases h
  | case2 c rest ih =>
    obtain ⟨q, hq, rfl⟩ := Option.map_eq_some_iff.1 h
    have := ih hq
    simp only [prepend, List.length_cons]
    omega
  | case3 => cases h; simp
  | case4 c rest _ _ ih =>
    obtain ⟨q, hq, rfl⟩ := Option.map_eq_some_iff.1 h
    have := ih hq
    simp only [prepend, List.length_cons]
    omega

theorem length_skip_le (l : List Char) : (skip l).length ≤ l.length :=
  (List.dropWhile_suffix isSpace).length_le

/-- The text begins with a character that is no blank. -/
def Starts (l : List Char) : Prop := ∃ c rest, l = c :: rest ∧ isSpace c = false

theorem Starts.append {l : List Char} (h : Starts l) (rest : List Char) : Starts (l ++ rest) := by
  obtain ⟨c, l, rfl, hc⟩ := h
  exact ⟨c, l ++ rest, rfl, hc⟩

theorem skip_append {l : List Char} (h : Starts l) (rest : List Char) :
    skip (l ++ rest) = l ++ rest := by
  obtain ⟨c, l, rfl, hc⟩ := h
  rw [List.cons_append, skip, List.dropWhile_cons_of_neg (by rw [hc]; decide)]

theorem afterWord_eq_some_iff {word l rest : List Char} :
    afterWord word l = some rest ↔ l = word ++ rest := by
  unfold afterWord
  split_ifs with h
  · obtain ⟨t, rfl⟩ := List.isPrefixOf_iff_prefix.1 h
    simp [eq_comm]
  · constructor
    · intro h'; cases h'
    · rintro rfl
      exact absurd (List.isPrefixOf_iff_prefix.2 (List.prefix_append _ _)) h

theorem length_afterWord_lt {word l rest : List Char} (hw : word ≠ [])
    (h : afterWord word l = some rest) : rest.length < l.length := by
  have := List.length_pos_of_ne_nil hw
  rw [afterWord_eq_some_iff.1 h, List.length_append]
  omega

theorem length_operand_lt {parent : Option String} {l : List Char} {p : List Char × List Char}
    (h : operand parent l = some p) : p.2.length < l.length := by
  unfold operand at h
  split at h
  · have := length_unquote_lt h
    simp only [List.length_cons]
    omega
  · obtain ⟨rest', hrest, rfl⟩ := Option.map_eq_some_iff.1 h
    have := length_afterWord_lt (by decide) hrest
    simp only [List.length_cons]
    omega
  · obtain ⟨cls, -, h⟩ := Option.bind_eq_some_iff.1 h
    obtain ⟨rest', hrest, rfl⟩ := Option.map_eq_some_iff.1 h
    exact length_afterWord_lt (by decide) hrest

/-- **What the operands in front denote**, joined by dots, and the rest. -/
def concatenation (parent : Option String) (l : List Char) : Option (List Char × List Char) :=
  match _h : operand parent (skip l) with
  | none => none
  | some p =>
    match _h' : afterWord ['.'] (skip p.2) with
    | some more => (concatenation parent more).map (prepend p.1)
    | none => some p
termination_by l.length
decreasing_by
  have hmore := length_afterWord_lt (by decide) _h'
  have hrest := length_skip_le p.2
  have hop := length_operand_lt _h
  have hl := length_skip_le l
  omega

/-- **What a text denotes** as a string expression outside every class. -/
def denoted (l : List Char) : Option (List Char) :=
  match concatenation none l with
  | some (value, rest) => if rest.all isSpace then some value else none
  | none => none

/-! ### Reading step by step -/

variable {parent : Option String}

theorem unquote_quote (l : List Char) : unquote ('\'' :: l) = some ([], l) := by
  simp [unquote]

theorem unquote_escape (c : Char) (l : List Char) : unquote ('\\' :: c :: l) =
    (unquote l).map (prepend (if c = '\\' ∨ c = '\'' then [c] else ['\\', c])) := by
  rw [unquote]

theorem unquote_plain {c : Char} (hesc : c ≠ '\\') (hquote : c ≠ '\'') (l : List Char) :
    unquote (c :: l) = (unquote l).map (prepend [c]) := by
  rw [unquote, if_neg hquote]
  rintro _ _ rfl
  exact absurd rfl hesc

theorem operand_eq_none {c : Char} (h : c ∉ ['\'', '"', 'p']) (l : List Char) :
    operand parent (c :: l) = none := by
  simp only [List.mem_cons, List.not_mem_nil, or_false, not_or] at h
  obtain ⟨hsingle, hdouble, hp⟩ := h
  unfold operand
  split
  · rename_i heq
    exact absurd (List.cons.inj heq).1 hsingle
  · rename_i heq
    exact absurd (List.cons.inj heq).1 hdouble
  · rw [Option.bind_eq_none_iff]
    intro cls _
    rw [Option.map_eq_none_iff, Option.eq_none_iff_forall_ne_some]
    intro rest hrest
    exact hp (List.cons.inj (afterWord_eq_some_iff.1 hrest)).1

/-- Reading goes on behind a dot. -/
theorem concatenation_of_dot {l m : List Char} {p : List Char × List Char}
    (hop : operand parent (skip l) = some p) (hdot : afterWord ['.'] (skip p.2) = some m) :
    concatenation parent l = (concatenation parent m).map (prepend p.1) := by
  rw [concatenation]
  split
  · rename_i h
    rw [hop] at h
    cases h
  · rename_i q h
    obtain rfl := Option.some.inj (hop.symm.trans h)
    split
    · rename_i more' h'
      rw [Option.some.inj (hdot.symm.trans h')]
    · rename_i h'
      rw [hdot] at h'
      cases h'

/-- Reading ends where no dot follows. -/
theorem concatenation_of_end {l : List Char} {p : List Char × List Char}
    (hop : operand parent (skip l) = some p) (hdot : afterWord ['.'] (skip p.2) = none) :
    concatenation parent l = some p := by
  rw [concatenation]
  split
  · rename_i h
    rw [hop] at h
    cases h
  · rename_i q h
    obtain rfl := Option.some.inj (hop.symm.trans h)
    split
    · rename_i more' h'
      rw [hdot] at h'
      cases h'
    · rfl

theorem concatenation_of_operand_eq_none {l : List Char} (hop : operand parent (skip l) = none) :
    concatenation parent l = none := by
  rw [concatenation]
  split
  · rfl
  · rename_i q h
    rw [hop] at h
    cases h

theorem length_concatenation_lt {l : List Char} {p : List Char × List Char}
    (h : concatenation parent l = some p) : p.2.length < l.length := by
  induction l using concatenation.induct parent generalizing p with
  | case1 l hop =>
    rw [concatenation_of_operand_eq_none hop] at h
    cases h
  | case2 l q hop more hdot ih =>
    rw [concatenation_of_dot hop hdot] at h
    obtain ⟨r, hr, rfl⟩ := Option.map_eq_some_iff.1 h
    have := ih hr
    have := length_operand_lt hop
    have := length_skip_le l
    have := length_afterWord_lt (by decide) hdot
    have := length_skip_le q.2
    simp only [prepend]
    omega
  | case3 l q hop hdot =>
    rw [concatenation_of_end hop hdot] at h
    cases h
    have := length_operand_lt hop
    have := length_skip_le l
    omega

end LazyClasses.StringExpr
