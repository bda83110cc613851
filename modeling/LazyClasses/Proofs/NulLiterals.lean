import LazyClasses.DefaultExpr
import LazyClasses.Proofs.StringExpr
/-! # `NUL` in single-quoted literals

A literal in single quotes is cut at each `NUL`, and the parts are joined again by `"\0"`. The cut
closes the quotes, unless a `\` stands in front of the `NUL`: it escapes the closing quote then, and
what is written is no string expression any more. In all other literals the text stays the same.

* `QuotedTail`: what stands behind the opening quote of a literal.
* `escapesNul`: whether a `\` that is not escaped itself stands in front of a `NUL`.
* `concatenation_quote_splice`: behind all other cuts the quotes are open again.
* `denoted_eq_none_of_stray`: a closing quote too much is never made good again. The invariant is
  that what is left to read is the tail of a literal, with its cuts; it holds a quote.
* `denoted_requalified_literal`: both together, for every literal of an expression. -/

namespace LazyClasses.DefaultExpr

open StringExpr

/-- What stands behind an opening single quote up to the closing one, which ends the text. -/
inductive QuotedTail : List Char → Prop
  | close : QuotedTail ['\'']
  | escaped (c : Char) {l : List Char} : QuotedTail l → QuotedTail ('\\' :: c :: l)
  | nul {l : List Char} : QuotedTail l → QuotedTail ('\x00' :: l)
  | plain {c : Char} {l : List Char} : c ∉ ['\\', '\'', '\x00'] → QuotedTail l → QuotedTail (c :: l)

/-- Whether a `\` that is not escaped itself stands in front of a `NUL`. -/
def escapesNul : List Char → Bool
  | '\\' :: c :: l => c == '\x00' || escapesNul l
  | _ :: l => escapesNul l
  | [] => false

/-- What is written for a `NUL`. -/
def cut : List Char := "'.\"\\0\".'".toList

/-- A text with a cut for each `NUL`. -/
def splice (l : List Char) : List Char := l.flatMap fun c => if c = '\x00' then cut else [c]

theorem escapesNul_plain {c : Char} (h : c ≠ '\\') {l : List Char} :
    escapesNul (c :: l) = escapesNul l := by
  rw [escapesNul]
  rintro _ _ rfl
  exact absurd rfl h

theorem splice_nul (l : List Char) : splice ('\x00' :: l) = cut ++ splice l := rfl

theorem splice_cons {c : Char} (h : c ≠ '\x00') (l : List Char) :
    splice (c :: l) = c :: splice l := by
  rw [splice, List.flatMap_cons, if_neg h]
  rfl

theorem nul_not_mem_splice (l : List Char) : '\x00' ∉ splice l := by
  simp only [splice, List.mem_flatMap, not_exists, not_and]
  intro c _
  split_ifs with h
  · decide
  · rw [List.mem_singleton]
    exact fun h' => h h'.symm

theorem not_mem_plain_iff {c : Char} :
    c ∉ ['\\', '\'', '\x00'] ↔ c ≠ '\\' ∧ c ≠ '\'' ∧ c ≠ '\x00' := by
  simp

/-! ### The literals of an expression -/

theorem quotedTail_of_literalEnd {l : List Char} {p : List Char × List Char}
    (h : literalEnd '\'' l = some p) : QuotedTail p.1 := by
  fun_induction literalEnd '\'' l generalizing p with
  | case1 => cases h
  | case2 => cases h
  | case3 c rest ih =>
    obtain ⟨q, hq, rfl⟩ := Option.map_eq_some_iff.1 h
    exact .escaped c (ih hq)
  | case4 => cases h; exact .close
  | case5 c rest hlast hesc hquote ih =>
    obtain ⟨q, hq, rfl⟩ := Option.map_eq_some_iff.1 h
    by_cases hnul : c = '\x00'
    · rw [hnul]
      exact .nul (ih hq)
    · refine .plain (not_mem_plain_iff.2 ⟨?_, hquote, hnul⟩) (ih hq)
      rintro rfl
      cases rest with
      | nil => exact hlast rfl rfl
      | cons c rest => exact hesc c rest rfl rfl

theorem quotedTail_of_nextPiece {free : Bool} {c : Char} {rest body : List Char}
    (h : (nextPiece free c rest).1 = .literal ('\'' :: body)) : QuotedTail body := by
  unfold nextPiece at h
  split at h
  · rename_i body' after hend
    obtain ⟨rfl, rfl⟩ := List.cons.inj (Piece.literal.inj h)
    exact quotedTail_of_literalEnd hend
  · split at h
    · split_ifs at h
    · cases h

theorem quotedTail_of_mem_scan {free : Bool} {l body : List Char}
    (h : .literal ('\'' :: body) ∈ scan free l) : QuotedTail body := by
  fun_induction scan free l with
  | case1 => cases h
  | case2 free c rest next ih =>
    rcases List.mem_cons.1 h with h | h
    · exact quotedTail_of_nextPiece h.symm
    · exact ih h

/-! ### Inside the quotes -/

theorem denoted_eq_none_iff {l : List Char} :
    denoted l = none ↔ ∀ p, concatenation none l = some p → p.2.all isSpace = false := by
  unfold denoted
  cases concatenation none l with
  | none => simp
  | some p => simp [Bool.not_eq_true]

/-- What is read in the quotes first is read in front of all else. -/
theorem concatenation_of_unquote {l l' value : List Char}
    (h : unquote l' = (unquote l).map (prepend value)) : concatenation none ('\'' :: l') =
      (concatenation none ('\'' :: l)).map (prepend value) := by
  have hskip (m : List Char) : operand none (skip ('\'' :: m)) = unquote m := rfl
  cases hl : unquote l with
  | none =>
    rw [hl] at h
    rw [concatenation_of_operand_eq_none (by rw [hskip, h]; rfl),
      concatenation_of_operand_eq_none (by rw [hskip, hl])]
    rfl
  | some p =>
    rw [hl] at h
    have hl' : operand none (skip ('\'' :: l')) = some (prepend value p) := by rw [hskip, h]; rfl
    have hl : operand none (skip ('\'' :: l)) = some p := by rw [hskip, hl]
    cases hdot : afterWord ['.'] (skip p.2) with
    | none =>
      rw [concatenation_of_end hl hdot, concatenation_of_end hl' hdot]
      rfl
    | some more =>
      rw [concatenation_of_dot hl hdot, concatenation_of_dot hl' hdot, Option.map_map]
      congr 1
      funext q
      simp [prepend]

/-- At a cut that no `\` precedes a `NUL` is read, and the quotes are open again. -/
theorem concatenation_cut (l : List Char) : concatenation none ('\'' :: (cut ++ l)) =
    (concatenation none ('\'' :: l)).map (prepend ['\x00']) := by
  have hnul : concatenation none ("\"\\0\".'".toList ++ l) =
      (concatenation none ('\'' :: l)).map (prepend ['\x00']) :=
    concatenation_of_dot (p := (['\x00'], ".'".toList ++ l)) rfl rfl
  have hempty : concatenation none ('\'' :: (cut ++ l)) =
      (concatenation none ("\"\\0\".'".toList ++ l)).map (prepend []) :=
    concatenation_of_dot (p := ([], ".\"\\0\".'".toList ++ l)) (unquote_quote _) rfl
  rw [hempty, hnul, Option.map_map]
  rfl

theorem QuotedTail.concatenation_quote {l : List Char} (h : QuotedTail l) :
    ∃ value, concatenation none ('\'' :: l) = some (value, []) := by
  induction h with
  | close => exact ⟨[], concatenation_of_end rfl rfl⟩
  | escaped c _ ih =>
    obtain ⟨value, hl⟩ := ih
    rw [concatenation_of_unquote (unquote_escape c _), hl]
    exact ⟨_, rfl⟩
  | nul _ ih =>
    obtain ⟨value, hl⟩ := ih
    rw [concatenation_of_unquote (unquote_plain (by decide) (by decide) _), hl]
    exact ⟨_, rfl⟩
  | plain hc _ ih =>
    obtain ⟨value, hl⟩ := ih
    obtain ⟨hesc, hquote, -⟩ := not_mem_plain_iff.1 hc
    rw [concatenation_of_unquote (unquote_plain hesc hquote _), hl]
    exact ⟨_, rfl⟩

/-- **Cuts that no `\` precedes keep the text.** -/
theorem concatenation_quote_splice {l : List Char} (h : QuotedTail l)
    (hnul : escapesNul l = false) :
    concatenation none ('\'' :: splice l) = concatenation none ('\'' :: l) := by
  induction h with
  | close => rfl
  | escaped c _ ih =>
    rw [escapesNul, Bool.or_eq_false_iff, beq_eq_false_iff_ne] at hnul
    rw [splice_cons (by decide), splice_cons hnul.1, concatenation_of_unquote (unquote_escape c _),
      concatenation_of_unquote (unquote_escape c _), ih hnul.2]
  | nul _ ih =>
    rw [escapesNul_plain (by decide)] at hnul
    rw [splice_nul, concatenation_cut, ih hnul,
      concatenation_of_unquote (unquote_plain (by decide) (by decide) _)]
  | plain hc _ ih =>
    obtain ⟨hesc, hquote, hne⟩ := not_mem_plain_iff.1 hc
    rw [escapesNul_plain hesc] at hnul
    rw [splice_cons hne, concatenation_of_unquote (unquote_plain hesc hquote _),
      concatenation_of_unquote (unquote_plain hesc hquote _), ih hnul]

/-! ### Outside the quotes -/

theorem QuotedTail.quote_mem {l : List Char} (h : QuotedTail l) : '\'' ∈ splice l := by
  induction h with
  | close => exact List.mem_singleton_self _
  | escaped c _ ih =>
    rw [splice, List.flatMap_cons, List.flatMap_cons]
    exact List.mem_append_right _ (List.mem_append_right _ ih)
  | nul _ ih => exact List.mem_append_right _ ih
  | plain _ _ ih =>
    rw [splice, List.flatMap_cons]
    exact List.mem_append_right _ ih

/-! A character in front of a spliced tail that comes from no cut stands in front of the tail too,
and what follows is spliced again. -/

theorem QuotedTail.of_splice_plain {l more : List Char} {c : Char} (h : QuotedTail l)
    (hesc : c ≠ '\\') (hquote : c ≠ '\'') (heq : splice l = c :: more) :
    ∃ l', l = c :: l' ∧ QuotedTail l' ∧ more = splice l' := by
  cases h with
  | close => exact absurd (List.cons.inj heq).1.symm hquote
  | escaped d _ =>
    rw [splice_cons (by decide)] at heq
    exact absurd (List.cons.inj heq).1.symm hesc
  | nul _ => exact absurd (List.cons.inj heq).1.symm hquote
  | plain hd h =>
    rw [splice_cons (not_mem_plain_iff.1 hd).2.2] at heq
    obtain ⟨rfl, rfl⟩ := List.cons.inj heq
    exact ⟨_, rfl, h, rfl⟩

theorem QuotedTail.of_splice_escaped {l more : List Char} {c : Char} (h : QuotedTail l)
    (hquote : c ≠ '\'') (heq : splice l = '\\' :: c :: more) :
    ∃ l', l = '\\' :: c :: l' ∧ QuotedTail l' ∧ more = splice l' := by
  cases h with
  | close => cases (List.cons.inj heq).1
  | escaped d h =>
    rw [splice_cons (by decide)] at heq
    have heq := (List.cons.inj heq).2
    by_cases hd : d = '\x00'
    · rw [hd, splice_nul] at heq
      exact absurd (List.cons.inj heq).1.symm hquote
    · rw [splice_cons hd] at heq
      obtain ⟨rfl, rfl⟩ := List.cons.inj heq
      exact ⟨_, rfl, h, rfl⟩
  | nul _ => cases (List.cons.inj heq).1
  | plain hd _ =>
    obtain ⟨hesc, -, hne⟩ := not_mem_plain_iff.1 hd
    rw [splice_cons hne] at heq
    exact absurd (List.cons.inj heq).1 hesc

theorem QuotedTail.of_splice_quote {l more : List Char} (h : QuotedTail l)
    (heq : splice l = '\'' :: more) :
    more = [] ∨
      ∃ l', l = '\x00' :: l' ∧ QuotedTail l' ∧ more = ".\"\\0\".'".toList ++ splice l' := by
  cases h with
  | close => exact .inl (List.cons.inj heq).2.symm
  | escaped d _ =>
    rw [splice_cons (by decide)] at heq
    cases (List.cons.inj heq).1
  | nul h => exact .inr ⟨_, rfl, h, (List.cons.inj heq).2.symm⟩
  | plain hd _ =>
    obtain ⟨-, hquote, hne⟩ := not_mem_plain_iff.1 hd
    rw [splice_cons hne] at heq
    exact absurd (List.cons.inj heq).1 hquote

theorem QuotedTail.skip_splice {l : List Char} (h : QuotedTail l) :
    ∃ l', QuotedTail l' ∧ skip (splice l) = splice l' ∧ l'.length ≤ l.length := by
  induction h with
  | close => exact ⟨['\''], .close, rfl, Nat.le_refl _⟩
  | escaped c h _ => exact ⟨_, .escaped c h, by rw [splice_cons (by decide)]; rfl, Nat.le_refl _⟩
  | nul h _ => exact ⟨_, .nul h, rfl, Nat.le_refl _⟩
  | @plain c l hc h ih =>
    have hne := (not_mem_plain_iff.1 hc).2.2
    rw [splice_cons hne]
    by_cases hspace : isSpace c = true
    · obtain ⟨l', h', heq, hlen⟩ := ih
      refine ⟨l', h', ?_, Nat.le_succ_of_le hlen⟩
      rw [skip, List.dropWhile_cons_of_pos hspace]
      exact heq
    · refine ⟨c :: l, .plain hc h, ?_, Nat.le_refl _⟩
      rw [skip, List.dropWhile_cons_of_neg hspace, splice_cons hne]

theorem QuotedTail.of_operand {l : List Char} {p : List Char × List Char} (h : QuotedTail l)
    (hop : operand none (splice l) = some p) :
    ∃ l', QuotedTail l' ∧ p.2 = splice l' ∧ l'.length < l.length := by
  unfold operand at hop
  split at hop
  · rename_i rest heq
    rcases h.of_splice_quote heq with rfl | ⟨l', rfl, h', rfl⟩
    · cases hop
    · have hread : unquote (".\"\\0\".'".toList ++ splice l') =
          some (".\"\\0\".".toList, splice l') := by
        simp [unquote, prepend]
      cases hop.symm.trans hread
      exact ⟨l', h', rfl, Nat.lt_succ_self _⟩
  · rename_i rest heq
    obtain ⟨rest', hword, rfl⟩ := Option.map_eq_some_iff.1 hop
    obtain ⟨l₁, rfl, h₁, rfl⟩ := h.of_splice_plain (by decide) (by decide) heq
    obtain ⟨l₂, rfl, h₂, hrest⟩ := h₁.of_splice_escaped (by decide) (afterWord_eq_some_iff.1 hword)
    obtain ⟨l₃, rfl, h₃, rfl⟩ := h₂.of_splice_plain (by decide) (by decide) hrest.symm
    exact ⟨l₃, h₃, rfl, by simp only [List.length_cons]; omega⟩
  · cases hop

/-- **What stands behind an operand and is the tail of a literal** makes no string expression: an
operand more leaves a tail again, and no tail is blank. -/
theorem denoted_eq_none_of_stray {rest : List Char} (hrest : QuotedTail rest) {l v : List Char}
    (hop : operand none (skip l) = some (v, splice rest)) : denoted l = none := by
  induction hn : rest.length using Nat.strongRecOn generalizing rest l v with
  | _ n ih =>
    subst hn
    rw [denoted_eq_none_iff]
    intro p hp
    cases hdot : afterWord ['.'] (skip (splice rest)) with
    | none =>
      rw [concatenation_of_end hop hdot] at hp
      cases hp
      rw [Bool.eq_false_iff]
      intro hall
      exact absurd (List.all_eq_true.1 hall _ hrest.quote_mem) (by decide)
    | some more =>
      rw [concatenation_of_dot hop hdot] at hp
      obtain ⟨q, hq, rfl⟩ := Option.map_eq_some_iff.1 hp
      -- A dot and an operand are read off the tail, and the tail that is left is shorter.
      obtain ⟨l₁, h₁, hskip, hlen₁⟩ := hrest.skip_splice
      have hmore := afterWord_eq_some_iff.1 hdot
      rw [hskip] at hmore
      obtain ⟨l₂, rfl, h₂, rfl⟩ := h₁.of_splice_plain (by decide) (by decide) hmore
      obtain ⟨l₃, h₃, hskip, hlen₃⟩ := h₂.skip_splice
      cases hop' : operand none (skip (splice l₂)) with
      | none =>
        rw [concatenation_of_operand_eq_none hop'] at hq
        cases hq
      | some r =>
        obtain ⟨l₄, h₄, hr, hlen₄⟩ := h₃.of_operand (hskip ▸ hop')
        have hlt : l₄.length < rest.length := by
          simp only [List.length_cons] at hlen₁
          omega
        have hnone := ih _ hlt h₄ (v := r.1) (by rw [hop', ← hr]) rfl
        exact denoted_eq_none_iff.1 hnone q hq

/-- **A cut behind a `\` breaks the literal.** -/
theorem denoted_quote_splice_eq_none {l : List Char} (h : QuotedTail l)
    (hnul : escapesNul l = true) : denoted ('\'' :: splice l) = none := by
  -- What is read in front of a text that denotes nothing does not help it.
  have hprepend {l l' v : List Char} (hl : denoted l = none)
      (heq : concatenation none l' = (concatenation none l).map (prepend v)) :
      denoted l' = none := by
    rw [denoted_eq_none_iff, heq]
    intro p hp
    obtain ⟨q, hq, rfl⟩ := Option.map_eq_some_iff.1 hp
    exact denoted_eq_none_iff.1 hl q hq
  induction h with
  | close => cases hnul
  | @escaped c l h ih =>
    rw [escapesNul, Bool.or_eq_true, beq_iff_eq] at hnul
    by_cases hc : c = '\x00'
    · -- The `\` takes the quote of the cut, and the second quote of the cut closes the text.
      subst hc
      refine denoted_eq_none_of_stray h (v := "'.\"\\0\".".toList) ?_
      change unquote ("\\'.\"\\0\".'".toList ++ splice l) = _
      simp [unquote, prepend]
    · rw [splice_cons (by decide), splice_cons hc]
      exact hprepend (ih (hnul.resolve_left hc)) (concatenation_of_unquote (unquote_escape c _))
  | nul _ ih =>
    rw [escapesNul_plain (by decide)] at hnul
    exact hprepend (ih hnul) (concatenation_cut _)
  | plain hc _ ih =>
    obtain ⟨hesc, hquote, hne⟩ := not_mem_plain_iff.1 hc
    rw [escapesNul_plain hesc] at hnul
    rw [splice_cons hne]
    exact hprepend (ih hnul) (concatenation_of_unquote (unquote_plain hesc hquote _))

/-- **What is put in the place of a literal in single quotes** denotes the same text, unless a `\`
that is not escaped stands in front of a `NUL`: then it is no string expression. It holds no `NUL`
in any case. -/
theorem denoted_requalified_literal (scope : Option ClassScope) (expr : String) {text : List Char}
    (h : .literal text ∈ pieces expr) (hquote : text.head? = some '\'') :
    ∃ value, denoted text = some value ∧
      denoted ((Piece.literal text).requalified scope) =
        (if escapesNul text then none else some value) ∧
      '\x00' ∉ (Piece.literal text).requalified scope := by
  obtain ⟨body, rfl⟩ := List.head?_eq_some_iff.1 hquote
  have htail := quotedTail_of_mem_scan h
  obtain ⟨value, hvalue⟩ := htail.concatenation_quote
  have hdenoted : denoted ('\'' :: body) = some value := by rw [denoted, hvalue]; rfl
  have hrequalified : (Piece.literal ('\'' :: body)).requalified scope = '\'' :: splice body := rfl
  refine ⟨value, hdenoted, ?_, ?_⟩
  · rw [hrequalified, escapesNul_plain (by decide)]
    split_ifs with hnul
    · exact denoted_quote_splice_eq_none htail hnul
    · rw [← hdenoted, denoted, denoted, concatenation_quote_splice htail (by simpa using hnul)]
  · rw [hrequalified, List.mem_cons, not_or]
    exact ⟨by decide, nul_not_mem_splice body⟩

namespace Sample

theorem pieces_literal {body : List Char} (h : literalEnd '\'' body = some (body, [])) :
    pieces (String.ofList ('\'' :: body)) = [.literal ('\'' :: body)] := by
  rw [pieces, String.toList_ofList, scan_literal rfl h, scan]

/-- The name of a protected property as it is a key of an array. -/
def mangled : List Char := ['\'', '\x00', '*', '\x00', 'a', '\'']

/-- A `\` before a `NUL`. -/
def slashed : List Char := ['\'', '\\', '\x00', '\'']

/-- The key stays the same text. -/
theorem denoted_mangled : ∃ value, denoted mangled = some value ∧
    denoted ((Piece.literal mangled).requalified none) = some value ∧
    '\x00' ∉ (Piece.literal mangled).requalified none := by
  have hpieces : pieces (String.ofList mangled) = [.literal mangled] := pieces_literal rfl
  exact denoted_requalified_literal none (String.ofList mangled)
    (by rw [hpieces]; exact List.mem_singleton_self _) rfl

/-- **The other literal is broken**, though it denotes a text. -/
theorem denoted_slashed : .literal slashed ∈ pieces (String.ofList slashed) ∧
    denoted slashed = some ['\\', '\x00'] ∧
    requalify none (String.ofList slashed) = "'\\'.\"\\0\".''" ∧
    denoted (requalify none (String.ofList slashed)).toList = none := by
  have hpieces : pieces (String.ofList slashed) = [.literal slashed] := pieces_literal rfl
  have htext : (pieces (String.ofList slashed)).flatMap (Piece.requalified none) =
      '\'' :: splice ['\\', '\x00', '\''] := by
    rw [hpieces]
    rfl
  refine ⟨by rw [hpieces]; exact List.mem_singleton_self _, ?_, ?_, ?_⟩
  · rw [denoted, slashed, concatenation_of_end (p := (['\\', '\x00'], [])) rfl rfl]
    rfl
  · rw [requalify, htext]
    decide
  · rw [requalify, htext, String.toList_ofList]
    exact denoted_quote_splice_eq_none (.escaped '\x00' .close) rfl

end Sample

end LazyClasses.DefaultExpr
