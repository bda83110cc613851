import LazyClasses.PropertyScope.Literal
import LazyClasses.Proofs.NaturalOrder
import LazyClasses.Proofs.StringExpr
import Mathlib.Data.List.Basic
import Mathlib.Data.List.DropRight
/-! # A scope map is read back from its literal

The literal that is written for a scope map is read here as an array literal: tokens first, where
a string expression is one token, then elements `key => [owner, name, writer]` with a comma behind
each. What is read are the entries of the map.

* `tokens`, `elements`, `entries?`: reading an array literal of scopes.
* `Expresses`: a text is a string expression for a value, whatever follows.
* `tokens_line`: the tokens of one element.
* `entries?_text`: the entries of the map come back, in natural order, equal ones in their order.

Texts are cut at `NUL` only in keys, and the empty pieces are left out; `joined_split` says that the
pieces and the cuts make up the key again. -/

namespace LazyClasses.ScopeLiteral

open StringExpr

/-! ### Reading -/

/-- What an array literal consists of. -/
inductive Token where
  /-- A string expression, with what it denotes. -/
  | text (value : List Char)
  | null
  | arrow
  | comma
  | opening
  | closing
deriving DecidableEq, Repr

/-- The tokens that are written in one way. -/
def symbols : List (List Char × Token) :=
  [("null".toList, .null), ("=>".toList, .arrow), ([','], .comma), (['['], .opening),
    ([']'], .closing)]

/-- The symbol in front of a text, and the rest. -/
def symbol (l : List Char) : Option (Token × List Char) :=
  symbols.findSome? fun s => (afterWord s.1 l).map (s.2, ·)

theorem symbols_begin : ∀ s ∈ symbols, ∃ c w, s.1 = c :: w ∧ isSpace c = false ∧
    c ∉ ['\'', '"', 'p'] := by
  simp only [symbols, List.forall_mem_cons]
  exact ⟨⟨_, _, rfl, rfl, by decide⟩, ⟨_, _, rfl, rfl, by decide⟩, ⟨_, _, rfl, rfl, by decide⟩,
    ⟨_, _, rfl, rfl, by decide⟩, ⟨_, _, rfl, rfl, by decide⟩, by simp⟩

/-- Symbols differ in their first characters, so each of them is found. -/
theorem symbol_append {word : List Char} {token : Token} (h : (word, token) ∈ symbols)
    (rest : List Char) : symbol (word ++ rest) = some (token, rest) := by
  simp only [symbols, List.mem_cons, List.not_mem_nil, or_false, Prod.mk.injEq] at h
  obtain ⟨rfl, rfl⟩ | ⟨rfl, rfl⟩ | ⟨rfl, rfl⟩ | ⟨rfl, rfl⟩ | ⟨rfl, rfl⟩ := h <;>
    simp [symbol, symbols, afterWord]

/-- The token in front of a text, and the rest. -/
def nextToken (parent : String) (l : List Char) : Option (Token × List Char) :=
  ((concatenation (some parent) l).map fun p => (.text p.1, p.2)).or (symbol l)

theorem length_symbol_lt {l : List Char} {p : Token × List Char} (h : symbol l = some p) :
    p.2.length < l.length := by
  obtain ⟨s, hs, h⟩ := List.exists_of_findSome?_eq_some h
  obtain ⟨rest, hrest, rfl⟩ := Option.map_eq_some_iff.1 h
  obtain ⟨c, w, hw, -⟩ := symbols_begin s hs
  exact length_afterWord_lt (by rw [hw]; exact List.cons_ne_nil c w) hrest

theorem length_nextToken_lt {parent : String} {l : List Char} {p : Token × List Char}
    (h : nextToken parent l = some p) : p.2.length < l.length := by
  rcases Option.or_eq_some_iff.1 h with h | ⟨-, h⟩
  · obtain ⟨q, hq, rfl⟩ := Option.map_eq_some_iff.1 h
    exact length_concatenation_lt hq
  · exact length_symbol_lt h

/-- The tokens of a text, if it consists of tokens and blanks. -/
def tokens (parent : String) (l : List Char) : Option (List Token) :=
  if skip l = [] then some []
  else
    match _h : nextToken parent (skip l) with
    | some p => (tokens parent p.2).map (p.1 :: ·)
    | none => none
termination_by l.length
decreasing_by
  have hp := length_nextToken_lt _h
  have hl := length_skip_le l
  omega

/-- The scope that three tokens give. -/
def scopeOf : Token → Token → Token → Option PropertyScope
  | .text owner, .text name, .null => some ⟨String.ofList owner, String.ofList name, none⟩
  | .text owner, .text name, .text writer =>
    some ⟨String.ofList owner, String.ofList name, some (String.ofList writer)⟩
  | _, _, _ => none

/-- The elements behind an opening bracket; behind the last one the comma may be missing. -/
def elements : List Token → Option (List (String × PropertyScope))
  | [.closing] => some []
  | .text key :: .arrow :: .opening :: owner :: .comma :: name :: .comma :: writer :: .closing ::
      rest =>
    (scopeOf owner name writer).bind fun scope =>
      match rest with
      | [.closing] => some [(String.ofList key, scope)]
      | .comma :: rest => (elements rest).map ((String.ofList key, scope) :: ·)
      | _ => none
  | _ => none

/-- **The entries of an array literal**, in the order in which they stand. -/
def entries? (parent text : String) : Option (List (String × PropertyScope)) :=
  match tokens parent text.toList with
  | some (.opening :: rest) => elements rest
  | _ => none

/-! ### Texts in quotes -/

theorem unquote_escape_append : ∀ l rest : List Char,
    unquote (escape l ++ '\'' :: rest) = some (l, rest)
  | [], rest => unquote_quote rest
  | c :: l, rest => by
    have ih := unquote_escape_append l rest
    rw [escape, List.flatMap_cons]
    change unquote (_ ++ escape l ++ _) = _
    by_cases hc : c = '\\' ∨ c = '\''
    · rw [if_pos hc]
      change unquote ('\\' :: c :: (escape l ++ _)) = _
      rw [unquote_escape, ih, if_pos hc]
      rfl
    · rw [if_neg hc]
      rw [not_or] at hc
      change unquote (c :: (escape l ++ _)) = _
      rw [unquote_plain hc.1 hc.2, ih]
      rfl

/-- The operand denotes the value, whatever follows. -/
def Denotes (parent : String) (part : String) (value : List Char) : Prop :=
  Starts part.toList ∧
    ∀ rest, operand (some parent) (part.toList ++ rest) = some (value, rest)

theorem denotes_quoted (parent text : String) :
    Denotes parent (quoted parent text) text.toList := by
  unfold quoted
  split_ifs with h
  · subst h
    exact ⟨⟨'p', _, rfl, rfl⟩, fun rest => by simp [operand, afterWord]⟩
  · unfold Denotes
    simp only [String.toList_append, String.toList_ofList]
    refine ⟨⟨'\'', _, rfl, rfl⟩, fun rest => ?_⟩
    change unquote (escape text.toList ++ ['\''] ++ rest) = _
    rw [List.append_assoc]
    exact unquote_escape_append text.toList rest

theorem denotes_nul (parent : String) : Denotes parent "\"\\0\"" ['\x00'] :=
  ⟨⟨'"', _, rfl, rfl⟩, fun rest => by simp [operand, afterWord]⟩

/-! ### Keys -/

/-- The operands denote, one after the other, the pieces of the value. -/
inductive Concat (parent : String) : List String → List Char → Prop
  | nil : Concat parent [] []
  | cons {part parts value values} : Denotes parent part value → Concat parent parts values →
      Concat parent (part :: parts) (value ++ values)

theorem Concat.append {parent : String} {parts parts' : List String} {value value' : List Char}
    (h : Concat parent parts value) (h' : Concat parent parts' value') :
    Concat parent (parts ++ parts') (value ++ value') := by
  induction h with
  | nil => exact h'
  | cons hpart _ ih =>
    rw [List.append_assoc]
    exact .cons hpart ih

theorem concat_operands (parent : String) (segment : List Char) :
    Concat parent (operands parent segment) segment := by
  cases segment with
  | nil => exact .nil
  | cons c segment =>
    have h := denotes_quoted parent (String.ofList (c :: segment))
    rw [String.toList_ofList] at h
    have := Concat.cons h .nil
    rwa [List.append_nil] at this

/-- The pieces with a `NUL` between them. -/
def joined : List (List Char) → List Char
  | [] => []
  | first :: segments => first ++ segments.flatMap fun s => '\x00' :: s

theorem concat_keyOperands (parent : String) : ∀ segments : List (List Char),
    Concat parent (keyOperands parent segments) (joined segments)
  | [] => .nil
  | first :: segments => by
    refine (concat_operands parent first).append ?_
    induction segments with
    | nil => exact .nil
    | cons s segments ih =>
      exact (Concat.cons (denotes_nul parent) (concat_operands parent s)).append ih

/-- **Nothing is lost at the cuts.** -/
theorem joined_split : ∀ l : List Char, joined (Text.split (· == '\x00') l) = l
  | [] => rfl
  | c :: l => by
    have ih := joined_split l
    cases hs : Text.split (· == '\x00') l with
    | nil => exact absurd hs (Text.split_ne_nil _ l)
    | cons first segments =>
      rw [hs] at ih
      rw [Text.split]
      split_ifs with hc
      · rw [beq_iff_eq] at hc
        rw [hs, hc, ← ih]
        rfl
      · rw [hs, ← ih]
        rfl

/-- The text denotes the value as a string expression, if no dot follows. -/
def Expresses (parent : String) (expr : String) (value : List Char) : Prop :=
  Starts expr.toList ∧ ∀ rest, afterWord ['.'] (skip rest) = none →
    concatenation (some parent) (expr.toList ++ rest) = some (value, rest)

theorem Denotes.expresses {parent part : String} {value : List Char}
    (h : Denotes parent part value) : Expresses parent part value := by
  refine ⟨h.1, fun rest hrest => ?_⟩
  refine concatenation_of_end ?_ hrest
  rw [skip_append h.1]
  exact h.2 rest

/-- Operands joined by dots denote their values joined together. -/
theorem Concat.expresses {parent part : String} {parts : List String} {value : List Char}
    (h : Concat parent (part :: parts) value) :
    Expresses parent (".".intercalate (part :: parts)) value := by
  induction parts generalizing part value with
  | nil =>
    cases h with
    | cons hpart hnil =>
      cases hnil
      rw [List.append_nil, String.intercalate_singleton]
      exact hpart.expresses
  | cons next parts ih =>
    cases h with
    | @cons _ _ value values hpart htail =>
      rw [String.intercalate_cons_cons]
      simp only [Expresses, String.toList_append, List.append_assoc]
      refine ⟨hpart.1.append _, fun rest hrest => ?_⟩
      have hop := hpart.2 ('.' :: ((".".intercalate (next :: parts)).toList ++ rest))
      rw [← skip_append hpart.1] at hop
      have hmore := concatenation_of_dot (m := (".".intercalate (next :: parts)).toList ++ rest)
        hop rfl
      rw [(ih htail).2 rest hrest] at hmore
      exact hmore

theorem expresses_keyLiteral (parent key : String) :
    Expresses parent (keyLiteral parent key) key.toList := by
  have h := concat_keyOperands parent (Text.split (· == '\x00') key.toList)
  rw [joined_split] at h
  unfold keyLiteral
  split
  · rename_i hparts
    rw [hparts] at h
    generalize key.toList = value at h
    cases h
    exact Denotes.expresses ⟨⟨'\'', _, rfl, rfl⟩, fun _ => rfl⟩
  · rename_i parts hne
    cases hparts : keyOperands parent (Text.split (· == '\x00') key.toList) with
    | nil => exact absurd hparts hne
    | cons part parts =>
      rw [hparts] at h
      exact h.expresses

/-! ### Elements -/

section Tokens

variable {parent : String}

theorem tokens_of_nextToken {l : List Char} {p : Token × List Char} (hl : Starts l)
    (h : nextToken parent l = some p) : tokens parent l = (tokens parent p.2).map (p.1 :: ·) := by
  have hskip : skip l = l := by
    have := skip_append hl []
    rwa [List.append_nil] at this
  rw [tokens, hskip]
  obtain ⟨c, rest, rfl, -⟩ := hl
  rw [if_neg (List.cons_ne_nil c rest)]
  split
  · rename_i q hq
    rw [Option.some.inj (h.symm.trans hq)]
  · rename_i hnone
    rw [h] at hnone
    cases hnone

theorem tokens_skip (l : List Char) : tokens parent (skip l) = tokens parent l := by
  have hskip : skip (skip l) = skip l := List.dropWhile_idempotent isSpace l
  rw [tokens, tokens, hskip]

theorem tokens_blank {c : Char} (hc : isSpace c = true) (l : List Char) :
    tokens parent (c :: l) = tokens parent l := by
  rw [← tokens_skip (c :: l), skip, List.dropWhile_cons_of_pos hc]
  exact tokens_skip l

theorem tokens_expr {expr : String} {value rest : List Char} (h : Expresses parent expr value)
    (hrest : afterWord ['.'] (skip rest) = none) :
    tokens parent (expr.toList ++ rest) = (tokens parent rest).map (.text value :: ·) := by
  refine tokens_of_nextToken (p := (.text value, rest)) (h.1.append rest) ?_
  rw [nextToken, h.2 rest hrest]
  rfl

theorem tokens_symbol (word : List Char) (token : Token) (rest : List Char)
    (h : (word, token) ∈ symbols) :
    tokens parent (word ++ rest) = (tokens parent rest).map (token :: ·) := by
  obtain ⟨c, w, rfl, hspace, hquotes⟩ := symbols_begin _ h
  have hstarts : Starts (c :: w) := ⟨c, w, rfl, hspace⟩
  refine tokens_of_nextToken (p := (token, rest)) (hstarts.append rest) ?_
  have hop : operand (some parent) (skip (c :: w ++ rest)) = none := by
    rw [skip_append hstarts]
    exact operand_eq_none hquotes (w ++ rest)
  rw [nextToken, concatenation_of_operand_eq_none hop]
  exact symbol_append h rest

end Tokens

/-- The token of a class that may be missing. -/
def writerToken (writer : Option String) : Token :=
  (writer.map fun w => Token.text w.toList).getD .null

/-- The tokens of a scope. -/
def scopeTokens (scope : PropertyScope) : List Token :=
  [.opening, .text scope.owner.toList, .comma, .text scope.name.toList, .comma,
    writerToken scope.writer, .closing]

/-- The tokens of an element with the comma behind it. -/
def lineTokens (entry : String × PropertyScope) : List Token :=
  .text entry.1.toList :: .arrow :: (scopeTokens entry.2 ++ [.comma])

theorem tokens_writer (parent : String) (writer : Option String) (rest : List Char) :
    tokens parent (((writer.map (quoted parent)).getD "null").toList ++ ']' :: rest) =
      (tokens parent (']' :: rest)).map (writerToken writer :: ·) := by
  cases writer with
  | none => exact tokens_symbol "null".toList .null _ (by decide)
  | some w => exact tokens_expr (denotes_quoted parent w).expresses rfl

theorem tokens_scopeLiteral (parent : String) (scope : PropertyScope) (rest : List Char) :
    tokens parent ((scopeLiteral parent scope).toList ++ rest) =
      (tokens parent rest).map (scopeTokens scope ++ ·) := by
  have hcomma (l : List Char) : tokens parent (", ".toList ++ l) =
      (tokens parent l).map (Token.comma :: ·) := by
    change tokens parent ([','] ++ ' ' :: l) = _
    rw [tokens_symbol [','] .comma _ (by decide), tokens_blank rfl]
  simp only [scopeLiteral, String.toList_append, List.append_assoc]
  rw [show "[".toList = ['['] from rfl, show "]".toList = [']'] from rfl,
    tokens_symbol ['['] .opening _ (by decide),
    tokens_expr (denotes_quoted parent scope.owner).expresses rfl, hcomma,
    tokens_expr (denotes_quoted parent scope.name).expresses rfl, hcomma, List.singleton_append,
    tokens_writer, ← List.singleton_append, tokens_symbol [']'] .closing _ (by decide)]
  simp only [Option.map_map]
  rfl

/-- **The tokens of one element.** -/
theorem tokens_line (parent : String) (entry : String × PropertyScope) (rest : List Char) :
    tokens parent ((line parent entry).toList ++ rest) =
      (tokens parent rest).map (lineTokens entry ++ ·) := by
  have hindent (l : List Char) : tokens parent ("        ".toList ++ l) = tokens parent l := by
    change tokens parent (' ' :: ' ' :: ' ' :: ' ' :: ' ' :: ' ' :: ' ' :: ' ' :: l) = _
    simp only [tokens_blank (c := ' ') rfl]
  have harrow (l : List Char) : tokens parent (" => ".toList ++ l) =
      (tokens parent l).map (Token.arrow :: ·) := by
    change tokens parent (' ' :: ("=>".toList ++ ' ' :: l)) = _
    rw [tokens_blank rfl, tokens_symbol "=>".toList .arrow _ (by decide), tokens_blank rfl]
  simp only [line, String.toList_append, List.append_assoc]
  rw [hindent, tokens_expr (expresses_keyLiteral parent entry.1) rfl, harrow, tokens_scopeLiteral,
    show ",".toList = [','] from rfl, tokens_symbol [','] .comma _ (by decide)]
  simp only [Option.map_map]
  rfl

theorem elements_line (entry : String × PropertyScope) (rest : List Token) :
    elements (lineTokens entry ++ rest) = (elements rest).map (entry :: ·) := by
  obtain ⟨key, owner, name, writer⟩ := entry
  cases writer <;> simp [lineTokens, scopeTokens, writerToken, elements, scopeOf]

/-! ### The whole literal -/

theorem tokens_closing (parent : String) : tokens parent [']'] = some [.closing] := by
  have hnil : tokens parent [] = some [] := by simp [tokens, skip]
  rw [← List.append_nil [']'], tokens_symbol [']'] .closing [] (by decide), hnil]
  rfl

theorem tokens_lines (parent : String) : ∀ entries : List (String × PropertyScope),
    tokens parent ((String.join ((entries.map (line parent)).map (· ++ "\n"))).toList ++
      "    ]".toList) = some (entries.flatMap lineTokens ++ [.closing])
  | [] => by
    change tokens parent (' ' :: ' ' :: ' ' :: ' ' :: [']']) = _
    simp only [tokens_blank (c := ' ') rfl]
    exact tokens_closing parent
  | entry :: entries => by
    simp only [List.map_cons, String.join_cons, String.toList_append, List.append_assoc]
    rw [tokens_line, show "\n".toList = ['\n'] from rfl, List.singleton_append, tokens_blank rfl,
      tokens_lines parent entries, List.flatMap_cons, List.append_assoc]
    rfl

theorem elements_lines : ∀ entries : List (String × PropertyScope),
    elements (entries.flatMap lineTokens ++ [.closing]) = some entries
  | [] => rfl
  | entry :: entries => by
    rw [List.flatMap_cons, List.append_assoc, elements_line, elements_lines entries]
    rfl

/-- A literal for entries in any order is read back. -/
theorem entries?_lines (parent : String) (entries : List (String × PropertyScope)) :
    entries? parent
      ("[\n" ++ String.join ((entries.map (line parent)).map (· ++ "\n")) ++ "    ]") =
      some entries := by
  unfold entries?
  simp only [String.toList_append, List.append_assoc]
  rw [show "[\n".toList = ['['] ++ ['\n'] from rfl, List.append_assoc,
    tokens_symbol ['['] .opening _ (by decide), List.singleton_append, tokens_blank rfl,
    tokens_lines]
  exact elements_lines entries

/-! ### The order of the elements -/

/-- One list is the other in natural order of the keys, and equal keys stay in their order. -/
structure StablySorted (entries sorted : List (String × PropertyScope)) : Prop where
  perm : sorted.Perm entries
  pairwise : sorted.Pairwise fun a b => NaturalOrder.le a.1 b.1 = true
  stable : ∀ key, (sorted.filter fun e => NaturalOrder.cmp e.1 key == .eq) =
    entries.filter fun e => NaturalOrder.cmp e.1 key == .eq

theorem stablySorted_sorted (m : ScopeMap) : StablySorted m.entries (sorted m) := by
  have htrans (a b c : String × PropertyScope) (hab : NaturalOrder.le a.1 b.1 = true)
      (hbc : NaturalOrder.le b.1 c.1 = true) : NaturalOrder.le a.1 c.1 = true :=
    NaturalOrder.le_trans hab hbc
  have htotal (a b : String × PropertyScope) :
      (NaturalOrder.le a.1 b.1 || NaturalOrder.le b.1 a.1) = true := NaturalOrder.le_total a.1 b.1
  have hperm : (sorted m).Perm m.entries := List.mergeSort_perm _ _
  refine ⟨hperm, List.pairwise_mergeSort htrans htotal _, fun key => ?_⟩
  -- The entries of one key are in order as they stand, so sorting leaves them in that order.
  have hpairwise : (m.entries.filter fun e => NaturalOrder.cmp e.1 key == .eq).Pairwise
      fun a b => NaturalOrder.le a.1 b.1 = true := by
    have htrivial := List.pairwise_of_forall (R := fun _ _ : String × PropertyScope => True)
      (l := m.entries.filter fun e => NaturalOrder.cmp e.1 key == .eq) fun _ _ => trivial
    refine htrivial.imp_of_mem ?_
    intro a b ha hb _
    rw [List.mem_filter, beq_iff_eq] at ha hb
    exact NaturalOrder.le_of_cmp_eq ha.2 hb.2
  have hsub := (List.sublist_mergeSort htrans htotal hpairwise List.filter_sublist).filter
    fun e => NaturalOrder.cmp e.1 key == .eq
  simp only [List.filter_filter, Bool.and_self] at hsub
  exact (hsub.eq_of_length (hperm.filter _).length_eq.symm).symm

/-- **What is written for a scope map denotes its entries**, in natural order of their names and
equal names in their order; each of them stands there once. -/
theorem entries?_text (parent : String) (m : ScopeMap) :
    ∃ entries, entries? parent (text parent m) = some entries ∧ StablySorted m.entries entries := by
  refine ⟨sorted m, ?_, stablySorted_sorted m⟩
  unfold text
  split_ifs with h
  · have hempty : m.entries = [] := List.isEmpty_iff.1 h
    rw [sorted, hempty, List.mergeSort_nil, entries?]
    change (match tokens parent (['['] ++ [']']) with | some (.opening :: rest) => _ | _ => _) = _
    rw [tokens_symbol ['['] .opening _ (by decide), tokens_closing]
    rfl
  · exact entries?_lines parent (sorted m)

end LazyClasses.ScopeLiteral
