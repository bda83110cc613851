import LazyClasses.Proofs.RelativeNames
/-! # Requalifying twice

An expression that was requalified does not change when it is requalified again, and it has the
string literals that it had before. This holds for malformed expressions too: a quote that nothing
closes is still not closed.

* `Run`: segments with a `\` between them. Names, and what takes their place, are such runs.
* `Reads`: how a text falls into pieces, as a relation.
* `track`: the way through a literal, one character at a time. A run is passed without a trace
  (`Run.foldl_track`), so a name may be replaced wherever the next character is not escaped.
* `literals`: the string literals of a text, found without regard to names.
* `Renamed`: a text with other names. Where a name ends, whether it is a label and which quotes are
  closed stays the same.
* `Reads.again`: what is read once more when a text was rewritten.
* `requalify_requalify`: the result for whole expressions. -/

namespace LazyClasses.DefaultExpr

/-! ### Runs of segments -/

/-- Characters of segments, each perhaps with a `\` in front of it. -/
inductive Run (p : Char → Bool) : List Char → Prop
  | nil : Run p []
  | char {c : Char} {w : List Char} : p c = true → Run p w → Run p (c :: w)
  | slash {c : Char} {w : List Char} : p c = true → Run p w → Run p ('\\' :: c :: w)

section Run

variable {p q : Char → Bool} {c : Char} {w w' l : List Char}

theorem Run.mono (hpq : ∀ c, p c = true → q c = true) (h : Run p w) : Run q w := by
  induction h with
  | nil => exact .nil
  | char hc _ ih => exact .char (hpq _ hc) ih
  | slash hc _ ih => exact .slash (hpq _ hc) ih

theorem Run.append (h : Run p w) (h' : Run p w') : Run p (w ++ w') := by
  induction h with
  | nil => exact h'
  | char hc _ ih => exact .char hc ih
  | slash hc _ ih => exact .slash hc ih

theorem Run.tail (h : Run p (c :: w)) : Run p w := by
  cases h with
  | char _ hw => exact hw
  | slash hc hw => exact .char hc hw

theorem run_of_forall (h : ∀ c ∈ w, p c = true) : Run p w := by
  induction w with
  | nil => exact .nil
  | cons c w ih =>
    exact .char (h c List.mem_cons_self) (ih fun d hd => h d (List.mem_cons_of_mem c hd))

theorem run_segments (p : Char → Bool) (l : List Char) : Run p (segments p l).1 := by
  induction l with
  | nil => exact .nil
  | cons c rest ih =>
    rw [segments]
    split_ifs with h
    · rw [Bool.or_eq_true, Bool.and_eq_true, beq_iff_eq] at h
      rcases h with hc | ⟨rfl, hhead⟩
      · exact .char hc ih
      · cases rest with
        | nil => cases hhead
        | cons d rest =>
          rw [segments_cons hhead] at ih ⊢
          exact .slash hhead ih.tail
    · exact .nil

/-- Behind the longest run in front no run goes on. -/
theorem segments_segments (p : Char → Bool) (l : List Char) :
    (segments p (segments p l).2).1 = [] := by
  induction l with
  | nil => rfl
  | cons c rest ih =>
    rw [segments]
    split_ifs with h
    · exact ih
    · rw [segments, if_neg h]

theorem Run.segments_append (h : Run p w) (hl : (segments p l).1 = []) :
    segments p (w ++ l) = (w, l) := by
  induction h with
  | nil =>
    have happend := DefaultExpr.segments_append p l
    rw [hl, List.nil_append] at happend
    exact Prod.ext hl happend
  | char hc _ ih => rw [List.cons_append, segments_cons hc, ih]
  | slash hc _ ih =>
    rw [List.cons_append, List.cons_append, segments, if_pos (by simp [hc]), segments_cons hc, ih]

end Run

/-! ### Class names -/

/-- A character of a name, as expressions or as types have it. -/
def isWordChar (c : Char) : Bool := isNameChar c || isSegmentChar c

/-- Segments that are not empty, with a `\` between them. -/
def Segmented (name : String) : Prop :=
  ∃ segs : List (List Char), segs ≠ [] ∧ (∀ s ∈ segs, s ≠ [] ∧ ∀ c ∈ s, isWordChar c = true) ∧
    name.toList = ['\\'].intercalate segs

theorem inName_of_isWordChar {c : Char} (h : isWordChar c = true) : InName c ∧ c ≠ '\\' := by
  constructor
  · rw [isWordChar, Bool.or_eq_true] at h
    rcases h with h | h
    · exact (isSegmentChar_of_isNameChar h).imp_right .inr
    · exact .inl h
  · rintro rfl
    revert h
    decide

theorem isWordChar_of_isNameChar {c : Char} (h : isNameChar c = true) : isWordChar c = true := by
  rw [isWordChar, h, Bool.true_or]

theorem Run.inName {w : List Char} (h : Run isWordChar w) : ∀ c ∈ w, InName c := by
  induction h with
  | nil => exact List.forall_mem_nil _
  | char hc _ ih => exact List.forall_mem_cons.2 ⟨(inName_of_isWordChar hc).1, ih⟩
  | slash hc _ ih =>
    exact List.forall_mem_cons.2 ⟨.inr (.inl rfl),
      List.forall_mem_cons.2 ⟨(inName_of_isWordChar hc).1, ih⟩⟩

theorem run_intercalate : ∀ {segs : List (List Char)}, segs ≠ [] →
    (∀ s ∈ segs, s ≠ [] ∧ ∀ c ∈ s, isWordChar c = true) →
      Run isWordChar ('\\' :: ['\\'].intercalate segs)
  | [], hne, _ => absurd rfl hne
  | s :: segs, _, h => by
    obtain ⟨⟨hs, hchars⟩, hrest⟩ := List.forall_mem_cons.1 h
    obtain ⟨c, w, rfl⟩ := List.exists_cons_of_ne_nil hs
    obtain ⟨hc, hw⟩ := List.forall_mem_cons.1 hchars
    have hfirst : Run isWordChar ('\\' :: c :: w) := .slash hc (run_of_forall hw)
    cases segs with
    | nil => rwa [List.intercalate_singleton]
    | cons t segs =>
      rw [List.intercalate_cons_cons, List.append_assoc]
      exact hfirst.append (run_intercalate (List.cons_ne_nil t segs) hrest)

/-- A class name with `\` in front is a run. -/
theorem Segmented.run {name : String} (h : Segmented name) :
    Run isWordChar ('\\' :: name.toList) := by
  obtain ⟨segs, hne, hsegs, hname⟩ := h
  rw [hname]
  exact run_intercalate hne hsegs

/-! ### Reading -/

/-- No run of name characters goes on in front. -/
def Ends (l : List Char) : Prop := (segments isNameChar l).1 = []

theorem ends_cons_iff {c : Char} {rest : List Char} : Ends (c :: rest) ↔
    isNameChar c = false ∧ (c = '\\' → rest.head?.any isNameChar = false) := by
  rw [Ends, segments]
  split_ifs with h <;> grind

/-- A name as it stands in an expression. -/
structure IsToken (token : List Char) : Prop where
  run : Run isNameChar token
  start : ∃ c w, token = c :: w ∧ isNameStart c = true

theorem IsToken.run_word {token : List Char} (h : IsToken token) : Run isWordChar token :=
  h.run.mono fun _ => isWordChar_of_isNameChar

theorem IsToken.inName {token : List Char} (h : IsToken token) : ∀ c ∈ token, InName c :=
  h.run_word.inName

/-- Reading the text from left to right gives the pieces; `free` says that a name may stand in
front. -/
inductive Reads : Bool → List Char → List Piece → Prop
  | nil {free : Bool} : Reads free [] []
  | literal {free : Bool} {c : Char} {body after : List Char} {ps : List Piece} :
      isQuote c = true → literalEnd c (body ++ after) = some (body, after) → Reads true after ps →
        Reads free (c :: (body ++ after)) (.literal (c :: body) :: ps)
  | name {token after : List Char} {ps : List Piece} : IsToken token → Ends after →
      followsLabel after = false → Reads false after ps →
        Reads true (token ++ after) (.name token :: ps)
  | label {token after : List Char} {ps : List Piece} : IsToken token → Ends after →
      followsLabel after = true → Reads false after ps →
        Reads true (token ++ after) (.label token :: ps)
  | code {free : Bool} {c : Char} {rest : List Char} {ps : List Piece} :
      (isQuote c = true → literalEnd c rest = none) → (free = true → isNameStart c = false) →
        Reads (opensName c) rest ps → Reads free (c :: rest) (.code c :: ps)

theorem nameToken_eq_some_iff {l : List Char} {p : List Char × List Char} :
    nameToken l = some p ↔ IsToken p.1 ∧ Ends p.2 ∧ l = p.1 ++ p.2 := by
  constructor
  · intro h
    cases l with
    | nil => cases h
    | cons c rest =>
      by_cases hc : isNameStart c = true
      · rw [nameToken_cons hc, Option.some_inj] at h
        rw [← h]
        refine ⟨⟨run_segments _ _, c, (segments isNameChar rest).1, ?_, hc⟩,
          segments_segments _ _, (segments_append _ _).symm⟩
        rw [segments_cons (isNameChar_of_isNameStart hc)]
      · rw [nameToken, if_neg hc] at h
        cases h
  · rintro ⟨⟨hrun, c, w, hcons, hc⟩, hends, rfl⟩
    have hsegments := hrun.segments_append hends
    rw [hcons, List.cons_append] at hsegments ⊢
    rw [nameToken_cons hc, hsegments, ← hcons]

/-- The pieces make up the text. -/
theorem Reads.source_eq {free : Bool} {l : List Char} {ps : List Piece} (h : Reads free l ps) :
    ps.flatMap Piece.source = l := by
  induction h with
  | nil => rfl
  | literal _ _ _ ih => rw [List.flatMap_cons, ih]; rfl
  | name _ _ _ _ ih => rw [List.flatMap_cons, ih]; rfl
  | label _ _ _ _ ih => rw [List.flatMap_cons, ih]; rfl
  | code _ _ _ ih => rw [List.flatMap_cons, ih]; rfl

theorem scan_token {token after : List Char} (htoken : IsToken token) (hends : Ends after) :
    scan true (token ++ after) =
      (if followsLabel after then .label token else .name token) :: scan false after := by
  have hname : nameToken (token ++ after) = some (token, after) :=
    nameToken_eq_some_iff.2 ⟨htoken, hends, rfl⟩
  obtain ⟨c, w, rfl, -⟩ := htoken.start
  rw [List.cons_append] at hname ⊢
  refine scan_name ?_ hname
  rw [(htoken.inName c List.mem_cons_self).not_isQuote]
  rfl

theorem Reads.scan_eq {free : Bool} {l : List Char} {ps : List Piece} (h : Reads free l ps) :
    scan free l = ps := by
  induction h with
  | nil => rw [scan]
  | literal hc hend _ ih => rw [scan_literal hc hend, ih]
  | name htoken hends hlabel _ ih =>
    rw [scan_token htoken hends, hlabel, ih]
    rfl
  | label htoken hends hlabel _ ih =>
    rw [scan_token htoken hends, hlabel, ih]
    rfl
  | @code free c rest _ hliteral hname _ ih =>
    have hclosed : (if isQuote c then literalEnd c rest else none) = none := by
      split_ifs with hc
      · exact hliteral hc
      · rfl
    have hnone : (if free then nameToken (c :: rest) else none) = none := by
      split_ifs with hfree
      · rw [nameToken, if_neg (by rw [hname hfree]; exact Bool.false_ne_true)]
      · rfl
    rw [scan_code hclosed hnone, ih]

theorem exists_reads : ∀ (free : Bool) (l : List Char), ∃ ps, Reads free l ps
  | _, [] => ⟨[], .nil⟩
  | free, c :: rest => by
    by_cases hliteral : isQuote c = true ∧ ∃ p, literalEnd c rest = some p
    · obtain ⟨hc, ⟨body, after⟩, hend⟩ := hliteral
      have happend : body ++ after = rest := literalEnd_append hend
      have hlength : after.length ≤ rest.length := by
        rw [← happend, List.length_append]
        exact Nat.le_add_left _ _
      obtain ⟨ps, h⟩ := exists_reads true after
      rw [← happend] at hend ⊢
      exact ⟨_, .literal hc hend h⟩
    · by_cases hname : free = true ∧ isNameStart c = true
      · obtain ⟨rfl, hstart⟩ := hname
        obtain ⟨token, after, hrun⟩ : ∃ token after, nameToken (c :: rest) = some (token, after) :=
          ⟨_, _, nameToken_cons hstart rest⟩
        obtain ⟨htoken, hends, happend⟩ := nameToken_eq_some_iff.1 hrun
        have hlength : after.length < (c :: rest).length := by
          have hpos : 0 < token.length := length_pos_of_nameToken hrun
          rw [happend, List.length_append]
          exact Nat.lt_add_of_pos_left hpos
        obtain ⟨ps, h⟩ := exists_reads false after
        rw [happend]
        cases hlabel : followsLabel after with
        | false => exact ⟨_, .name htoken hends hlabel h⟩
        | true => exact ⟨_, .label htoken hends hlabel h⟩
      · obtain ⟨ps, h⟩ := exists_reads (opensName c) rest
        refine ⟨_, .code (fun hc => ?_) (fun hfree => ?_) h⟩
        · rw [Option.eq_none_iff_forall_ne_some]
          exact fun p hp => hliteral ⟨hc, p, hp⟩
        · rw [← Bool.not_eq_true]
          exact fun hstart => hname ⟨hfree, hstart⟩
termination_by _ l => l.length
decreasing_by
  · exact Nat.lt_succ_of_le hlength
  · exact hlength
  · exact Nat.lt_succ_self _

/-- **Each text is read in one way**, which is that of `scan`. -/
theorem reads_scan (free : Bool) (l : List Char) : Reads free l (scan free l) := by
  obtain ⟨ps, h⟩ := exists_reads free l
  rwa [h.scan_eq]

/-! ### The way through a literal -/

/-- What a character does on the way through a literal: nothing where it is closed already; else the
state says whether the character is escaped. -/
def track (quote : Char) : Option Bool → Char → Option Bool
  | none, _ => none
  | some true, _ => some false
  | some false, c => if c = '\\' then some true else if c = quote then none else some false

section Track

variable {quote c : Char} {s : Option Bool} {l w : List Char}

theorem foldl_track_none (quote : Char) (l : List Char) : l.foldl (track quote) none = none := by
  induction l with
  | nil => rfl
  | cons c l ih => exact ih

/-- No character but `\` escapes the next one. -/
theorem track_ne_some_true (hc : c ≠ '\\') : track quote s c ≠ some true := by
  match s with
  | none => simp [track]
  | some true => simp [track]
  | some false =>
    rw [track, if_neg hc]
    split_ifs <;> simp

/-- A character that no line of `literalEnd` takes for an escape is none. -/
theorem ne_of_unescaped (hend : c = '\\' → l = [] → False)
    (hesc : ∀ d rest, c = '\\' → l = d :: rest → False) : c ≠ '\\' := by
  intro hc
  cases l with
  | nil => exact hend hc rfl
  | cons d rest => exact hesc d rest hc rfl

theorem literalEnd_cons (hc : c ≠ '\\') (quote : Char) (l : List Char) : literalEnd quote (c :: l) =
    if c = quote then some ([c], l) else (literalEnd quote l).map fun p => (c :: p.1, p.2) := by
  rw [literalEnd]
  · rintro rfl
    contradiction
  · rintro _ _ rfl
    contradiction

/-- A quote is not closed iff the way goes on to the end. -/
theorem literalEnd_eq_none_iff (hquote : quote ≠ '\\') :
    literalEnd quote l = none ↔ l.foldl (track quote) (some false) ≠ none := by
  fun_induction literalEnd quote l with
  | case1 => simp
  | case2 => simp [track]
  | case3 c rest ih => rw [Option.map_eq_none_iff, ih, List.foldl_cons, List.foldl_cons]; rfl
  | case4 rest hend hesc =>
    have hstep : track quote (some false) quote = none := by
      rw [track, if_neg hquote, if_pos rfl]
    rw [List.foldl_cons, hstep, foldl_track_none]
    simp
  | case5 c rest hend hesc hc ih =>
    have hstep : track quote (some false) c = some false := by
      rw [track, if_neg (ne_of_unescaped hend hesc), if_neg hc]
    rw [Option.map_eq_none_iff, ih, List.foldl_cons, hstep]

/-- A literal has its quote at the end, and is one whatever follows. -/
theorem closed_of_literalEnd {body after : List Char}
    (h : literalEnd quote l = some (body, after)) :
    (∃ front, body = front ++ [quote]) ∧ ∀ m, literalEnd quote (body ++ m) = some (body, m) := by
  fun_induction literalEnd quote l generalizing body with
  | case1 => cases h
  | case2 => cases h
  | case3 c rest ih =>
    obtain ⟨⟨b, a⟩, hp, heq⟩ := Option.map_eq_some_iff.1 h
    obtain ⟨rfl, rfl⟩ := Prod.mk.inj heq
    obtain ⟨⟨front, rfl⟩, hclosed⟩ := ih hp
    refine ⟨⟨'\\' :: c :: front, rfl⟩, fun m => ?_⟩
    rw [List.cons_append, List.cons_append, literalEnd, hclosed]
    rfl
  | case4 rest hend hesc =>
    obtain ⟨rfl, -⟩ := Prod.mk.inj (Option.some.inj h)
    refine ⟨⟨[], rfl⟩, fun m => ?_⟩
    rw [List.singleton_append, literalEnd_cons (ne_of_unescaped hend hesc), if_pos rfl]
  | case5 c rest hend hesc hc ih =>
    obtain ⟨⟨b, a⟩, hp, heq⟩ := Option.map_eq_some_iff.1 h
    obtain ⟨rfl, rfl⟩ := Prod.mk.inj heq
    obtain ⟨⟨front, rfl⟩, hclosed⟩ := ih hp
    refine ⟨⟨c :: front, rfl⟩, fun m => ?_⟩
    rw [List.cons_append, literalEnd_cons (ne_of_unescaped hend hesc), if_neg hc, hclosed]
    rfl

/-- **A run is passed without a trace**, unless its first character is escaped. -/
theorem Run.foldl_track (hquote : isQuote quote = true) (h : Run isWordChar w)
    (hs : s ≠ some true) : w.foldl (track quote) s = s := by
  have hplain {c : Char} (hc : isWordChar c = true) : track quote (some false) c = some false := by
    obtain ⟨hname, hne⟩ := inName_of_isWordChar hc
    rw [track, if_neg hne, if_neg]
    rintro rfl
    rw [hname.not_isQuote] at hquote
    cases hquote
  match s, hs with
  | none, _ => exact foldl_track_none quote w
  | some false, _ =>
    induction h with
    | nil => rfl
    | char hc _ ih => rw [List.foldl_cons, hplain hc, ih]
    | slash _ _ ih => exact ih

/-- Behind a literal nothing is escaped. -/
theorem foldl_track_literal {body after : List Char} (hc : isQuote c = true)
    (h : literalEnd c l = some (body, after)) : body.foldl (track quote) s ≠ some true := by
  obtain ⟨⟨front, rfl⟩, -⟩ := closed_of_literalEnd h
  rw [List.foldl_append]
  refine track_ne_some_true ?_
  rintro rfl
  revert hc
  decide

end Track

/-! ### Literals -/

/-- **The string literals of a text** from left to right: at a quote that is closed stands one, and
the search goes on behind it. -/
def literals : List Char → List (List Char)
  | [] => []
  | c :: rest =>
    match _h : if isQuote c then literalEnd c rest else none with
    | some (body, after) => (c :: body) :: literals after
    | none => literals rest
termination_by l => l.length
decreasing_by
  · split_ifs at _h
    have happend := congrArg List.length (literalEnd_append _h)
    simp only [List.length_append] at happend
    simp only [List.length_cons]
    omega
  · exact Nat.lt_succ_self _

/-- The literal that the piece is, if it is one. -/
def Piece.literal? : Piece → Option (List Char)
  | .literal text => some text
  | _ => none

theorem literals_literal {c : Char} {rest body after : List Char} (hc : isQuote c = true)
    (h : literalEnd c rest = some (body, after)) :
    literals (c :: rest) = (c :: body) :: literals after := by
  rw [literals]
  split
  · rename_i heq
    rw [if_pos hc, h] at heq
    cases heq
    rfl
  · rename_i heq
    rw [if_pos hc, h] at heq
    cases heq

theorem literals_cons {c : Char} {rest : List Char}
    (h : isQuote c = true → literalEnd c rest = none) : literals (c :: rest) = literals rest := by
  rw [literals]
  split
  · rename_i heq
    split_ifs at heq with hc
    rw [h hc] at heq
    cases heq
  · rfl

theorem literals_append {w : List Char} (l : List Char) (h : ∀ c ∈ w, isQuote c = false) :
    literals (w ++ l) = literals l := by
  induction w with
  | nil => rfl
  | cons c w ih =>
    obtain ⟨hc, hw⟩ := List.forall_mem_cons.1 h
    rw [List.cons_append, literals_cons (by simp [hc]), ih hw]

/-- **Reading finds the string literals of the text.** -/
theorem Reads.literals_eq {free : Bool} {l : List Char} {ps : List Piece} (h : Reads free l ps) :
    literals l = ps.filterMap Piece.literal? := by
  induction h with
  | nil => rw [literals]; rfl
  | literal hc hend _ ih =>
    rw [literals_literal hc hend, ih]
    rfl
  | name htoken _ _ _ ih =>
    rw [literals_append _ fun c hc => (htoken.inName c hc).not_isQuote, ih]
    rfl
  | label htoken _ _ _ ih =>
    rw [literals_append _ fun c hc => (htoken.inName c hc).not_isQuote, ih]
    rfl
  | code hliteral _ _ ih =>
    rw [literals_cons hliteral, ih]
    rfl

/-! ### What takes the place of a name -/

theorem isToken_null : IsToken "null".toList :=
  ⟨run_of_forall (List.all_eq_true.1 rfl), 'n', "ull".toList, rfl, rfl⟩

theorem isToken_parent : IsToken "parent".toList :=
  ⟨run_of_forall (List.all_eq_true.1 rfl), 'p', "arent".toList, rfl, rfl⟩

theorem qualify_null (scope : Option ClassScope) : qualify scope "null" = "null" := by
  unfold qualify
  rw [if_pos (by decide)]

theorem qualify_parent {s : ClassScope} (h : s.parent = none) :
    qualify (some s) "parent" = "parent" := by
  simp [qualify, h]

/-- What may come out for a name. -/
theorem qualify_eq (scope : Option ClassScope) (token : String) :
    qualify scope token = token ∨ qualify scope token = "null" ∨
    (qualify scope token = "parent" ∧ ∃ s, scope = some s ∧ s.parent = none) ∨
    qualify scope token = qualified token ∨
    ∃ s ∈ scope, ∃ name, (s.self = some name ∨ s.parent = some name) ∧
      qualify scope token = qualified name := by
  unfold qualify
  cases scope with
  | none =>
    dsimp only
    split_ifs
    · exact .inl rfl
    · exact .inr (.inl rfl)
    · exact .inl rfl
    · exact .inr (.inr (.inr (.inl rfl)))
  | some s =>
    dsimp only
    split_ifs
    · exact .inl rfl
    · exact .inr (.inl rfl)
    · cases hs : s.self with
      | none => exact .inl rfl
      | some name => exact .inr (.inr (.inr (.inr ⟨s, rfl, name, .inl hs, rfl⟩)))
    · cases hs : s.parent with
      | none => exact .inr (.inr (.inl ⟨rfl, s, rfl, hs⟩))
      | some name => exact .inr (.inr (.inr (.inr ⟨s, rfl, name, .inr hs, rfl⟩)))
    · exact .inr (.inr (.inr (.inl rfl)))

/-- The names of the class and of its parent, as far as they are given, are made of segments. -/
def SegmentedScope (scope : Option ClassScope) : Prop :=
  ∀ s ∈ scope, ∀ name, s.self = some name ∨ s.parent = some name → Segmented name

/-- **A name becomes one that stays, or a run with a `\` in front.** -/
theorem qualify_cases {scope : Option ClassScope} (hscope : SegmentedScope scope)
    {token : List Char} (htoken : IsToken token) :
    (∃ kept, IsToken kept ∧ (qualify scope (String.ofList token)).toList = kept ∧
      (qualify scope (String.ofList kept)).toList = kept) ∨
    ∃ w, (qualify scope (String.ofList token)).toList = '\\' :: w ∧ Run isWordChar ('\\' :: w) := by
  have hqualified (name : String) : (qualified name).toList = '\\' :: name.toList := by
    rw [qualified, String.toList_append]
    rfl
  rcases qualify_eq scope (String.ofList token) with
    h | h | ⟨h, s, rfl, hs⟩ | h | ⟨s, hs, name, hname, h⟩ <;> rw [h]
  · rw [String.toList_ofList]
    exact .inl ⟨token, htoken, rfl, by rw [h, String.toList_ofList]⟩
  · refine .inl ⟨_, isToken_null, rfl, ?_⟩
    rw [String.ofList_toList, qualify_null]
  · refine .inl ⟨_, isToken_parent, rfl, ?_⟩
    rw [String.ofList_toList, qualify_parent hs]
  · rw [hqualified, String.toList_ofList]
    obtain ⟨c, w, rfl, hc⟩ := htoken.start
    have hword := isWordChar_of_isNameChar (isNameChar_of_isNameStart hc)
    exact .inr ⟨_, rfl, .slash hword htoken.run_word.tail⟩
  · rw [hqualified]
    exact .inr ⟨_, rfl, (hscope s hs name hname).run⟩

/-- A name is replaced by a run. -/
theorem run_qualify {scope : Option ClassScope} (hscope : SegmentedScope scope) {token : List Char}
    (htoken : IsToken token) :
    Run isWordChar (qualify scope (String.ofList token)).toList := by
  rcases qualify_cases hscope htoken with ⟨kept, hkept, hout, -⟩ | ⟨w, hout, hrun⟩ <;> rw [hout]
  · exact hkept.run_word
  · exact hrun

/-! ### Texts with other names -/

/-- The text has the pieces in it, but where a name was stands some run. -/
inductive Renamed : List Piece → List Char → Prop
  | nil : Renamed [] []
  | name {token w l : List Char} {ps : List Piece} : Run isWordChar w → Renamed ps l →
      Renamed (.name token :: ps) (w ++ l)
  | kept {piece : Piece} {l : List Char} {ps : List Piece} : (∀ token, piece ≠ .name token) →
      Renamed ps l → Renamed (piece :: ps) (piece.source ++ l)

section Renamed

variable {free : Bool} {c : Char} {l m rest : List Char} {ps : List Piece}

/-- Behind a name the text begins as it did before. -/
theorem Reads.head?_renamed (h : Reads false l ps) (hm : Renamed ps m) : m.head? = l.head? := by
  cases h with
  | nil => cases hm; rfl
  | literal => cases hm; rfl
  | code => cases hm; rfl

/-- A character that begins no literal and opens no name stays, and so does the next one. -/
theorem Reads.second_renamed (h : Reads false (c :: rest) ps) (hm : Renamed ps m)
    (hquote : isQuote c = false) (hopens : opensName c = false) :
    ∃ m', m = c :: m' ∧ m'.head? = rest.head? := by
  cases h with
  | literal hc => rw [hquote] at hc; cases hc
  | code _ _ hrest =>
    rw [hopens] at hrest
    cases hm with
    | kept _ hm => exact ⟨_, rfl, hrest.head?_renamed hm⟩

theorem Reads.ends_renamed (h : Reads false l ps) (hm : Renamed ps m) (hends : Ends l) :
    Ends m := by
  cases l with
  | nil =>
    cases h
    cases hm
    exact hends
  | cons c rest =>
    obtain ⟨hc, hslash⟩ := ends_cons_iff.1 hends
    have hhead := h.head?_renamed hm
    obtain ⟨m', rfl⟩ := List.head?_eq_some_iff.1 hhead
    rw [ends_cons_iff]
    refine ⟨hc, ?_⟩
    rintro rfl
    obtain ⟨m'', heq, hsecond⟩ := h.second_renamed hm rfl rfl
    obtain rfl := (List.cons.inj heq).2
    rw [hsecond]
    exact hslash rfl

theorem followsLabel_iff : followsLabel l = true ↔ ∃ m, l = ':' :: m ∧ m.head? = some ' ' := by
  unfold followsLabel
  split
  · exact iff_of_true rfl ⟨_, rfl, rfl⟩
  · rename_i hnone
    refine iff_of_false Bool.false_ne_true ?_
    rintro ⟨m, rfl, hm⟩
    obtain ⟨rest, rfl⟩ := List.head?_eq_some_iff.1 hm
    exact hnone rest rfl

theorem Reads.followsLabel_renamed (h : Reads false l ps) (hm : Renamed ps m) :
    followsLabel m = followsLabel l := by
  rw [Bool.eq_iff_iff, followsLabel_iff, followsLabel_iff]
  constructor
  · rintro ⟨m', rfl, hhead⟩
    have hfirst := h.head?_renamed hm
    obtain ⟨rest, rfl⟩ := List.head?_eq_some_iff.1 hfirst.symm
    obtain ⟨m'', heq, hsecond⟩ := h.second_renamed hm rfl rfl
    obtain rfl := (List.cons.inj heq).2
    exact ⟨rest, rfl, hsecond ▸ hhead⟩
  · rintro ⟨rest, rfl, hhead⟩
    obtain ⟨m', rfl, hsecond⟩ := h.second_renamed hm rfl rfl
    exact ⟨m', rfl, hsecond.trans hhead⟩

/-- **The text takes the same way through a literal**, as long as no name in front is escaped. -/
theorem Reads.foldl_track (h : Reads free l ps) (hm : Renamed ps m) {quote : Char}
    (hquote : isQuote quote = true) {s : Option Bool} (hs : free = true → s ≠ some true) :
    m.foldl (track quote) s = l.foldl (track quote) s := by
  induction h generalizing m s with
  | nil => cases hm; rfl
  | literal hc hend _ ih =>
    cases hm with
    | kept _ hm =>
      rw [Piece.source, List.cons_append, List.foldl_cons, List.foldl_append, List.foldl_cons,
        List.foldl_append]
      exact ih hm fun _ => foldl_track_literal hc hend
  | name htoken _ _ _ ih =>
    have hne := hs rfl
    cases hm with
    | name hrun hm =>
      have htext := htoken.run_word.foldl_track hquote hne
      have hout := hrun.foldl_track hquote hne
      rw [List.foldl_append, List.foldl_append, hout, htext]
      exact ih hm fun h => absurd h Bool.false_ne_true
    | kept hkept => exact absurd rfl (hkept _)
  | label _ _ _ _ ih =>
    cases hm with
    | kept _ hm =>
      rw [Piece.source, List.foldl_append, List.foldl_append]
      exact ih hm fun h => absurd h Bool.false_ne_true
  | code _ _ _ ih =>
    cases hm with
    | kept _ hm =>
      rw [Piece.source, List.singleton_append, List.foldl_cons, List.foldl_cons]
      refine ih hm fun hopens => track_ne_some_true ?_
      rintro rfl
      cases hopens

/-- A quote that nothing closes is not closed in the other text either. -/
theorem Reads.literalEnd_renamed (hc : isQuote c = true) (h : Reads (opensName c) rest ps)
    (hm : Renamed ps m) (hend : literalEnd c rest = none) : literalEnd c m = none := by
  have hne : c ≠ '\\' := by
    rintro rfl
    cases hc
  rw [literalEnd_eq_none_iff hne] at hend ⊢
  rwa [h.foldl_track hm hc fun _ => by simp]

end Renamed

/-! ### The text that takes the place of another -/

/-- How the pieces are written outside the scope. -/
def rewritten (scope : Option ClassScope) (ps : List Piece) : List Char :=
  ps.flatMap (Piece.requalified scope)

/-- The literals are written as they were. -/
def Verbatim (ps : List Piece) : Prop := ∀ text, .literal text ∈ ps → spliceNul text = text

section Rewritten

variable {scope : Option ClassScope} {free : Bool} {c : Char} {l rest : List Char}
  {piece : Piece} {ps : List Piece}

theorem rewritten_cons (scope : Option ClassScope) (piece : Piece) (ps : List Piece) :
    rewritten scope (piece :: ps) = piece.requalified scope ++ rewritten scope ps := rfl

theorem rewritten_codes (scope : Option ClassScope) (w : List Char) (ps : List Piece) :
    rewritten scope (w.map .code ++ ps) = w ++ rewritten scope ps := by
  rw [rewritten, List.flatMap_append, List.flatMap_map]
  exact congrArg (· ++ _) (List.flatMap_singleton' w)

theorem Verbatim.tail (h : Verbatim (piece :: ps)) : Verbatim ps :=
  fun text htext => h text (List.mem_cons_of_mem piece htext)

theorem Verbatim.rewritten_literal {text : List Char} (h : Verbatim (.literal text :: ps)) :
    rewritten scope (.literal text :: ps) = text ++ rewritten scope ps :=
  congrArg (· ++ _) (h text List.mem_cons_self)

theorem spliceNul_of_not_mem {text : List Char} (h : '\x00' ∉ text) : spliceNul text = text := by
  unfold spliceNul
  split_ifs
  · rfl
  · refine (List.flatMap_congr fun c hc => ?_).trans (List.flatMap_singleton' text)
    rw [if_neg]
    rintro rfl
    exact h hc

theorem Reads.verbatim (h : Reads free l ps) (hnul : '\x00' ∉ l) : Verbatim ps := by
  intro text htext
  refine spliceNul_of_not_mem fun hmem => hnul ?_
  rw [← h.source_eq]
  exact List.mem_flatMap.2 ⟨.literal text, htext, hmem⟩

/-- **The rewritten text has other names**, and all else as it was. -/
theorem Reads.renamed_rewritten (hscope : SegmentedScope scope) (h : Reads free l ps)
    (hv : Verbatim ps) : Renamed ps (rewritten scope ps) := by
  induction h with
  | nil => exact .nil
  | literal _ _ _ ih =>
    rw [hv.rewritten_literal]
    exact .kept (fun _ => Piece.noConfusion) (ih hv.tail)
  | name htoken _ _ _ ih => exact .name (run_qualify hscope htoken) (ih hv.tail)
  | label _ _ _ _ ih => exact .kept (fun _ => Piece.noConfusion) (ih hv.tail)
  | code _ _ _ ih => exact .kept (fun _ => Piece.noConfusion) (ih hv.tail)

end Rewritten

/-! ### Twice -/

theorem Reads.inName_append {w l : List Char} {ps : List Piece} (hw : ∀ c ∈ w, InName c)
    (h : Reads false l ps) : Reads false (w ++ l) (w.map .code ++ ps) := by
  rw [← h.scan_eq, ← scan_false_inName l hw]
  exact reads_scan false (w ++ l)

theorem filterMap_codes (w : List Char) (ps : List Piece) :
    (w.map Piece.code ++ ps).filterMap Piece.literal? = ps.filterMap Piece.literal? := by
  have hnone : (w.map Piece.code).filterMap Piece.literal? = [] := by
    rw [List.filterMap_map]
    exact List.filterMap_eq_nil_iff.2 fun _ _ => rfl
  rw [List.filterMap_append, hnone, List.nil_append]

/-- **The rewritten text is read** as pieces that are written as it is, with the same literals among
them. -/
theorem Reads.again {scope : Option ClassScope} (hscope : SegmentedScope scope) {free : Bool}
    {l : List Char} {ps : List Piece} (h : Reads free l ps) (hv : Verbatim ps) :
    ∃ qs, Reads free (rewritten scope ps) qs ∧ rewritten scope qs = rewritten scope ps ∧
      qs.filterMap Piece.literal? = ps.filterMap Piece.literal? := by
  induction h with
  | nil => exact ⟨[], .nil, rfl, rfl⟩
  | @literal _ c body after ps hc hend hrest ih =>
    obtain ⟨qs, hqs, hsame, hliterals⟩ := ih hv.tail
    have hend' := (closed_of_literalEnd hend).2 (rewritten scope ps)
    refine ⟨.literal (c :: body) :: qs, ?_, ?_, congrArg (List.cons _) hliterals⟩
    · rw [hv.rewritten_literal]
      exact .literal hc hend' hqs
    · rw [rewritten_cons, rewritten_cons, hsame]
  | @name token after ps htoken hends hlabel hrest ih =>
    obtain ⟨qs, hqs, hsame, hliterals⟩ := ih hv.tail
    rw [rewritten_cons, Piece.requalified]
    rcases qualify_cases hscope htoken with ⟨kept, hkept, hout, hagain⟩ | ⟨w, hout, hrun⟩
    · rw [hout]
      refine ⟨.name kept :: qs, ?_, ?_, hliterals⟩
      · have hother := hrest.renamed_rewritten hscope hv.tail
        exact .name hkept (hrest.ends_renamed hother hends)
          ((hrest.followsLabel_renamed hother).trans hlabel) hqs
      · rw [rewritten_cons, Piece.requalified, hagain, hsame]
    · -- The `\` in front is no place for a name, nor is any place behind it.
      rw [hout]
      have hw : ∀ c ∈ w, InName c := fun c hc => hrun.inName c (List.mem_cons_of_mem _ hc)
      refine ⟨.code '\\' :: (w.map .code ++ qs), ?_, ?_, ?_⟩
      · exact .code (fun h => absurd h (by decide)) (fun _ => rfl) (.inName_append hw hqs)
      · rw [rewritten_cons, rewritten_codes, hsame]
        rfl
      · exact (filterMap_codes w qs).trans hliterals
  | @label token after ps htoken hends hlabel hrest ih =>
    obtain ⟨qs, hqs, hsame, hliterals⟩ := ih hv.tail
    refine ⟨.label token :: qs, ?_, ?_, hliterals⟩
    · have hother := hrest.renamed_rewritten hscope hv.tail
      exact .label htoken (hrest.ends_renamed hother hends)
        ((hrest.followsLabel_renamed hother).trans hlabel) hqs
    · rw [rewritten_cons, rewritten_cons, hsame]
  | @code free c rest ps hliteral hname hrest ih =>
    obtain ⟨qs, hqs, hsame, hliterals⟩ := ih hv.tail
    refine ⟨.code c :: qs, ?_, ?_, hliterals⟩
    · have hother := hrest.renamed_rewritten hscope hv.tail
      exact .code (fun hc => hrest.literalEnd_renamed hc hother (hliteral hc)) hname hqs
    · rw [rewritten_cons, rewritten_cons, hsame]

/-- **Requalifying twice does no more than once**, and the string literals stay what they were. -/
theorem requalify_requalify {scope : Option ClassScope} (hscope : SegmentedScope scope)
    {expr : String} (hnul : '\x00' ∉ expr.toList) :
    requalify scope (requalify scope expr) = requalify scope expr ∧
      literals (requalify scope expr).toList = literals expr.toList := by
  have hreads := reads_scan true expr.toList
  obtain ⟨qs, hqs, hsame, hliterals⟩ := hreads.again hscope (hreads.verbatim hnul)
  have htext : (requalify scope expr).toList = rewritten scope (scan true expr.toList) :=
    String.toList_ofList
  constructor
  · rw [← String.toList_inj, htext, ← hsame, ← hqs.scan_eq, ← htext]
    exact String.toList_ofList
  · rw [htext, hqs.literals_eq, hliterals, ← hreads.literals_eq]

namespace Sample

/-- `[self, '\'', "x`. -/
def unclosed : List Char :=
  ['[', 's', 'e', 'l', 'f', ',', ' ', '\'', '\\', '\'', '\'', ',', ' ', '"', 'x']

theorem literals_unclosed : literals unclosed = [['\'', '\\', '\'', '\'']] := by
  have hback : literals [',', ' ', '"', 'x'] = [] := by
    rw [literals_cons (by decide), literals_cons (by decide), literals_cons fun _ => rfl,
      literals_cons (by decide), literals]
  have hfront : literals unclosed = literals ['\'', '\\', '\'', '\'', ',', ' ', '"', 'x'] :=
    literals_append (w := ['[', 's', 'e', 'l', 'f', ',', ' ']) _ (by simp [isQuote])
  rw [hfront, literals_literal rfl rfl, hback]

theorem segmentedScope_child : SegmentedScope (some child) := by
  have hsegment {s : List Char} (hne : s ≠ []) (hs : s.all isWordChar = true) :
      s ≠ [] ∧ ∀ c ∈ s, isWordChar c = true := ⟨hne, List.all_eq_true.1 hs⟩
  have happ := hsegment (s := ['A', 'p', 'p']) (List.cons_ne_nil _ _) rfl
  rintro s ⟨⟩ name (⟨⟨⟩⟩ | ⟨⟨⟩⟩)
  · have hlast := hsegment (s := ['C', 'h', 'i', 'l', 'd']) (List.cons_ne_nil _ _) rfl
    exact ⟨_, List.cons_ne_nil _ _,
      List.forall_mem_cons.2 ⟨happ, List.forall_mem_singleton.2 hlast⟩, rfl⟩
  · have hlast := hsegment (s := ['B', 'a', 's', 'e']) (List.cons_ne_nil _ _) rfl
    exact ⟨_, List.cons_ne_nil _ _,
      List.forall_mem_cons.2 ⟨happ, List.forall_mem_singleton.2 hlast⟩, rfl⟩

/-- The second quote is still not closed, and there is one literal as before. -/
theorem unclosed_requalified : SegmentedScope (some child) ∧
    '\x00' ∉ (String.ofList unclosed).toList ∧
    requalify (some child) (requalify (some child) (String.ofList unclosed)) =
      requalify (some child) (String.ofList unclosed) ∧
    literals (requalify (some child) (String.ofList unclosed)).toList =
      [['\'', '\\', '\'', '\'']] := by
  have hnul : '\x00' ∉ (String.ofList unclosed).toList := by
    rw [String.toList_ofList]
    decide
  obtain ⟨hsame, hliterals⟩ := requalify_requalify segmentedScope_child hnul
  refine ⟨segmentedScope_child, hnul, hsame, hliterals.trans ?_⟩
  rw [String.toList_ofList, literals_unclosed]

end Sample

end LazyClasses.DefaultExpr
