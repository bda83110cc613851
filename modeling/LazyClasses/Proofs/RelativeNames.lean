import LazyClasses.DefaultExpr
import LazyClasses.TypeHint.Parser
import Mathlib.Data.List.Basic
/-! # Which names are made absolute

The names of an expression are described here without regard to how they are found: a word is as
long a run as there is of segments with a `\` between them, where a segment consists of the
characters that names of types may have, and it refers to something unless what stands around it
says otherwise.

* `spans`: literals, words and other characters from left to right.
* `Refers`, `Opened`: a word that refers to something; one that stands where code begins or behind
  `[`, `(` or a space.
* `Ahead`: how far the pieces have come where the spans are. Both are told apart by `U+007F`, which
  only pieces take for a part of a name, and by what is above `U+00FF`, which only spans do. So the
  pieces may be ahead by characters of a name, and where they are no name begins.
* `ahead_step`, `ahead_run`: one span and a list of spans keep to that.
* `comesOut_of_refers`: an opened word becomes absolute, and any other word stays as it is. -/

namespace LazyClasses.DefaultExpr

/-! ### Words -/

/-- A character of a segment, as in the name of a type. -/
def isSegmentChar (c : Char) : Bool := TypeHint.isNameChar c && c != '\\'

/-- The longest run in front of segments with a `\` between them, and the rest. -/
def segments (p : Char → Bool) : List Char → List Char × List Char
  | [] => ([], [])
  | c :: rest =>
    if p c || (c == '\\' && rest.head?.any p) then
      (c :: (segments p rest).1, (segments p rest).2)
    else ([], c :: rest)

/-- A part of an expression. -/
inductive Span where
  /-- A string literal, with its quotes. -/
  | literal (text : List Char)
  /-- A run of segments. -/
  | word (token : List Char)
  /-- Another character. -/
  | other (c : Char)
deriving DecidableEq, Repr

/-- How a span is written. -/
def Span.source : Span → List Char
  | .literal text => text
  | .word token => token
  | .other c => [c]

/-- The span at the front of a text that is not empty, and the rest. -/
def nextSpan (c : Char) (rest : List Char) : Span × List Char :=
  match if isQuote c then literalEnd c rest else none with
  | some (body, after) => (.literal (c :: body), after)
  | none =>
    if isSegmentChar c then
      (.word (segments isSegmentChar (c :: rest)).1, (segments isSegmentChar (c :: rest)).2)
    else (.other c, rest)

theorem segments_append (p : Char → Bool) (l : List Char) :
    (segments p l).1 ++ (segments p l).2 = l := by
  induction l with
  | nil => rfl
  | cons c rest ih =>
    rw [segments]
    split
    · rw [List.cons_append, ih]
    · rfl

theorem segments_cons {p : Char → Bool} {c : Char} (h : p c = true) (rest : List Char) :
    segments p (c :: rest) = (c :: (segments p rest).1, (segments p rest).2) := by
  rw [segments, h]
  rfl

theorem nextSpan_append (c : Char) (rest : List Char) :
    (nextSpan c rest).1.source ++ (nextSpan c rest).2 = c :: rest := by
  unfold nextSpan
  split
  · rename_i body after h
    split at h
    · exact congrArg (c :: ·) (literalEnd_append h)
    · cases h
  · split
    · exact segments_append _ _
    · rfl

theorem source_nextSpan_ne_nil (c : Char) (rest : List Char) :
    (nextSpan c rest).1.source ≠ [] := by
  unfold nextSpan
  split
  · exact List.cons_ne_nil _ _
  · split
    · rename_i h
      rw [segments_cons h]
      exact List.cons_ne_nil _ _
    · exact List.cons_ne_nil _ _

/-- The spans of a text from left to right. -/
def spans : List Char → List Span
  | [] => []
  | c :: rest => (nextSpan c rest).1 :: spans (nextSpan c rest).2
termination_by l => l.length
decreasing_by
  have happend := congrArg List.length (nextSpan_append c rest)
  have hpos := List.length_pos_of_ne_nil (source_nextSpan_ne_nil c rest)
  simp only [List.length_append, List.length_cons] at happend
  simp only [List.length_cons]
  omega

theorem source_spans (l : List Char) : (spans l).flatMap Span.source = l := by
  fun_induction spans l with
  | case1 => rfl
  | case2 c rest ih => rw [List.flatMap_cons, ih, nextSpan_append]

/-! ### What stands around a word -/

/-- The character of code right before what follows the spans; none at the start and behind a
literal. -/
def before (front : List Span) : Option Char :=
  match front.getLast? with
  | some (.word token) => token.getLast?
  | some (.other c) => some c
  | _ => none

/-- Whether a word refers to a class, a constant or a function, or is a keyword. -/
structure Refers (front : List Span) (token : List Char) (back : List Span) : Prop where
  begins : ∀ c, token.head? = some c → c.isDigit = false
  behind : ∀ c, before front = some c → isSegmentChar c = false ∧ c ∉ ['\\', '$', ':', '>']
  notLabel : followsLabel (back.flatMap Span.source) = false

/-- Whether a word stands where code begins, or behind `[`, `(` or a space. -/
def Opened (front : List Span) : Prop := ∀ c, before front = some c → opensName c = true

/-- Whether the word ends for the pieces where it ends for the spans. -/
structure Latin (token back : List Char) : Prop where
  le : ∀ c ∈ token, c.toNat ≤ 0xFF
  head_ne : back.head? ≠ some '\x7f'
  take_ne : back.take 2 ≠ ['\\', '\x7f']

/-- How a name is written outside the class. -/
def absolute (scope : ClassScope) (token : String) : String :=
  if token ∈ ["new", "true", "false", "null"] then token
  else if token = "NULL" then "null"
  else if token = "self" then (scope.self.map ("\\" ++ ·)).getD "self"
  else if token ∈ ["parent", "namespace\\parent"] then (scope.parent.map ("\\" ++ ·)).getD "parent"
  else "\\" ++ token

/-- How a piece is written. -/
def Piece.source : Piece → List Char
  | .literal text => text
  | .name token => token
  | .label token => token
  | .code c => [c]

/-- The part of the expression behind `front` comes out as `out`. -/
def ComesOut (scope : Option ClassScope) (expr : String) (front token out : List Char) : Prop :=
  ∃ P Q R, pieces expr = P ++ Q ++ R ∧ P.flatMap Piece.source = front ∧
    Q.flatMap Piece.source = token ∧ Q.flatMap (Piece.requalified scope) = out

/-! ### The characters of names -/

/-- A character of a word or of a name of the pieces. -/
def InName (c : Char) : Prop := isSegmentChar c = true ∨ c = '\\' ∨ c = '\x7f'

instance : DecidablePred InName := fun _ => inferInstanceAs (Decidable (_ ∨ _))

theorem isSegmentChar_of_isNameChar {c : Char} (h : isNameChar c = true) :
    isSegmentChar c = true ∨ c = '\x7f' := by
  by_cases hdel : c = '\x7f'
  · exact .inr hdel
  have hne : c ≠ '\\' := by rintro rfl; revert h; decide
  have htoNat : c.toNat ≠ 0x7F := fun h' => hdel (Char.toNat_inj.1 h')
  simp only [isNameChar, isNameStart, Bool.or_eq_true, Bool.and_eq_true, decide_eq_true_eq,
    beq_iff_eq] at h
  simp only [isSegmentChar, TypeHint.isNameChar, TypeHint.isWide, Char.isAlphanum, Bool.or_eq_true,
    Bool.and_eq_true, bne_iff_ne, decide_eq_true_eq, beq_iff_eq]
  grind

theorem isNameChar_of_isSegmentChar {c : Char} (h : isSegmentChar c = true) (hle : c.toNat ≤ 0xFF) :
    isNameChar c = true := by
  simp only [isSegmentChar, TypeHint.isNameChar, TypeHint.isWide, Char.isAlphanum, Bool.or_eq_true,
    Bool.and_eq_true, bne_iff_ne, decide_eq_true_eq, beq_iff_eq] at h
  simp only [isNameChar, isNameStart, Bool.or_eq_true, Bool.and_eq_true, decide_eq_true_eq,
    beq_iff_eq]
  grind

theorem isNameChar_of_isNameStart {c : Char} (h : isNameStart c = true) : isNameChar c = true := by
  rw [isNameChar, h, Bool.true_or]

theorem isNameStart_of_isNameChar {c : Char} (h : isNameChar c = true)
    (hdigit : c.isDigit = false) : isNameStart c = true := by
  rwa [isNameChar, hdigit, Bool.or_false] at h

theorem InName.not_isQuote {c : Char} (h : InName c) : isQuote c = false := by
  rw [← Bool.not_eq_true]
  intro hc
  rw [isQuote, Bool.or_eq_true, beq_iff_eq, beq_iff_eq] at hc
  rcases hc with rfl | rfl <;> revert h <;> decide

theorem InName.not_opensName {c : Char} (h : InName c) : opensName c = false := by
  rw [← Bool.not_eq_true]
  intro hc
  rw [opensName, Bool.or_eq_true, Bool.or_eq_true, beq_iff_eq, beq_iff_eq, beq_iff_eq] at hc
  rcases hc with (rfl | rfl) | rfl <;> revert h <;> decide

/-- Where no name may stand, none begins before a quote or before what opens a name. -/
theorem scan_false_append : ∀ {w : List Char} (l : List Char),
    (∀ c ∈ w, isQuote c = false ∧ opensName c = false) →
      scan false (w ++ l) = w.map .code ++ scan false l
  | [], l, _ => rfl
  | c :: w, l, h => by
    obtain ⟨hquote, hopens⟩ := h c List.mem_cons_self
    rw [List.cons_append, scan_code (by rw [hquote]; rfl) rfl, hopens,
      scan_false_append l fun d hd => h d (List.mem_cons_of_mem c hd)]
    rfl

theorem scan_false_inName {w : List Char} (l : List Char) (h : ∀ c ∈ w, InName c) :
    scan false (w ++ l) = w.map .code ++ scan false l :=
  scan_false_append l fun c hc => ⟨(h c hc).not_isQuote, (h c hc).not_opensName⟩

theorem qualifiers_eq_nil {c : Char} {rest : List Char}
    (h : ¬(c = '\\' ∧ rest.head?.any isNameChar = true)) :
    qualifiers (c :: rest) = ([], c :: rest) := by
  rw [qualifiers.eq_def]
  split
  · rename_i d l heq
    obtain ⟨rfl, rfl⟩ := List.cons.inj heq
    have hd : ¬isNameChar d = true := fun hd => h ⟨rfl, hd⟩
    rw [if_neg hd]
  · rfl

/-- The names of the pieces are runs of segments too, of other characters. -/
theorem nameRun_qualifiers : ∀ l : List Char,
    ((nameRun l).1 ++ (qualifiers (nameRun l).2).1, (qualifiers (nameRun l).2).2) =
      segments isNameChar l
  | [] => by simp [nameRun, qualifiers, segments]
  | c :: rest => by
    by_cases hc : isNameChar c = true
    · rw [segments_cons hc, ← nameRun_qualifiers rest, nameRun, if_pos hc]
      rfl
    · rw [nameRun, if_neg hc]
      by_cases hslash : c = '\\' ∧ rest.head?.any isNameChar = true
      · obtain ⟨rfl, hhead⟩ := hslash
        cases rest with
        | nil => cases hhead
        | cons d rest =>
          have hd : isNameChar d = true := hhead
          rw [qualifiers, if_pos hd, segments, if_pos (by simp [hd]), segments_cons hd,
            ← nameRun_qualifiers rest]
          rfl
      · rw [segments, if_neg (by simpa [hc] using hslash), qualifiers_eq_nil hslash]
        rfl
termination_by l => l.length

theorem nameToken_cons {c : Char} (h : isNameStart c = true) (rest : List Char) :
    nameToken (c :: rest) = some (segments isNameChar (c :: rest)) := by
  rw [nameToken, if_pos h, segments_cons (isNameChar_of_isNameStart h), ← nameRun_qualifiers rest]
  rfl

theorem inName_segments {p : Char → Bool} (hp : ∀ c, p c = true → InName c) (l : List Char) :
    ∀ c ∈ (segments p l).1, InName c := by
  induction l with
  | nil => intro c hc; cases hc
  | cons c rest ih =>
    rw [segments]
    split
    · rename_i h
      rw [Bool.or_eq_true, Bool.and_eq_true, beq_iff_eq] at h
      rw [List.forall_mem_cons]
      exact ⟨h.elim (hp c) fun h => .inr (.inl h.1), ih⟩
    · intro d hd; cases hd

/-- A run is the same for the pieces, unless something in it or behind it sets them apart. -/
theorem segments_eq_of_latin {l : List Char}
    (h : Latin (segments isSegmentChar l).1 (segments isSegmentChar l).2) :
    segments isNameChar l = segments isSegmentChar l := by
  induction l with
  | nil => rfl
  | cons c rest ih =>
    by_cases hc : (isSegmentChar c || (c == '\\' && rest.head?.any isSegmentChar)) = true
    · rw [segments, if_pos hc] at h
      have hc' : (isNameChar c || (c == '\\' && rest.head?.any isNameChar)) = true := by
        rw [Bool.or_eq_true, Bool.and_eq_true] at hc ⊢
        refine hc.imp (fun hc => isNameChar_of_isSegmentChar hc (h.le c List.mem_cons_self))
          fun ⟨hslash, hhead⟩ => ⟨hslash, ?_⟩
        cases rest with
        | nil => cases hhead
        | cons d rest =>
          refine isNameChar_of_isSegmentChar hhead (h.le d (List.mem_cons_of_mem c ?_))
          rw [segments_cons hhead]
          exact List.mem_cons_self
      rw [segments, if_pos hc', segments, if_pos hc,
        ih ⟨fun d hd => h.le d (List.mem_cons_of_mem c hd), h.head_ne, h.take_ne⟩]
    · rw [segments, if_neg hc] at h
      have hc' : ¬(isNameChar c || (c == '\\' && rest.head?.any isNameChar)) = true := by
        rw [Bool.or_eq_true, Bool.and_eq_true, beq_iff_eq, not_or] at hc ⊢
        refine ⟨fun hname => ?_, fun ⟨hslash, hhead⟩ => ?_⟩
        · rcases isSegmentChar_of_isNameChar hname with hseg | rfl
          · exact hc.1 hseg
          · exact h.head_ne rfl
        · cases rest with
          | nil => cases hhead
          | cons d rest =>
            rcases isSegmentChar_of_isNameChar hhead with hseg | rfl
            · exact hc.2 ⟨hslash, hseg⟩
            · exact h.take_ne (by rw [hslash]; rfl)
      rw [segments, if_neg hc', segments, if_neg hc]

/-! ### Spans and pieces side by side -/

theorem before_append_singleton (front : List Span) (s : Span) :
    before (front ++ [s]) = before [s] := by
  rw [before, before, List.getLast?_append]
  rfl

/-- How far the pieces have come where the spans are: they have taken the characters of `stretch`
already, and `free` says that a name may begin behind them. -/
structure Ahead (front : List Span) (stretch : List Char) (free : Bool) : Prop where
  inName : ∀ c ∈ stretch, InName c
  behind : stretch ≠ [] → ∃ c, before front = some c ∧ InName c
  free : free = true ↔ stretch = [] ∧ Opened front

theorem ahead_nil {front : List Span} {free : Bool} (h : free = true ↔ Opened front) :
    Ahead front [] free where
  inName c hc := absurd hc List.not_mem_nil
  behind hne := absurd rfl hne
  free := by rw [h, and_iff_right rfl]

theorem InName.not_opened {c : Char} (h : InName c) {front : List Span}
    (hb : before front = some c) : ¬Opened front := fun ho => by
  have := ho c hb
  rw [h.not_opensName] at this
  cases this

/-- At a character of a name stands a name, or one character of other code; neither goes beyond what
names consist of. -/
theorem scan_inName {c : Char} (hc : InName c) (free : Bool) (rest : List Char) :
    ∃ piece m, scan free (c :: rest) = piece :: scan false m ∧ c :: rest = piece.source ++ m ∧
      ∀ d ∈ piece.source, InName d := by
  have hliteral : (if isQuote c then literalEnd c rest else none) = none := by
    rw [hc.not_isQuote]
    rfl
  by_cases hname : free = true ∧ isNameStart c = true
  · obtain ⟨rfl, hstart⟩ := hname
    obtain ⟨token, after, hrun⟩ : ∃ token after, segments isNameChar (c :: rest) = (token, after) :=
      ⟨_, _, rfl⟩
    have happend := segments_append isNameChar (c :: rest)
    have htoken := inName_segments (fun d hd => (isSegmentChar_of_isNameChar hd).imp_right .inr)
      (c :: rest)
    have hname := nameToken_cons hstart rest
    rw [hrun] at happend htoken hname
    have hsource :
        (if followsLabel after then Piece.label token else .name token).source = token := by
      split <;> rfl
    exact ⟨_, after, scan_name hliteral hname, by rw [hsource, happend], by rwa [hsource]⟩
  · have hnone : (if free then nameToken (c :: rest) else none) = none := by
      split
      · rename_i hfree
        rw [nameToken, if_neg fun hstart => hname ⟨hfree, hstart⟩]
      · rfl
    refine ⟨.code c, rest, ?_, rfl, fun d hd => List.mem_singleton.1 hd ▸ hc⟩
    rw [scan_code hliteral hnone, hc.not_opensName]

/-- At any other character stands a literal or other code. -/
theorem scan_not_inName {c : Char} (hc : ¬InName c) (free : Bool) (rest : List Char)
    (hliteral : (if isQuote c then literalEnd c rest else none) = none) :
    scan free (c :: rest) = .code c :: scan (opensName c) rest := by
  refine scan_code hliteral ?_
  split
  · have hstart : ¬isNameStart c = true := fun h => hc <|
      (isSegmentChar_of_isNameChar (isNameChar_of_isNameStart h)).imp_right .inr
    rw [nameToken, if_neg hstart]
  · rfl

theorem nextSpan_of_not_inName {c : Char} {rest : List Char} (hc : ¬InName c)
    (hliteral : (if isQuote c then literalEnd c rest else none) = none) :
    nextSpan c rest = (.other c, rest) := by
  have hseg : ¬isSegmentChar c = true := fun h => hc (.inl h)
  rw [nextSpan, hliteral]
  exact if_neg hseg

theorem inName_nextSpan {c : Char} (hc : InName c) (rest : List Char) :
    (∀ d ∈ (nextSpan c rest).1.source, InName d) ∧
      before [(nextSpan c rest).1] = (nextSpan c rest).1.source.getLast? := by
  rw [nextSpan, hc.not_isQuote]
  change (∀ d ∈ (if isSegmentChar c = true then _ else _ : Span × List Char).1.source, InName d) ∧ _
  split
  · exact ⟨inName_segments (fun d hd => .inl hd) _, rfl⟩
  · exact ⟨fun d hd => List.mem_singleton.1 hd ▸ hc, rfl⟩

/-- Pieces that have come into or past a span of a name take the rest of it as other code. -/
theorem catch_up (front : List Span) {s : Span} {l t m : List Char} (hne : s.source ≠ [])
    (hs : ∀ c ∈ s.source, InName c) (hbefore : before [s] = s.source.getLast?)
    (ht : ∀ c ∈ t, InName c) (hl : s.source ++ l = t ++ m) :
    ∃ P stretch m', l = stretch ++ m' ∧ scan false m = P ++ scan false m' ∧
      t ++ P.flatMap Piece.source = s.source ++ stretch ∧ Ahead (front ++ [s]) stretch false := by
  obtain ⟨c, hc⟩ := List.getLast?_isSome.2 hne |> Option.isSome_iff_exists.1
  have hcName := hs c (List.mem_of_getLast? hc)
  have hlast : before (front ++ [s]) = some c := by rw [before_append_singleton, hbefore, hc]
  have hahead {stretch : List Char} (h : ∀ c ∈ stretch, InName c) :
      Ahead (front ++ [s]) stretch false :=
    ⟨h, fun _ => ⟨c, hlast, hcName⟩, by simp [hcName.not_opened hlast]⟩
  rcases List.append_eq_append_iff.1 hl with ⟨a, rfl, rfl⟩ | ⟨a, hsource, rfl⟩
  · exact ⟨[], a, m, rfl, rfl, by simp, hahead fun d hd => ht d (List.mem_append_right _ hd)⟩
  · refine ⟨a.map .code, [], l, rfl, ?_, ?_, hahead fun d hd => by cases hd⟩
    · exact scan_false_inName l fun d hd => hs d (hsource ▸ List.mem_append_right _ hd)
    · rw [hsource, List.append_nil, List.flatMap_map]
      simp [Piece.source]

/-- **One span**: the pieces that belong to it bring the rest of the pieces as far again. -/
theorem ahead_step {front : List Span} {stretch m : List Char} {free : Bool} {c : Char}
    {rest : List Char} (h : Ahead front stretch free) (hl : c :: rest = stretch ++ m) :
    ∃ P stretch' m' free', (nextSpan c rest).2 = stretch' ++ m' ∧
      scan free m = P ++ scan free' m' ∧
      stretch ++ P.flatMap Piece.source = (nextSpan c rest).1.source ++ stretch' ∧
      Ahead (front ++ [(nextSpan c rest).1]) stretch' free' := by
  have happend := nextSpan_append c rest
  have hne := source_nextSpan_ne_nil c rest
  by_cases hc : InName c
  · -- The span is made of characters of names, and so is what the pieces have taken.
    obtain ⟨hs, hbefore⟩ := inName_nextSpan hc rest
    cases stretch with
    | cons d stretch =>
      -- They are ahead already, and catch up with the span without a piece that begins in it.
      have hfree : free = false := by
        rw [← Bool.not_eq_true, h.free]
        rintro ⟨h, -⟩
        cases h
      obtain ⟨P, stretch', m', hl', hscan, hsource, hahead⟩ :=
        catch_up front hne hs hbefore h.inName (happend.trans hl)
      exact ⟨P, stretch', m', false, hl', hfree ▸ hscan, hsource, hahead⟩
    | nil =>
      obtain rfl : m = c :: rest := hl.symm
      obtain ⟨piece, after, hpiece, hafter, hname⟩ := scan_inName hc free rest
      obtain ⟨P, stretch', m', hl', hscan, hsource, hahead⟩ :=
        catch_up front hne hs hbefore hname (happend.trans hafter)
      refine ⟨piece :: P, stretch', m', false, hl', ?_, hsource, hahead⟩
      rw [hpiece, hscan, List.cons_append]
  · -- They cannot be ahead here: this character is none that they take for a part of a name.
    obtain rfl : stretch = [] := by
      cases stretch with
      | nil => rfl
      | cons d stretch => exact absurd (h.inName c ((List.cons.inj hl).1 ▸ List.mem_cons_self)) hc
    obtain rfl : m = c :: rest := hl.symm
    cases hliteral : (if isQuote c then literalEnd c rest else none) with
    | some p =>
      obtain ⟨body, after⟩ := p
      have hnext : nextSpan c rest = (.literal (c :: body), after) := by rw [nextSpan, hliteral]
      have hscan : scan free (c :: rest) = .literal (c :: body) :: scan true after := by
        split at hliteral
        · rename_i hquote
          exact scan_literal hquote hliteral
        · cases hliteral
      rw [hnext, hscan]
      refine ⟨[.literal (c :: body)], [], after, true, rfl, rfl, ?_, ahead_nil ?_⟩
      · simp [Piece.source, Span.source]
      · simp [Opened, before]
    | none =>
      rw [nextSpan_of_not_inName hc hliteral, scan_not_inName hc free rest hliteral]
      refine ⟨[.code c], [], rest, opensName c, rfl, rfl, rfl, ahead_nil ?_⟩
      simp [Opened, before]

/-- **A list of spans**: the pieces are as far as it is, or ahead by characters of a name. -/
theorem ahead_run {front back : List Span} : ∀ {l m stretch : List Char} {free : Bool}
    {prior : List Span}, Ahead prior stretch free → l = stretch ++ m → spans l = front ++ back →
    ∃ P stretch' m' free', spans (stretch' ++ m') = back ∧
      scan free m = P ++ scan free' m' ∧
      stretch ++ P.flatMap Piece.source = front.flatMap Span.source ++ stretch' ∧
      Ahead (prior ++ front) stretch' free' := by
  induction front with
  | nil =>
    intro l m stretch free prior h hl hspans
    rw [List.nil_append, hl] at hspans
    exact ⟨[], stretch, m, free, hspans, rfl, by simp, by rwa [List.append_nil]⟩
  | cons s front ih =>
    intro l m stretch free prior h hl hspans
    cases l with
    | nil => rw [spans] at hspans; cases hspans
    | cons c rest =>
      rw [spans, List.cons_append] at hspans
      obtain ⟨rfl, htail⟩ := List.cons.inj hspans
      obtain ⟨P, stretch₁, m₁, free₁, hl₁, hscan, hsource, h₁⟩ := ahead_step h hl
      obtain ⟨Q, stretch₂, m₂, free₂, hback, hscan₁, hsource₁, h₂⟩ := ih h₁ hl₁ htail
      refine ⟨P ++ Q, stretch₂, m₂, free₂, hback, ?_, ?_, ?_⟩
      · rw [hscan, hscan₁, List.append_assoc]
      · rw [List.flatMap_append, ← List.append_assoc, hsource, List.append_assoc, hsource₁,
          List.flatMap_cons, List.append_assoc]
      · rwa [List.append_assoc, List.singleton_append] at h₂

/-! ### What becomes of a word -/

theorem qualify_eq_absolute (scope : ClassScope) (token : String) :
    qualify (some scope) token = absolute scope token := by
  have hqualified : qualified = ("\\" ++ ·) := rfl
  simp only [qualify, absolute, List.mem_cons, List.not_mem_nil, or_false, hqualified]
  split_ifs <;> simp_all

theorem nextSpan_word {c : Char} {rest token : List Char}
    (h : (nextSpan c rest).1 = .word token) : isSegmentChar c = true ∧
      nextSpan c rest = (.word token, (segments isSegmentChar (c :: rest)).2) ∧
      (segments isSegmentChar (c :: rest)).1 = token := by
  unfold nextSpan at h ⊢
  split at h
  · cases h
  · split at h
    · rename_i hc
      obtain rfl := Span.word.inj h
      exact ⟨hc, by rw [if_pos hc], rfl⟩
    · cases h

/-- A word is the run in front, and begins with a character of a segment. -/
theorem word_of_spans {l token : List Char} {back : List Span} (h : spans l = .word token :: back) :
    (segments isSegmentChar l).1 = token ∧ (segments isSegmentChar l).2 = back.flatMap Span.source ∧
      ∃ c rest, l = c :: rest ∧ isSegmentChar c = true := by
  cases l with
  | nil => rw [spans] at h; cases h
  | cons c rest =>
    rw [spans] at h
    obtain ⟨hword, hback⟩ := List.cons.inj h
    obtain ⟨hc, hnext, htoken⟩ := nextSpan_word hword
    rw [hnext] at hback
    rw [← hback, source_spans]
    exact ⟨htoken, rfl, c, rest, rfl, hc⟩

/-- A word that is a name for the pieces too is one piece where a name may stand. -/
theorem scan_word {c : Char} {rest token : List Char} (back : List Char)
    (hc : isSegmentChar c = true) (hrun : segments isSegmentChar (c :: rest) = (token, back))
    (hdigit : c.isDigit = false) (hlatin : Latin token back) (hlabel : followsLabel back = false) :
    scan true (c :: rest) = .name token :: scan false back := by
  have hmem : c ∈ token := by
    rw [segments_cons hc] at hrun
    rw [← (Prod.mk.inj hrun).1]
    exact List.mem_cons_self
  have hstart : isNameStart c = true :=
    isNameStart_of_isNameChar (isNameChar_of_isSegmentChar hc (hlatin.le c hmem)) hdigit
  have hliteral : (if isQuote c then literalEnd c rest else none) = none := by
    rw [InName.not_isQuote (.inl hc)]
    rfl
  have hname : nameToken (c :: rest) = some (token, back) := by
    rw [nameToken_cons hstart, segments_eq_of_latin (by rwa [hrun]), hrun]
  rw [scan_name hliteral hname, hlabel]
  rfl

/-- **An opened word becomes absolute, and any other word stays as it is.** -/
theorem comesOut_of_refers (scope : ClassScope) (expr : String) {front back : List Span}
    {token : List Char} (h : spans expr.toList = front ++ .word token :: back)
    (href : Refers front token back) :
    (Opened front → Latin token (back.flatMap Span.source) →
      ComesOut (some scope) expr (front.flatMap Span.source) token
        (absolute scope (String.ofList token)).toList) ∧
    (¬Opened front → before front ≠ some '\x7f' →
      ComesOut (some scope) expr (front.flatMap Span.source) token token) := by
  have hstart : Ahead [] [] true := ahead_nil (by simp [Opened, before])
  obtain ⟨P, stretch, m, free, hspans, hscan, hsource, hahead⟩ :=
    ahead_run hstart (List.nil_append expr.toList).symm h
  rw [List.nil_append] at hsource hahead
  -- No character of a name stands before the word, so the pieces are not ahead.
  have hstretch (hb : before front ≠ some '\x7f') : stretch = [] := by
    by_contra hne
    obtain ⟨b, hbefore, hname⟩ := hahead.behind hne
    obtain ⟨hseg, hmem⟩ := href.behind b hbefore
    rcases hname with hb' | rfl | rfl
    · rw [hseg] at hb'; cases hb'
    · exact hmem List.mem_cons_self
    · exact hb hbefore
  constructor
  · intro hopened hlatin
    have hb : before front ≠ some '\x7f' := fun hb => absurd (hopened _ hb) (by decide)
    obtain rfl := hstretch hb
    obtain rfl := hahead.free.2 ⟨rfl, hopened⟩
    rw [List.nil_append] at hspans
    obtain ⟨htoken, hback, c, rest, rfl, hc⟩ := word_of_spans hspans
    have hhead : token.head? = some c := by
      rw [← htoken, segments_cons hc]
      rfl
    have hword := scan_word (back.flatMap Span.source) hc (Prod.ext htoken hback)
      (href.begins c hhead) hlatin href.notLabel
    rw [hword] at hscan
    refine ⟨P, [.name token], scan false (back.flatMap Span.source), ?_, ?_, ?_, ?_⟩
    · rw [pieces, hscan, List.append_assoc, List.singleton_append]
    · simpa using hsource
    · simp [Piece.source]
    · simp [Piece.requalified, qualify_eq_absolute]
  · intro hopened hb
    obtain rfl := hstretch hb
    have hfree : free = false := by
      rw [← Bool.not_eq_true, hahead.free]
      exact fun h => hopened h.2
    rw [List.nil_append] at hspans
    obtain ⟨htoken, hback, -⟩ := word_of_spans hspans
    have hname : ∀ d ∈ token, InName d := by
      rw [← htoken]
      exact inName_segments (fun d hd => .inl hd) m
    rw [hfree, ← segments_append isSegmentChar m, htoken, hback, scan_false_inName _ hname] at hscan
    refine ⟨P, token.map .code, scan false (back.flatMap Span.source), ?_, ?_, ?_, ?_⟩
    · rw [pieces, hscan, List.append_assoc]
    · simpa using hsource
    · simp [List.flatMap_map, Piece.source]
    · simp [List.flatMap_map, Piece.requalified]

namespace Sample

/-- A class with a parent. -/
def child : ClassScope := ⟨some "App\\Child", some "App\\Base"⟩

theorem spans_cons {c : Char} {rest l : List Char} {s : Span} {tail : List Span}
    (hnext : nextSpan c rest = (s, l)) (htail : spans l = tail) :
    spans (c :: rest) = s :: tail := by
  rw [spans, hnext, htail]

theorem spans_nil : spans [] = [] := by rw [spans]

/-- `[self|B]`. -/
def flags : List Char := ['[', 's', 'e', 'l', 'f', '|', 'B', ']']

theorem spans_flags : spans (String.ofList flags).toList =
    [.other '['] ++ .word ['s', 'e', 'l', 'f'] :: [.other '|', .word ['B'], .other ']'] := by
  rw [String.toList_ofList]
  exact spans_cons rfl <| spans_cons rfl <| spans_cons rfl <| spans_cons rfl <| spans_cons rfl
    spans_nil

/-- `self` becomes absolute, and `B` stays. -/
theorem flags_comeOut :
    ComesOut (some child) (String.ofList flags) ['['] ['s', 'e', 'l', 'f'] "\\App\\Child".toList ∧
    ComesOut (some child) (String.ofList flags) ['[', 's', 'e', 'l', 'f', '|'] ['B'] ['B'] := by
  have hself : Refers [.other '['] ['s', 'e', 'l', 'f'] [.other '|', .word ['B'], .other ']'] :=
    ⟨by rintro c ⟨⟩; rfl, by rintro c ⟨⟩; decide, rfl⟩
  have hspans : spans (String.ofList flags).toList =
      [.other '[', .word ['s', 'e', 'l', 'f'], .other '|'] ++ .word ['B'] :: [.other ']'] :=
    spans_flags
  have hb : Refers [.other '[', .word ['s', 'e', 'l', 'f'], .other '|'] ['B'] [.other ']'] :=
    ⟨by rintro c ⟨⟩; rfl, by rintro c ⟨⟩; decide, rfl⟩
  exact ⟨(comesOut_of_refers child _ spans_flags hself).1 (by rintro c ⟨⟩; rfl)
      ⟨by simp, by decide, by decide⟩,
    (comesOut_of_refers child _ hspans hb).2 (fun h => absurd (h '|' rfl) (by decide)) (by decide)⟩

/-- `[...self::DEFAULTS]`. -/
def defaults : List Char :=
  ['[', '.', '.', '.', 's', 'e', 'l', 'f', ':', ':', 'D', 'E', 'F', 'A', 'U', 'L', 'T', 'S', ']']

theorem spans_defaults : spans (String.ofList defaults).toList =
    [.other '[', .other '.', .other '.', .other '.'] ++ .word ['s', 'e', 'l', 'f'] ::
      [.other ':', .other ':', .word ['D', 'E', 'F', 'A', 'U', 'L', 'T', 'S'], .other ']'] := by
  rw [String.toList_ofList]
  exact spans_cons rfl <| spans_cons rfl <| spans_cons rfl <| spans_cons rfl <| spans_cons rfl <|
    spans_cons rfl <| spans_cons rfl <| spans_cons rfl <| spans_cons rfl spans_nil

theorem pieces_defaults : pieces (String.ofList defaults) = defaults.map .code := by
  rw [pieces, String.toList_ofList, defaults, scan_code rfl rfl]
  change _ :: scan true ('.' :: _) = _
  rw [scan_code rfl rfl]
  change _ :: _ :: scan false ("..self::DEFAULTS]".toList ++ []) = _
  rw [scan_false_append [] (by simp [isQuote, opensName]), scan]
  rfl

/-- **Behind other characters names stay**: `self` refers to the class and does not become
absolute. -/
theorem defaults_stay :
    spans (String.ofList defaults).toList =
      [.other '[', .other '.', .other '.', .other '.'] ++ .word ['s', 'e', 'l', 'f'] ::
        [.other ':', .other ':', .word ['D', 'E', 'F', 'A', 'U', 'L', 'T', 'S'], .other ']'] ∧
    Refers [.other '[', .other '.', .other '.', .other '.'] ['s', 'e', 'l', 'f']
      [.other ':', .other ':', .word ['D', 'E', 'F', 'A', 'U', 'L', 'T', 'S'], .other ']'] ∧
    absolute child "self" = "\\App\\Child" ∧
    requalify (some child) (String.ofList defaults) = String.ofList defaults ∧
    ¬ComesOut (some child) (String.ofList defaults) ['[', '.', '.', '.'] ['s', 'e', 'l', 'f']
      "\\App\\Child".toList := by
  have hcode : ∀ p ∈ pieces (String.ofList defaults), p.requalified (some child) = p.source := by
    rw [pieces_defaults, List.forall_mem_map]
    exact fun c _ => rfl
  refine ⟨spans_defaults, ⟨by rintro c ⟨⟩; rfl, by rintro c ⟨⟩; decide, rfl⟩, by decide, ?_, ?_⟩
  · rw [requalify, List.flatMap_congr hcode, pieces_defaults]
    rfl
  · rintro ⟨P, Q, R, hpieces, -, hsource, hout⟩
    have hQ : ∀ p ∈ Q, p.requalified (some child) = p.source := fun p hp =>
      hcode p (by rw [hpieces]; exact List.mem_append_left _ (List.mem_append_right _ hp))
    rw [List.flatMap_congr hQ, hsource] at hout
    revert hout
    decide

end Sample

end LazyClasses.DefaultExpr
