import LazyClasses.Proofs.Pieces
import LazyClasses.TypeHint.Parser
/-! # The grammar of type hints

Which texts are type hints, and which hint each of them is, said without a reader.

* `IsName`, `WritesName`: a name, and the texts of a name.
* `WritesNames`, `WritesBranch`, `MeansUnion`: names joined by `&`, a member of a union, and what
  the members of a union come to.
* `WritesCore`, `Writes`: the texts of a hint, without and with blanks around them.
* `parseName_eq_some_iff`, `parseNames_eq_some_iff`, `parseBranch_eq_some_iff`,
  `parseTrimmed_eq_ok_iff`: each reader accepts the texts of its own part of the grammar.
* `parse_eq_ok_iff`: a text is read as a hint iff it is one of its texts.

A union is cut at the bars outside parentheses. A branch is `Closed`: its parentheses balance and
no bar stands outside them, so the cuts fall where the grammar has its bars. -/

namespace LazyClasses.TypeHint

open Text (Padded Tight Listed isBlank trimChars)

/-! ### The grammar -/

/-- A name without a leading `\`: letters and digits of ASCII, `_`, `\` and whatever is not ASCII.
It begins with no digit and no `\`, and does not end with `\`. -/
structure IsName (l : List Char) : Prop where
  begins : ∃ c rest, l = c :: rest ∧ (c.isAlpha = true ∨ c = '_' ∨ 128 ≤ c.toNat)
  holds : ∀ c ∈ l, c.isAlphanum = true ∨ c = '_' ∨ c = '\\' ∨ 128 ≤ c.toNat
  ends : l.getLast? ≠ some '\\'

/-- The text is the name with blanks around it; one `\` may stand in front of the name. -/
structure WritesName (l : List Char) (name : String) : Prop where
  isName : IsName name.toList
  padded : Padded name.toList l ∨ Padded ('\\' :: name.toList) l

/-- The text is two or more names joined by `&`. -/
structure WritesNames (l : List Char) (names : List String) : Prop where
  many : 2 ≤ names.length
  listed : Listed '&' WritesName l names

/-- The intersection of the names. -/
def allOf (names : List String) : TypeHint := .intersection (names.map (.named · false))

/-- The text is a member of a union: a name, or names joined by `&` in parentheses. -/
inductive WritesBranch : List Char → TypeHint → Prop
  | name {l name} : WritesName l name → WritesBranch l (.named name false)
  | group {l inner names} : Padded ('(' :: (inner ++ [')'])) l → WritesNames inner names →
      WritesBranch l (allOf names)

/-- The two names side by side mean the second made nullable. -/
def NullBeside (a b : String) : Prop := Text.same a "null" = true ∧ Text.same b "mixed" = false

/-- What the members of a union come to. Two names of which one is `null` are the other made
nullable, unless that is `mixed`; if both are `null`, the second is the other. -/
inductive MeansUnion : List TypeHint → TypeHint → Prop
  | nullFirst {a b} : NullBeside a b →
      MeansUnion [.named a false, .named b false] (.named b true)
  | nullSecond {a b} : Text.same a "null" = false → NullBeside b a →
      MeansUnion [.named a false, .named b false] (.named a true)
  | union {members} : (∀ a b, members = [.named a false, .named b false] →
      ¬NullBeside a b ∧ ¬NullBeside b a) → MeansUnion members (.union members)

/-- The text, without blanks around it, is the hint. -/
inductive WritesCore : List Char → TypeHint → Prop
  | nullable {l name} : WritesName l name → WritesCore ('?' :: l) (.named name true)
  | name {l name} : WritesName l name → WritesCore l (.named name false)
  | intersection {l names} : WritesNames l names → WritesCore l (allOf names)
  | union {l members hint} : 2 ≤ members.length → Listed '|' WritesBranch l members →
      MeansUnion members hint → WritesCore l hint

/-- **The texts of a hint.** -/
def Writes (l : List Char) (hint : TypeHint) : Prop :=
  ∃ core, Padded core l ∧ WritesCore core hint

/-! ### Names -/

theorem nameOf_eq_some_iff {l : List Char} {name : String} :
    nameOf l = some name ↔ IsName l ∧ name.toList = l := by
  have hstart (c : Char) : isNameStart c = true ↔ c.isAlpha = true ∨ c = '_' ∨ 128 ≤ c.toNat := by
    simp [isNameStart, isWide, or_assoc]
  have hchar (c : Char) : isNameChar c = true ↔
      c.isAlphanum = true ∨ c = '_' ∨ c = '\\' ∨ 128 ≤ c.toNat := by
    simp [isNameChar, isWide, or_assoc]
  have hbegins : l.head?.any isNameStart = true ↔
      ∃ c rest, l = c :: rest ∧ (c.isAlpha = true ∨ c = '_' ∨ 128 ≤ c.toNat) := by
    cases l with
    | nil => simp
    | cons c rest => simp [hstart]
  unfold nameOf
  split_ifs with h
  · simp only [Bool.and_eq_true, bne_iff_ne, List.all_eq_true, hchar, hbegins] at h
    obtain ⟨⟨hbegins, hholds⟩, hends⟩ := h
    rw [Option.some.injEq, ← String.toList_inj, String.toList_ofList]
    exact ⟨fun e => ⟨⟨hbegins, hholds, hends⟩, e.symm⟩, fun e => e.2.symm⟩
  · simp only [Bool.and_eq_true, bne_iff_ne, List.all_eq_true, hchar, hbegins] at h
    refine ⟨nofun, fun e => ?_⟩
    exact absurd ⟨⟨e.1.begins, e.1.holds⟩, e.1.ends⟩ h

theorem IsName.head?_ne {l : List Char} (h : IsName l) : l.head? ≠ some '\\' := by
  obtain ⟨c, rest, rfl, hc⟩ := h.begins
  rw [List.head?_cons, Ne, Option.some.injEq]
  rintro rfl
  revert hc
  decide

theorem IsName.ne_nil {l : List Char} (h : IsName l) : l ≠ [] := by
  obtain ⟨c, rest, rfl, -⟩ := h.begins
  exact List.cons_ne_nil c rest

/-- **The texts that are read as a name.** -/
theorem parseName_eq_some_iff (l : List Char) (name : String) :
    parseName l = some name ↔ WritesName l name := by
  rw [parseName, nameOf_eq_some_iff]
  constructor
  · rintro ⟨hname, hbare⟩
    refine ⟨hbare ▸ hname, ?_⟩
    rw [← Text.trimChars_eq_iff, ← Text.trimChars_eq_iff, hbare]
    unfold ClassName.bareChars
    split
    · rename_i rest htrim
      exact .inr htrim
    · exact .inl rfl
  · rintro ⟨hname, hpadded | hpadded⟩
    · rw [Text.trimChars_eq_iff.2 hpadded, ClassName.bareChars_of_head?_ne hname.head?_ne]
      exact ⟨hname, rfl⟩
    · rw [Text.trimChars_eq_iff.2 hpadded]
      exact ⟨hname, rfl⟩

/-! ### What holds names apart -/

/-- The characters that stand around names in a hint. -/
def isPunctuation (c : Char) : Bool := c ∈ ['?', '|', '&', '(', ')']

theorem isPunctuation_of_isBlank {c : Char} (h : isBlank c = true) : isPunctuation c = false := by
  by_contra hc
  simp only [isPunctuation, List.mem_cons, List.not_mem_nil, or_false, decide_eq_true_eq,
    Bool.not_eq_false] at hc
  obtain rfl | rfl | rfl | rfl | rfl := hc <;> revert h <;> decide

theorem IsName.isPunctuation_eq_false {l : List Char} (h : IsName l) :
    ∀ c ∈ l, isPunctuation c = false := by
  intro c hc
  have hholds := h.holds c hc
  by_contra hp
  simp only [isPunctuation, List.mem_cons, List.not_mem_nil, or_false, decide_eq_true_eq,
    Bool.not_eq_false] at hp
  obtain rfl | rfl | rfl | rfl | rfl := hp <;> revert hholds <;> decide

theorem WritesName.isPunctuation_eq_false {l : List Char} {name : String} (h : WritesName l name) :
    ∀ c ∈ l, isPunctuation c = false := by
  intro c hc
  rcases h.padded with hpadded | hpadded
  · rcases hpadded.mem hc with hc | hc
    · exact h.isName.isPunctuation_eq_false c hc
    · exact isPunctuation_of_isBlank hc
  · rcases hpadded.mem hc with hc | hc
    · rcases List.mem_cons.1 hc with rfl | hc
      · decide
      · exact h.isName.isPunctuation_eq_false c hc
    · exact isPunctuation_of_isBlank hc

theorem not_mem_of_isPunctuation {l : List Char} (h : ∀ c ∈ l, isPunctuation c = false) {d : Char}
    (hd : isPunctuation d = true) : d ∉ l := fun hmem => by
  rw [h d hmem] at hd
  cases hd

/-- **The texts that are read as an intersection.** -/
theorem parseNames_eq_some_iff {l : List Char} {hint : TypeHint} :
    parseNames l = some hint ↔ ∃ names, WritesNames l names ∧ hint = allOf names := by
  have hsep (l : List Char) (name : String) (h : WritesName l name) : '&' ∉ l :=
    not_mem_of_isPunctuation h.isPunctuation_eq_false rfl
  have hread {names : List String} (hne : names ≠ []) :
      (Text.split (· == '&') l).mapM parseName = some names ↔ Listed '&' WritesName l names :=
    Text.mapM_split_eq_some_iff parseName_eq_some_iff hsep hne
  unfold parseNames
  constructor
  · intro h
    split at h
    · rename_i a b names hnames
      refine ⟨a :: b :: names, ⟨by simp, (hread (by simp)).1 hnames⟩, ?_⟩
      exact (Option.some.inj h).symm
    · cases h
  · rintro ⟨names, ⟨hmany, hlisted⟩, rfl⟩
    match names, hmany, hlisted with
    | a :: b :: names, _, hlisted => rw [(hread (by simp)).2 hlisted]; rfl

/-! ### Branches -/

/-- No punctuation but `&`. -/
def Flat (l : List Char) : Prop := ∀ c ∈ l, isPunctuation c = false ∨ c = '&'

theorem Flat.not_mem {l : List Char} (h : Flat l) {d : Char} (hd : isPunctuation d = true)
    (hne : d ≠ '&') : d ∉ l := fun hmem => by
  rcases h d hmem with h | h
  · rw [h] at hd; cases hd
  · exact hne h

theorem WritesName.flat {l : List Char} {name : String} (h : WritesName l name) : Flat l :=
  fun c hc => .inl (h.isPunctuation_eq_false c hc)

theorem WritesNames.flat {l : List Char} {names : List String} (h : WritesNames l names) :
    Flat l := by
  obtain ⟨-, pieces, rfl, hwrites⟩ := h
  intro c hc
  rcases Text.mem_intercalate hc with hsep | ⟨piece, hpiece, hc⟩
  · exact .inr hsep
  · exact Text.forall_of_forall₂ (P := Flat) (fun _ _ h => h.flat) hwrites piece hpiece c hc

theorem WritesNames.amp_mem {l : List Char} {names : List String} (h : WritesNames l names) :
    '&' ∈ l := by
  obtain ⟨hmany, pieces, rfl, hwrites⟩ := h
  exact Text.mem_intercalate_sep '&' (hwrites.length_eq ▸ hmany)

theorem writesName_trimChars_iff {l : List Char} {name : String} :
    WritesName (trimChars l) name ↔ WritesName l name := by
  constructor <;> rintro ⟨hname, hpadded⟩
  · exact ⟨hname, by rwa [Text.padded_trimChars_iff, Text.padded_trimChars_iff] at hpadded⟩
  · exact ⟨hname, by rwa [Text.padded_trimChars_iff, Text.padded_trimChars_iff]⟩

theorem groupOf_eq_some_iff {l inner : List Char} :
    groupOf l = some inner ↔ l = '(' :: (inner ++ [')']) := by
  unfold groupOf
  split
  · rename_i rest
    rw [List.cons.injEq]
    split_ifs with h
    · have hrest : rest.dropLast ++ [')'] = rest := List.dropLast_append_getLast? _ h
      rw [Option.some.injEq]
      constructor
      · rintro rfl
        exact ⟨rfl, hrest.symm⟩
      · rintro ⟨-, rfl⟩
        exact List.dropLast_concat
    · refine ⟨nofun, ?_⟩
      rintro ⟨-, rfl⟩
      exact absurd List.getLast?_concat h
  · rename_i hne
    refine ⟨nofun, ?_⟩
    rintro rfl
    exact absurd rfl (hne _)

theorem groupOf_eq_none {l : List Char} (h : '(' ∉ l) : groupOf l = none := by
  rw [Option.eq_none_iff_forall_ne_some]
  intro inner hinner
  rw [groupOf_eq_some_iff.1 hinner] at h
  exact h List.mem_cons_self

theorem parseLeaf_eq_some_iff {l : List Char} {hint : TypeHint} :
    parseLeaf l = some hint ↔ ∃ name, WritesName l name ∧ hint = .named name false := by
  simp only [parseLeaf, Option.map_eq_some_iff, parseName_eq_some_iff, @eq_comm _ hint]

/-- **The texts that are read as a member of a union.** -/
theorem parseBranch_eq_some_iff (l : List Char) (hint : TypeHint) :
    parseBranch l = some hint ↔ WritesBranch l hint := by
  unfold parseBranch
  simp only
  constructor
  · intro h
    split at h
    · rename_i inner hinner
      obtain ⟨names, hnames, rfl⟩ := parseNames_eq_some_iff.1 h
      exact .group (Text.trimChars_eq_iff.1 (groupOf_eq_some_iff.1 hinner)) hnames
    · split_ifs at h
      obtain ⟨name, hname, rfl⟩ := parseLeaf_eq_some_iff.1 h
      exact .name (writesName_trimChars_iff.1 hname)
  · rintro (hname | ⟨hpadded, hnames⟩)
    · have htrim := writesName_trimChars_iff.2 hname
      rw [groupOf_eq_none (htrim.flat.not_mem rfl (by decide))]
      simp only
      rw [if_neg (not_mem_of_isPunctuation htrim.isPunctuation_eq_false rfl)]
      exact parseLeaf_eq_some_iff.2 ⟨_, htrim, rfl⟩
    · rw [groupOf_eq_some_iff.2 (Text.trimChars_eq_iff.2 hpadded)]
      exact parseNames_eq_some_iff.2 ⟨_, hnames, rfl⟩

/-- **The texts without a bar that are read as a hint.** -/
theorem parseSingle_eq_some_iff {l : List Char} (hl : Tight l) {hint : TypeHint} :
    parseSingle l = some hint ↔ (∃ name, WritesName l name ∧ hint = .named name false) ∨
      ∃ names, WritesNames l names ∧ hint = allOf names := by
  unfold parseSingle
  simp only [hl.trimChars]
  constructor
  · intro h
    split at h
    · cases h
    · split_ifs at h
      · exact .inr (parseNames_eq_some_iff.1 h)
      · exact .inl (parseLeaf_eq_some_iff.1 h)
  · intro h
    have hflat : Flat l := by
      rcases h with ⟨name, hname, -⟩ | ⟨names, hnames, -⟩
      · exact hname.flat
      · exact hnames.flat
    rw [groupOf_eq_none (hflat.not_mem rfl (by decide))]
    simp only
    rcases h with ⟨name, hname, rfl⟩ | ⟨names, hnames, rfl⟩
    · rw [if_neg (not_mem_of_isPunctuation hname.isPunctuation_eq_false rfl)]
      exact parseLeaf_eq_some_iff.2 ⟨name, hname, rfl⟩
    · rw [if_pos hnames.amp_mem]
      exact parseNames_eq_some_iff.2 ⟨names, hnames, rfl⟩

/-! ### Cutting at bars -/

/-- Puts a text in front of the first piece. -/
def prependFirst (front : List Char) : List (List Char) → List (List Char)
  | [] => [front]
  | piece :: pieces => (front ++ piece) :: pieces

/-- No cut falls into the text, whatever follows: parentheses balance in it, and no bar stands
outside them. -/
def Closed (l : List Char) : Prop :=
  ∀ rest, splitBars 0 (l ++ rest) = (splitBars 0 rest).map (prependFirst l)

theorem prependFirst_append (a b : List Char) (pieces : List (List Char)) :
    prependFirst a (prependFirst b pieces) = prependFirst (a ++ b) pieces := by
  cases pieces with
  | nil => rfl
  | cons piece pieces => rw [prependFirst, prependFirst, prependFirst, List.append_assoc]

theorem pushFront_eq (c : Char) (pieces : List (List Char)) :
    Text.pushFront c pieces = prependFirst [c] pieces := by
  cases pieces <;> rfl

/-- The pieces and the bars between them are the text. -/
theorem splitBars_eq_some {l : List Char} : ∀ {depth : Nat} {pieces : List (List Char)},
    splitBars depth l = some pieces → pieces ≠ [] ∧ l = ['|'].intercalate pieces := by
  induction l with
  | nil =>
    intro depth pieces h
    rw [splitBars] at h
    split_ifs at h
    obtain rfl := Option.some.inj h
    exact ⟨List.cons_ne_nil _ _, rfl⟩
  | cons c l ih =>
    intro depth pieces h
    -- A character goes in front of the first piece, but for a bar, which opens a piece of its own.
    have hpush {depth : Nat} (h : (splitBars depth l).map (Text.pushFront c) = some pieces) :
        pieces ≠ [] ∧ c :: l = ['|'].intercalate pieces := by
      obtain ⟨rest, hrest, rfl⟩ := Option.map_eq_some_iff.1 h
      obtain ⟨hne, hl⟩ := ih hrest
      obtain ⟨piece, more, rfl⟩ := List.exists_cons_of_ne_nil hne
      exact ⟨List.cons_ne_nil _ _, by rw [Text.pushFront, List.intercalate_cons_cons_left, ← hl]⟩
    rw [splitBars] at h
    split_ifs at h with hopen hclose hdepth hbar
    · exact hpush h
    · exact hpush h
    · obtain ⟨rest, hrest, rfl⟩ := Option.map_eq_some_iff.1 h
      obtain ⟨hne, hl⟩ := ih hrest
      refine ⟨List.cons_ne_nil _ _, ?_⟩
      rw [List.intercalate_cons_of_ne_nil hne, ← hl, hbar.1]
      rfl
    · exact hpush h

theorem prependFirst_nil {pieces : List (List Char)} (h : pieces ≠ []) :
    prependFirst [] pieces = pieces := by
  obtain ⟨piece, pieces, rfl⟩ := List.exists_cons_of_ne_nil h
  rfl

/-- No parenthesis and no bar. -/
def Barless (l : List Char) : Prop := ∀ c ∈ l, c ∉ ['(', ')', '|']

theorem Flat.barless {l : List Char} (h : Flat l) : Barless l := by
  intro c hc hmem
  rcases h c hc with hpunctuation | rfl
  · simp only [List.mem_cons, List.not_mem_nil, or_false] at hmem
    rcases hmem with rfl | rfl | rfl <;> revert hpunctuation <;> decide
  · revert hmem
    decide

theorem splitBars_barless {l : List Char} (h : Barless l) (depth : Nat) (rest : List Char) :
    splitBars depth (l ++ rest) = (splitBars depth rest).map (prependFirst l) := by
  induction l with
  | nil =>
    cases hrest : splitBars depth rest with
    | none => rw [List.nil_append, hrest]; rfl
    | some pieces =>
      rw [List.nil_append, hrest, Option.map_some, prependFirst_nil (splitBars_eq_some hrest).1]
  | cons c l ih =>
    have hc : c ∉ ['(', ')', '|'] := h c List.mem_cons_self
    simp only [List.mem_cons, List.not_mem_nil, or_false, not_or] at hc
    obtain ⟨hopen, hclose, hbar⟩ := hc
    rw [List.cons_append, splitBars, if_neg hopen, if_neg hclose, if_neg fun e => hbar e.1,
      ih fun d hd => h d (List.mem_cons_of_mem _ hd), Option.map_map]
    congr 1
    funext pieces
    rw [Function.comp_apply, pushFront_eq, prependFirst_append, List.singleton_append]

theorem Barless.closed {l : List Char} (h : Barless l) : Closed l := splitBars_barless h 0

theorem Closed.append {l m : List Char} (hl : Closed l) (hm : Closed m) : Closed (l ++ m) := by
  intro rest
  rw [List.append_assoc, hl, hm, Option.map_map]
  congr 1
  funext pieces
  exact prependFirst_append l m pieces

theorem closed_group {inner : List Char} (h : Barless inner) :
    Closed ('(' :: (inner ++ [')'])) := by
  intro rest
  have hclose : splitBars 1 (')' :: rest) = (splitBars 0 rest).map (prependFirst [')']) := by
    rw [splitBars, if_neg (by decide), if_pos rfl, if_neg (by decide)]
    exact congrArg (Option.map · _) (funext (pushFront_eq ')'))
  rw [List.cons_append, splitBars, if_pos rfl, List.append_assoc, splitBars_barless h,
    List.singleton_append, hclose, Option.map_map, Option.map_map]
  congr 1
  funext pieces
  simp only [Function.comp_apply, pushFront_eq, prependFirst_append]
  rfl

theorem WritesBranch.closed {l : List Char} {hint : TypeHint} (h : WritesBranch l hint) :
    Closed l := by
  have hblank {l : List Char} (h : ∀ c ∈ l, isBlank c = true) : Closed l :=
    Barless.closed (Flat.barless fun c hc => .inl (isPunctuation_of_isBlank (h c hc)))
  cases h with
  | name hname => exact hname.flat.barless.closed
  | group hpadded hnames =>
    obtain ⟨-, front, back, rfl, hfront, hback⟩ := hpadded
    exact ((hblank hfront).append (closed_group hnames.flat.barless)).append (hblank hback)

/-- **Closed pieces are found again.** -/
theorem splitBars_intercalate : ∀ {pieces : List (List Char)}, pieces ≠ [] →
    (∀ piece ∈ pieces, Closed piece) → splitBars 0 (['|'].intercalate pieces) = some pieces
  | [], hne, _ => absurd rfl hne
  | [piece], _, h => by
    have := h piece (List.mem_singleton_self _) []
    rw [List.append_nil] at this
    rw [List.intercalate_singleton, this, splitBars, if_pos rfl, Option.map_some, prependFirst,
      List.append_nil]
  | piece :: next :: pieces, _, h => by
    have ih := splitBars_intercalate (List.cons_ne_nil next pieces)
      fun p hp => h p (List.mem_cons_of_mem _ hp)
    rw [List.intercalate_cons_cons, List.append_assoc, h piece List.mem_cons_self,
      List.singleton_append, splitBars, if_neg (by decide), if_neg (by decide),
      if_pos ⟨rfl, rfl⟩, ih, Option.map_some, Option.map_some, prependFirst, List.append_nil]

/-! ### Unions -/

/-- A name without a mark, or no name at all. -/
def Unmarked (hint : TypeHint) : Prop :=
  ∀ name nullable, hint = .named name nullable → nullable = false

theorem WritesBranch.unmarked {l : List Char} {hint : TypeHint} (h : WritesBranch l hint) :
    Unmarked hint := by
  rintro name nullable rfl
  cases h
  rfl

theorem collapseNull_eq_union {members : List TypeHint} (hplain : ∀ m ∈ members, Unmarked m)
    (h : ∀ a b, members = [.named a false, .named b false] → ¬NullBeside a b ∧ ¬NullBeside b a) :
    collapseNull members = .union members := by
  match members with
  | [] | [_] | _ :: _ :: _ :: _ => rfl
  | [x, y] =>
    have hnone {a b : String} (ha : Text.same a "null" = true) (hab : ¬NullBeside a b) :
        nullableOf (.named b false) = none := by
      rw [NullBeside, not_and, Bool.not_eq_false] at hab
      rw [nullableOf, if_pos (hab ha)]
    have hunmarked {name : String} {nullable : Bool} (hmem : .named name nullable ∈ [x, y]) :
        nullable = false := hplain _ hmem name nullable rfl
    rw [collapseNull]
    split_ifs with hx hy
    · cases x with
      | union | intersection => cases hx
      | named a =>
        cases y with
        | union | intersection => rfl
        | named b =>
          obtain rfl := hunmarked (List.mem_cons_self)
          obtain rfl := hunmarked (List.mem_cons_of_mem _ (List.mem_singleton_self _))
          rw [hnone hx (h a b rfl).1, Option.getD_none]
    · cases y with
      | union | intersection => cases hy
      | named b =>
        cases x with
        | union | intersection => rfl
        | named a =>
          obtain rfl := hunmarked (List.mem_cons_self)
          obtain rfl := hunmarked (List.mem_cons_of_mem _ (List.mem_singleton_self _))
          rw [hnone hy (h a b rfl).2, Option.getD_none]
    · rfl

theorem MeansUnion.collapseNull_eq {members : List TypeHint} {hint : TypeHint}
    (hplain : ∀ m ∈ members, Unmarked m) (h : MeansUnion members hint) :
    collapseNull members = hint := by
  cases h with
  | nullFirst h => simp [collapseNull, isNull, nullableOf, h.1, h.2]
  | nullSecond ha h => simp [collapseNull, isNull, nullableOf, ha, h.1, h.2]
  | union h => exact collapseNull_eq_union hplain h

theorem exists_meansUnion (members : List TypeHint) : ∃ hint, MeansUnion members hint := by
  by_cases h : ∀ a b, members = [.named a false, .named b false] →
      ¬NullBeside a b ∧ ¬NullBeside b a
  · exact ⟨_, .union h⟩
  · push Not at h
    obtain ⟨a, b, rfl, h⟩ := h
    by_cases hab : NullBeside a b
    · exact ⟨_, .nullFirst hab⟩
    · have hba := h hab
      refine ⟨_, .nullSecond ?_ hba⟩
      -- If `a` were `null` too, `b` would be `mixed`, but it is `null`.
      by_contra ha
      refine hab ⟨by simpa using ha, ?_⟩
      rw [Text.same, Text.same_iff.1 hba.1]
      decide

/-- **What reading makes of members without marks is what they mean.** -/
theorem meansUnion_iff {members : List TypeHint} (hplain : ∀ m ∈ members, Unmarked m)
    {hint : TypeHint} : MeansUnion members hint ↔ collapseNull members = hint := by
  refine ⟨fun h => h.collapseNull_eq hplain, ?_⟩
  rintro rfl
  obtain ⟨hint, h⟩ := exists_meansUnion members
  rwa [h.collapseNull_eq hplain]

/-! ### Hints -/

theorem WritesName.ne_nil {l : List Char} {name : String} (h : WritesName l name) : l ≠ [] := by
  rintro rfl
  have hpos := List.length_pos_of_ne_nil h.isName.ne_nil
  rcases h.padded with hpadded | hpadded
  · have := hpadded.length_le
    simp only [List.length_nil] at this
    omega
  · have := hpadded.length_le
    simp at this

theorem WritesBranch.not_mark {l : List Char} {hint : TypeHint} (h : WritesBranch l hint) :
    '?' ∉ l := by
  cases h with
  | name hname => exact hname.flat.not_mem rfl (by decide)
  | @group inner _ hpadded hnames =>
    intro hmem
    rcases hpadded.mem hmem with hmem | hblank
    · have hinner : '?' ∉ inner := hnames.flat.not_mem rfl (by decide)
      simp [hinner] at hmem
    · revert hblank
      decide

theorem parseTrimmed_of_pieces {l first second : List Char} {more : List (List Char)}
    {members : List TypeHint} (hne : l ≠ []) (hmark : '?' ∉ l)
    (hpieces : splitBars 0 l = some (first :: second :: more))
    (hmembers : (first :: second :: more).mapM parseBranch = some members) :
    parseTrimmed l = .ok (collapseNull members) := by
  unfold parseTrimmed
  split
  · exact absurd rfl hne
  · exact absurd List.mem_cons_self hmark
  · rw [hpieces]
    simp only
    rw [hmembers]

theorem parseTrimmed_of_piece {l piece : List Char} {hint : TypeHint} (hne : l ≠ [])
    (hmark : '?' ∉ l) (hpieces : splitBars 0 l = some [piece])
    (hsingle : parseSingle l = some hint) : parseTrimmed l = .ok hint := by
  unfold parseTrimmed
  split
  · exact absurd rfl hne
  · exact absurd List.mem_cons_self hmark
  · rw [hpieces]
    simp only
    rw [hsingle]

theorem Closed.splitBars_eq {l : List Char} (h : Closed l) : splitBars 0 l = some [l] := by
  have hpieces := splitBars_intercalate (List.cons_ne_nil l []) fun piece hpiece =>
    List.mem_singleton.1 hpiece ▸ h
  rwa [List.intercalate_singleton] at hpieces

theorem mapM_parseBranch_eq_some_iff {pieces : List (List Char)} {members : List TypeHint} :
    pieces.mapM parseBranch = some members ↔ List.Forall₂ WritesBranch pieces members := by
  rw [Text.mapM_eq_some_iff]
  exact Iff.of_eq (congrArg (List.Forall₂ · pieces members)
    (funext₂ fun l hint => propext (parseBranch_eq_some_iff l hint)))

theorem unmarked_of_forall₂ {pieces : List (List Char)} {members : List TypeHint}
    (h : List.Forall₂ WritesBranch pieces members) : ∀ m ∈ members, Unmarked m :=
  Text.forall_of_forall₂ (fun _ _ h => h.unmarked) h.flip

theorem writesCore_of_parseTrimmed {l : List Char} (hl : Tight l) {hint : TypeHint}
    (h : parseTrimmed l = .ok hint) : WritesCore l hint := by
  unfold parseTrimmed at h
  split at h
  · cases h
  · split at h
    · rename_i name hname
      cases h
      exact .nullable ((parseName_eq_some_iff _ name).1 hname)
    · cases h
  · split at h
    · cases h
    · rename_i first second more hpieces
      split at h
      · rename_i members hmembers
        cases h
        have hforall := mapM_parseBranch_eq_some_iff.1 hmembers
        refine .union ?_ ⟨_, (splitBars_eq_some hpieces).2, hforall⟩
          ((meansUnion_iff (unmarked_of_forall₂ hforall)).2 rfl)
        rw [← hforall.length_eq]
        simp
      · cases h
    · split at h
      · rename_i hint' hsingle
        cases h
        rcases (parseSingle_eq_some_iff hl).1 hsingle with
          ⟨name, hname, rfl⟩ | ⟨names, hnames, rfl⟩
        · exact .name hname
        · exact .intersection hnames
      · cases h

theorem parseTrimmed_intercalate {pieces : List (List Char)} {members : List TypeHint}
    {hint : TypeHint} (hmany : 2 ≤ members.length)
    (hwrites : List.Forall₂ WritesBranch pieces members) (hmeans : MeansUnion members hint) :
    parseTrimmed (['|'].intercalate pieces) = .ok hint := by
  rw [← hwrites.length_eq] at hmany
  have hbar := Text.mem_intercalate_sep '|' hmany
  have hmark : '?' ∉ ['|'].intercalate pieces := by
    intro hmem
    rcases Text.mem_intercalate hmem with h | ⟨piece, hpiece, hmem⟩
    · revert h
      decide
    · exact Text.forall_of_forall₂ (fun _ _ h => h.not_mark) hwrites piece hpiece hmem
  match pieces, hmany with
  | first :: second :: more, _ =>
    rw [parseTrimmed_of_pieces (List.ne_nil_of_mem hbar) hmark
      (splitBars_intercalate (List.cons_ne_nil _ _)
        (Text.forall_of_forall₂ (fun _ _ h => h.closed) hwrites))
      (mapM_parseBranch_eq_some_iff.2 hwrites),
      (meansUnion_iff (unmarked_of_forall₂ hwrites)).1 hmeans]

/-- **The texts without blanks around them that are read as a hint.** -/
theorem parseTrimmed_eq_ok_iff {l : List Char} (hl : Tight l) {hint : TypeHint} :
    parseTrimmed l = .ok hint ↔ WritesCore l hint := by
  refine ⟨writesCore_of_parseTrimmed hl, fun h => ?_⟩
  cases h with
  | nullable hname =>
    rw [parseTrimmed, (parseName_eq_some_iff _ _).2 hname]
  | name hname =>
    exact parseTrimmed_of_piece hname.ne_nil (hname.flat.not_mem rfl (by decide))
      hname.flat.barless.closed.splitBars_eq ((parseSingle_eq_some_iff hl).2 (.inl ⟨_, hname, rfl⟩))
  | intersection hnames =>
    exact parseTrimmed_of_piece (List.ne_nil_of_mem hnames.amp_mem)
      (hnames.flat.not_mem rfl (by decide)) hnames.flat.barless.closed.splitBars_eq
      ((parseSingle_eq_some_iff hl).2 (.inr ⟨_, hnames, rfl⟩))
  | union hmany hlisted hmeans =>
    obtain ⟨pieces, rfl, hwrites⟩ := hlisted
    exact parseTrimmed_intercalate hmany hwrites hmeans

theorem parse_eq_ok_iff_writesCore {s : String} {hint : TypeHint} :
    parse s = .ok hint ↔ WritesCore (trimChars s.toList) hint := by
  rw [← parseTrimmed_eq_ok_iff (Text.padded_trimChars s.toList).tight, parse]
  cases parseTrimmed (trimChars s.toList) <;> simp [Except.mapError]

/-- **A text is read as a hint iff it is one of its texts.** -/
theorem parse_eq_ok_iff (s : String) (hint : TypeHint) :
    parse s = .ok hint ↔ Writes s.toList hint := by
  rw [parse_eq_ok_iff_writesCore]
  constructor
  · exact fun h => ⟨_, Text.padded_trimChars s.toList, h⟩
  · rintro ⟨core, hpadded, h⟩
    rwa [Text.trimChars_eq_iff.2 hpadded]

end LazyClasses.TypeHint
