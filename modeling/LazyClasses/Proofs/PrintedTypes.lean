import LazyClasses.Proofs.TypeGrammar
import LazyClasses.TypeHint.Printer
/-! # Printed type hints are read again

What is read as a hint is printed and read again.

* `ReadName`, `ReadMember`, `Readable`: the names, members and hints that reading gives.
* `Spells`, `SpellsMember`: a text for a name or a member that can be put between others as it is.
  `parse_names`, `parse_members`: texts in a row are read as the hint that they spell.
* `parse_text_iff`: the printed hint is read as the hint, but for a mark that does not show, unless
  one of its names begins with a blank.

Reading takes blanks away before it takes away the `\`, so a name that was written behind `\` may
begin with a blank. It is printed without the `\`, and then the blank is taken away. That such a
hint never comes back is a matter of length (`length_text_le`): no text of a hint is shorter than
the printed one, and each name that begins with a blank costs a `\` more. -/

namespace LazyClasses.TypeHint

open Text (Padded Tight Listed isBlank)

/-! ### What reading gives -/

/-- A name that is read from a text. -/
structure ReadName (name : String) : Prop where
  isName : IsName name.toList
  last : ∀ c, name.toList.getLast? = some c → isBlank c = false

/-- A member of a union that is read. -/
inductive ReadMember : TypeHint → Prop
  | name {name} : ReadName name → ReadMember (.named name false)
  | group {names} : 2 ≤ names.length → (∀ name ∈ names, ReadName name) → ReadMember (allOf names)

/-- A hint that is read. -/
inductive Readable : TypeHint → Prop
  | named {name nullable} : ReadName name → Readable (.named name nullable)
  | intersection {names} : 2 ≤ names.length → (∀ name ∈ names, ReadName name) →
      Readable (allOf names)
  | union {members} : 2 ≤ members.length → (∀ m ∈ members, ReadMember m) →
      MeansUnion members (.union members) → Readable (.union members)

theorem WritesName.readName {l : List Char} {name : String} (h : WritesName l name) :
    ReadName name := by
  refine ⟨h.isName, fun c hc => ?_⟩
  rcases h.padded with hpadded | hpadded
  · exact hpadded.tight.last c hc
  · refine hpadded.tight.last c ?_
    rwa [List.getLast?_cons_of_ne_nil h.isName.ne_nil]

theorem WritesNames.readName {l : List Char} {names : List String} (h : WritesNames l names) :
    ∀ name ∈ names, ReadName name := by
  obtain ⟨-, pieces, -, hwrites⟩ := h
  exact Text.forall_of_forall₂ (fun _ _ h => h.readName) hwrites.flip

theorem WritesBranch.readMember {l : List Char} {hint : TypeHint} (h : WritesBranch l hint) :
    ReadMember hint := by
  cases h with
  | name hname => exact .name hname.readName
  | group _ hnames => exact .group hnames.many hnames.readName

theorem WritesCore.readable {l : List Char} {hint : TypeHint} (h : WritesCore l hint) :
    Readable hint := by
  cases h with
  | nullable hname => exact .named hname.readName
  | name hname => exact .named hname.readName
  | intersection hnames => exact .intersection hnames.many hnames.readName
  | union hmany hlisted hmeans =>
    obtain ⟨pieces, -, hwrites⟩ := hlisted
    have hmembers := Text.forall_of_forall₂ (fun _ _ h => h.readMember) hwrites.flip
    cases hmeans with
    | @nullFirst a b _ =>
      cases hmembers (.named b false) (by simp) with
      | name hname => exact .named hname
    | @nullSecond a b _ _ =>
      cases hmembers (.named a false) (by simp) with
      | name hname => exact .named hname
    | union hno => exact .union hmany hmembers (.union hno)

theorem readable_of_parse {s : String} {hint : TypeHint} (h : parse s = .ok hint) :
    Readable hint := (parse_eq_ok_iff_writesCore.1 h).readable

/-! ### Texts in a row -/

/-- A text of the name without blanks around it. -/
structure Spells (text name : String) : Prop where
  tight : Tight text.toList
  writes : WritesName text.toList name

/-- A text of the member without blanks around it. -/
structure SpellsMember (text : String) (member : TypeHint) : Prop where
  tight : Tight text.toList
  writes : WritesBranch text.toList member

theorem WritesBranch.ne_nil {l : List Char} {hint : TypeHint} (h : WritesBranch l hint) :
    l ≠ [] := by
  cases h with
  | name hname => exact hname.ne_nil
  | group hpadded _ =>
    rintro rfl
    have := hpadded.length_le
    simp at this

/-- The text is not empty, and no blank stands at either end. -/
def Solid (text : String) : Prop := text.toList ≠ [] ∧ Tight text.toList

theorem Spells.solid {text name : String} (h : Spells text name) : Solid text :=
  ⟨h.writes.ne_nil, h.tight⟩

theorem SpellsMember.solid {text : String} {member : TypeHint} (h : SpellsMember text member) :
    Solid text := ⟨h.writes.ne_nil, h.tight⟩

theorem parse_of_writesCore {text : String} {hint : TypeHint} (htight : Tight text.toList)
    (h : WritesCore text.toList hint) : parse text = .ok hint :=
  parse_eq_ok_iff_writesCore.2 (by rwa [htight.trimChars])

theorem Spells.parse {text name : String} (h : Spells text name) :
    parse text = .ok (.named name false) := parse_of_writesCore h.tight (.name h.writes)

theorem Spells.parse_marked {text name : String} (h : Spells text name) :
    TypeHint.parse ("?" ++ text) = .ok (.named name true) := by
  have htext : ("?" ++ text).toList = '?' :: text.toList := String.toList_append
  refine parse_of_writesCore ?_ (htext ▸ .nullable h.writes)
  rw [htext]
  refine ⟨fun c hc => ?_, fun c hc => h.tight.last c ?_⟩
  · obtain rfl := Option.some.inj hc
    decide
  · rwa [List.getLast?_cons_of_ne_nil h.writes.ne_nil] at hc

section Row

variable {texts names : List String} {members : List TypeHint}

theorem toList_intercalate (sep : Char) (texts : List String) :
    ((String.singleton sep).intercalate texts).toList =
      [sep].intercalate (texts.map String.toList) := by
  rw [String.toList_intercalate, String.toList_singleton]

theorem tight_row (sep : Char) (hne : texts ≠ [])
    (h : ∀ text ∈ texts, Solid text) :
    Tight ((String.singleton sep).intercalate texts).toList := by
  rw [toList_intercalate]
  refine Text.tight_intercalate (by simpa using hne) ?_
  rw [List.forall_mem_map]
  exact h

theorem ne_nil_of_forall₂ {α β : Type} {R : α → β → Prop} {l : List α} {m : List β}
    (h : List.Forall₂ R l m) (hm : 2 ≤ m.length) : l ≠ [] := by
  rw [← h.length_eq] at hm
  rintro rfl
  simp at hm

theorem writesNames_row (hmany : 2 ≤ names.length) (h : List.Forall₂ Spells texts names) :
    WritesNames ("&".intercalate texts).toList names := by
  refine ⟨hmany, texts.map String.toList, toList_intercalate '&' texts, ?_⟩
  rw [List.forall₂_map_left_iff]
  exact h.imp fun _ _ h => h.writes

/-- **Names in a row** are read as their intersection. -/
theorem parse_names (hmany : 2 ≤ names.length) (h : List.Forall₂ Spells texts names) :
    parse ("&".intercalate texts) = .ok (allOf names) := by
  have htexts : ∀ text ∈ texts, Solid text := Text.forall_of_forall₂ (fun _ _ h => h.solid) h
  exact parse_of_writesCore (tight_row '&' (ne_nil_of_forall₂ h hmany) htexts)
    (.intersection (writesNames_row hmany h))

/-- **Members in a row** are read as what they mean. -/
theorem parse_members {hint : TypeHint} (hmany : 2 ≤ members.length)
    (h : List.Forall₂ SpellsMember texts members) (hmeans : MeansUnion members hint) :
    parse ("|".intercalate texts) = .ok hint := by
  have htexts : ∀ text ∈ texts, Solid text := Text.forall_of_forall₂ (fun _ _ h => h.solid) h
  refine parse_of_writesCore (tight_row '|' (ne_nil_of_forall₂ h hmany) htexts)
    (.union hmany ⟨texts.map String.toList, toList_intercalate '|' texts, ?_⟩ hmeans)
  rw [List.forall₂_map_left_iff]
  exact h.imp fun _ _ h => h.writes

theorem Spells.spellsMember {text name : String} (h : Spells text name) :
    SpellsMember text (.named name false) := ⟨h.tight, .name h.writes⟩

theorem spellsMember_group (hmany : 2 ≤ names.length) (h : List.Forall₂ Spells texts names) :
    SpellsMember ("(" ++ "&".intercalate texts ++ ")") (allOf names) := by
  have htext : ("(" ++ "&".intercalate texts ++ ")").toList =
      '(' :: (("&".intercalate texts).toList ++ [')']) := by
    rw [String.toList_append, String.toList_append]
    rfl
  have htight : Tight ('(' :: (("&".intercalate texts).toList ++ [')'])) := by
    refine ⟨fun c hc => ?_, fun c hc => ?_⟩
    · obtain rfl := Option.some.inj hc
      decide
    · rw [← List.cons_append, List.getLast?_concat] at hc
      obtain rfl := Option.some.inj hc
      decide
  rw [← htext] at htight
  exact ⟨htight, .group (htext ▸ htight.padded) (writesNames_row hmany h)⟩

end Row

/-! ### The printed text -/

/-- Whether the name begins with a blank. -/
def beginsBlank (name : String) : Bool := name.toList.head?.any isBlank

/-- The hint without a mark that does not show. -/
def shown : TypeHint → TypeHint
  | .named name nullable => .named name (nullable && showsMark name)
  | hint => hint

theorem memberTexts_names : ∀ names : List String,
    memberTexts (names.map (.named · false)) = names
  | [] => rfl
  | name :: names => by
    rw [List.map_cons, memberTexts, memberTexts_names names]
    rfl

theorem text_allOf (names : List String) : text (allOf names) = "&".intercalate names := by
  rw [allOf, text, memberTexts_names]

/-- How a member of a union is printed. -/
def memberText (member : TypeHint) : String :=
  if member.isIntersection then "(" ++ text member ++ ")" else text member

theorem unionTexts_eq_map (members : List TypeHint) :
    unionTexts members = members.map memberText := by
  induction members with
  | nil => rfl
  | cons member members ih => rw [unionTexts, ih]; rfl

theorem leavesAll_eq_flatMap (members : List TypeHint) :
    leavesAll members = members.flatMap leaves := by
  induction members with
  | nil => rfl
  | cons member members ih => rw [leavesAll, ih]; rfl

theorem leaves_allOf (names : List String) : leaves (allOf names) = names := by
  rw [allOf, leaves, leavesAll_eq_flatMap, List.flatMap_map]
  exact List.flatMap_singleton' names

/-- A name that begins with no blank spells itself. -/
theorem ReadName.spells {name : String} (h : ReadName name) (hblank : beginsBlank name = false) :
    Spells name name := by
  have htight : Tight name.toList := by
    refine ⟨fun c hc => ?_, h.last⟩
    rw [beginsBlank, hc] at hblank
    exact hblank
  exact ⟨htight, h.isName, .inl htight.padded⟩

theorem spells_self {names : List String} (h : ∀ name ∈ names, ReadName name)
    (hblank : ∀ name ∈ names, beginsBlank name = false) : List.Forall₂ Spells names names :=
  List.forall₂_same.2 fun name hname => (h name hname).spells (hblank name hname)

theorem ReadMember.spellsMember {member : TypeHint} (h : ReadMember member)
    (hblank : ∀ name ∈ member.leaves, beginsBlank name = false) :
    SpellsMember (memberText member) member := by
  cases h with
  | name hname => exact (hname.spells (hblank _ (List.mem_singleton_self _))).spellsMember
  | @group names hmany hnames =>
    rw [leaves_allOf] at hblank
    have hspells := spellsMember_group hmany (spells_self hnames hblank)
    rwa [← text_allOf] at hspells

/-- **A hint without a name that begins with a blank** is printed and read again. -/
theorem Readable.parse_text {hint : TypeHint} (h : Readable hint)
    (hblank : ∀ name ∈ hint.leaves, beginsBlank name = false) :
    parse hint.text = .ok hint.shown := by
  cases h with
  | @named name nullable hname =>
    have hspells := hname.spells (hblank name (List.mem_singleton_self _))
    rw [text, markedName, shown]
    cases nullable && showsMark name with
    | true => exact hspells.parse_marked
    | false => exact hspells.parse
  | @intersection names hmany hnames =>
    rw [leaves_allOf] at hblank
    rw [text_allOf]
    exact parse_names hmany (spells_self hnames hblank)
  | @union members hmany hmembers hmeans =>
    rw [text, unionTexts_eq_map]
    refine parse_members hmany ?_ hmeans
    rw [List.forall₂_map_left_iff, List.forall₂_same]
    intro member hmember
    refine (hmembers member hmember).spellsMember fun name hname => hblank name ?_
    rw [leaves, leavesAll_eq_flatMap]
    exact List.mem_flatMap.2 ⟨member, hmember, hname⟩

/-! ### How long a text must be -/

/-- How many names of the hint begin with a blank. -/
def blankNames (hint : TypeHint) : Nat := hint.leaves.countP beginsBlank

theorem blankNames_named (name : String) (nullable : Bool) :
    blankNames (.named name nullable) = if beginsBlank name then 1 else 0 := by
  rw [blankNames, leaves, List.countP_singleton]

theorem WritesName.length_le {l : List Char} {name : String} (h : WritesName l name)
    (nullable : Bool) : name.toList.length + blankNames (.named name nullable) ≤ l.length := by
  rw [blankNames_named]
  rcases h.padded with hpadded | hpadded
  · have hblank : beginsBlank name = false := by
      rw [beginsBlank]
      cases hhead : name.toList.head? with
      | none => rfl
      | some c => exact hpadded.tight.first c hhead
    rw [hblank]
    exact hpadded.length_le
  · have := hpadded.length_le
    rw [List.length_cons] at this
    split_ifs <;> omega

theorem blankNames_members (members : List TypeHint) :
    (leavesAll members).countP beginsBlank = (members.map blankNames).sum := by
  rw [leavesAll_eq_flatMap, List.countP_flatMap]
  rfl

theorem length_markedName_le (name : String) (nullable : Bool) :
    (markedName name nullable).toList.length ≤ name.toList.length + 1 := by
  unfold markedName
  split_ifs
  · rw [String.toList_append, List.length_append]
    exact (Nat.add_comm ..).le
  · omega

/-- Items in a row cost what each of them costs. -/
theorem length_row_le {α : Type} (f : α → String) (cost : α → Nat) (sep : Char)
    {pieces : List (List Char)} {items : List α} (hne : items ≠ [])
    (h : List.Forall₂ (fun p a => (f a).toList.length + cost a ≤ p.length) pieces items) :
    ((String.singleton sep).intercalate (items.map f)).toList.length + (items.map cost).sum ≤
      ([sep].intercalate pieces).length := by
  have hsum : (((items.map f).map String.toList).map fun p => p.length + 1).sum +
      (items.map cost).sum ≤ (pieces.map fun p => p.length + 1).sum := by
    clear hne
    induction h with
    | nil => simp
    | cons hp _ ih =>
      simp only [List.map_cons, List.sum_cons]
      omega
  have hpieces : pieces ≠ [] := by
    rintro rfl
    exact hne (List.forall₂_nil_left_iff.1 h)
  have hl := Text.length_intercalate sep hpieces
  have hitems := Text.length_intercalate sep
    (show (items.map f).map String.toList ≠ [] by simpa using hne)
  rw [toList_intercalate]
  omega

theorem WritesNames.length_le {l : List Char} {names : List String} (h : WritesNames l names) :
    (text (allOf names)).toList.length + blankNames (allOf names) ≤ l.length := by
  obtain ⟨hmany, pieces, rfl, hwrites⟩ := h
  have hrow := length_row_le id (fun name => blankNames (.named name false)) '&'
    (by rintro rfl; simp at hmany) (hwrites.imp fun _ _ h => h.length_le false)
  rw [List.map_id] at hrow
  rw [text_allOf, allOf, blankNames, leaves, blankNames_members, List.map_map]
  exact hrow

theorem WritesBranch.length_le {l : List Char} {member : TypeHint} (h : WritesBranch l member) :
    (memberText member).toList.length + blankNames member ≤ l.length := by
  cases h with
  | name hname => exact hname.length_le false
  | @group inner names hpadded hnames =>
    have hinner := hnames.length_le
    have hl := hpadded.length_le
    have htext : memberText (allOf names) = "(" ++ text (allOf names) ++ ")" := rfl
    simp only [List.length_cons, List.length_append, List.length_nil] at hl
    rw [htext, String.toList_append, String.toList_append, List.length_append, List.length_append]
    have hopen : "(".toList.length = 1 := rfl
    have hclose : ")".toList.length = 1 := rfl
    omega

/-- The mark of a nullable name costs no more than a bar. -/
theorem length_nullable_le (name : String) :
    (text (.named name true)).toList.length + blankNames (.named name true) ≤
      (memberText (.named name false)).toList.length + 1 + blankNames (.named name false) := by
  have hmarked := length_markedName_le name true
  have hname : memberText (.named name false) = name := rfl
  have hcost : blankNames (.named name true) = blankNames (.named name false) := rfl
  rw [text, hname, hcost]
  omega

theorem length_pair (a b : TypeHint) :
    ((String.singleton '|').intercalate ([a, b].map memberText)).toList.length =
      (memberText a).toList.length + 1 + (memberText b).toList.length := by
  rw [toList_intercalate]
  simp [List.intercalate_cons_cons]
  omega

/-- **No text of a hint is shorter than the printed one**, and each name that begins with a blank
makes it longer. -/
theorem length_text_le {l : List Char} {hint : TypeHint} (h : WritesCore l hint) :
    hint.text.toList.length + blankNames hint ≤ l.length := by
  cases h with
  | @nullable _ name hname =>
    have hlength := hname.length_le true
    have hmarked := length_markedName_le name true
    rw [text, List.length_cons]
    omega
  | name hname => exact hname.length_le false
  | intersection hnames => exact hnames.length_le
  | @union _ members _ hmany hlisted hmeans =>
    obtain ⟨pieces, rfl, hwrites⟩ := hlisted
    have hrow := length_row_le memberText blankNames '|' (by rintro rfl; simp at hmany)
      (hwrites.imp fun _ _ h => h.length_le)
    -- A union that comes to one name is printed without the other, `null`, and the bar.
    cases hmeans with
    | @nullFirst a b _ =>
      have hmarked := length_nullable_le b
      rw [length_pair] at hrow
      simp only [List.map_cons, List.map_nil, List.sum_cons, List.sum_nil] at hrow
      omega
    | @nullSecond a b _ _ =>
      have hmarked := length_nullable_le a
      rw [length_pair] at hrow
      simp only [List.map_cons, List.map_nil, List.sum_cons, List.sum_nil] at hrow
      omega
    | union _ =>
      rw [text, unionTexts_eq_map, blankNames, leaves, blankNames_members]
      exact hrow

theorem text_shown (hint : TypeHint) : hint.shown.text = hint.text := by
  cases hint with
  | named name nullable =>
    rw [shown, text, text, markedName, markedName, Bool.and_assoc, Bool.and_self]
  | union | intersection => rfl

theorem blankNames_shown (hint : TypeHint) : blankNames hint.shown = blankNames hint := by
  cases hint <;> rfl

/-- **What is read comes back from its printed text**, without a mark that does not show, iff none
of its names begins with a blank. -/
theorem parse_text_iff {s : String} {hint : TypeHint} (h : parse s = .ok hint) :
    parse hint.text = .ok hint.shown ↔ ∀ name ∈ hint.leaves, beginsBlank name = false := by
  refine ⟨fun hback => ?_, (readable_of_parse h).parse_text⟩
  have hlength := length_text_le (parse_eq_ok_iff_writesCore.1 hback)
  have htrim := (Text.padded_trimChars hint.text.toList).length_le
  rw [text_shown, blankNames_shown] at hlength
  have hnone : blankNames hint = 0 := by omega
  simpa using List.countP_eq_zero.1 hnone

namespace Sample

/-- `null` beside an intersection. -/
def nullOrBoth : TypeHint := .union [allOf ["A", "B"], .named "null" false]

/-- A union comes back. -/
theorem nullOrBoth_comesBack : parse "(\\A & B) | null" = .ok nullOrBoth ∧
    parse nullOrBoth.text = .ok nullOrBoth.shown := by
  have hparse : parse "(\\A & B) | null" = .ok nullOrBoth := rfl
  refine ⟨hparse, (parse_text_iff hparse).2 ?_⟩
  intro name hname
  have hmem : name ∈ ["A", "B", "null"] := hname
  simp only [List.mem_cons, List.not_mem_nil, or_false] at hmem
  obtain rfl | rfl | rfl := hmem <;> rfl

/-- A name that begins with a no-break space. -/
def spaced : TypeHint := .named "\u00a0A" false

/-- **A name behind `\` keeps its blank, and loses it when it is printed.** -/
theorem spaced_lost : parse "\\\u00a0A" = .ok spaced ∧ spaced.text = "\u00a0A" ∧
    parse spaced.text = .ok (.named "A" false) ∧ parse spaced.text ≠ .ok spaced.shown := by
  have hback : parse spaced.text = .ok (.named "A" false) := rfl
  refine ⟨rfl, rfl, hback, ?_⟩
  rw [hback]
  simp [spaced, shown]

end Sample

end LazyClasses.TypeHint
