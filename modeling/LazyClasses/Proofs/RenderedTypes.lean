import LazyClasses.Proofs.PrintedTypes
import LazyClasses.Proofs.RenderedLeaves
import Mathlib.Data.List.Permutation
/-! # Rendered types are read again

What a hint is rendered to for another scope is PHP syntax, and it is read as the hint that is
meant.

* `outside`: the hint as it is meant outside the scope. `self` and `parent` are the classes they
  stand for, and members are in the order of their texts.
* `renderName_full`: the text of one name spells what the name stands for.
* `ReadMember.rendered`, `render_allOf`: the same of members and of intersections.
* `meansUnion_outside`: a union stays a union. It would not if rendering put a name beside `null`
  that was not there before.
* `parse_render`: the rendered hint is read as the hint outside the scope. -/

namespace LazyClasses

namespace ClassScope

variable {scope : ClassScope} {name : String}

/-- The classes that `self` and `parent` stand for. -/
def names (scope : ClassScope) : List String := scope.self.toList ++ scope.parent.toList

/-- Only a keyword can be without a referent. -/
theorem resolve_eq_none (h : scope.resolve name = none) :
    Text.lower name = "self" ∧ scope.self = none ∨
      Text.lower name = "parent" ∧ scope.parent = none := by
  unfold resolve at h
  split_ifs at h with hself hparent
  · exact .inl ⟨Text.same_iff.1 hself, h⟩
  · exact .inr ⟨Text.same_iff.1 hparent, h⟩

theorem resolve_eq_some {cls : String} (h : scope.resolve name = some cls) :
    cls ∈ scope.names ∨ cls = name := by
  unfold resolve at h
  rw [names, List.mem_append, Option.mem_toList, Option.mem_toList]
  split_ifs at h
  · exact .inl (.inl h)
  · exact .inl (.inr h)
  · exact .inr (Option.some.inj h).symm

end ClassScope

namespace TypeHint

open Text (Tight isBlank words)

variable {scope : ClassScope}

/-- A class name that can stand in a type: it is read as itself, and it is not `null`. -/
structure NamesClass (name : String) : Prop where
  reads : parseName name.toList = some name
  notNull : Text.same name "null" = false

/-- What a name stands for outside the scope; a keyword without a referent stays, in lower case. -/
def outsideName (scope : ClassScope) (name : String) : String :=
  (scope.resolve name).getD (Text.lower name)

/-- How a member is rendered among others. -/
def renderedMember (scope : ClassScope) (member : TypeHint) : String :=
  if member.isIntersection then "(" ++ render scope .full member ++ ")"
  else render scope .full member

/-- The items in the order of their texts. -/
def inOrder {α : Type} (items : List (String × α)) : List (String × α) :=
  items.mergeSort fun a b => decide (a.1 ≤ b.1)

/-- What the names stand for outside the scope, each with its text. -/
def outsideNames (scope : ClassScope) (names : List String) : List (String × String) :=
  names.map fun name => (renderedMember scope (.named name false), outsideName scope name)

mutual

/-- **The hint as it is meant outside the scope**: each name is what it stands for, members are in
the order of their texts, and a mark that does not show is gone. -/
def outside (scope : ClassScope) : TypeHint → TypeHint
  | .named name nullable => .named (outsideName scope name) (nullable && showsMark name)
  | .union members => .union ((inOrder (outsideAll scope members)).map Prod.snd)
  | .intersection members => .intersection ((inOrder (outsideAll scope members)).map Prod.snd)

/-- The members outside the scope, each with its text. -/
def outsideAll (scope : ClassScope) : List TypeHint → List (String × TypeHint)
  | [] => []
  | member :: members =>
    (renderedMember scope member, outside scope member) :: outsideAll scope members

end

/-- What may stand as a name in a rendered type: a type of the language, a keyword, or `\` and a
name that does not begin with `\`. -/
inductive IsLeaf (scope : ClassScope) : String → Prop
  | builtin {name} : isBuiltin name = true → IsLeaf scope name
  | static {name} : Text.same name "static" = true → IsLeaf scope name
  | self : scope.self = none → IsLeaf scope "self"
  | parent : scope.parent = none → IsLeaf scope "parent"
  | qualified {name} : name.toList.head? ≠ some '\\' → IsLeaf scope ("\\" ++ name)

/-! ### Names -/

/-- The name is a type of the language, or `static`. -/
def IsOwn (name : String) : Prop := isBuiltin name = true ∨ Text.same name "static" = true

theorem isOwn_iff {name : String} :
    IsOwn name ↔ ∃ own ∈ "static" :: builtinNames, Text.lower name = Text.lower own := by
  rw [IsOwn, isBuiltin, Text.memIgnoreCase_iff, Text.same_iff, or_comm, List.exists_mem_cons_iff]

theorem IsOwn.resolve {name : String} (h : IsOwn name) : scope.resolve name = some name := by
  obtain ⟨own, hown, hlower⟩ := isOwn_iff.1 h
  have hkeyword : ∀ own ∈ "static" :: builtinNames,
      Text.same own "self" = false ∧ Text.same own "parent" = false := by decide
  have hsame (keyword : String) : Text.same name keyword = Text.same own keyword := by
    rw [Text.same, hlower, Text.same]
  rw [ClassScope.resolve, hsame, hsame, (hkeyword own hown).1, (hkeyword own hown).2]
  rfl

/-- A type of the language and `static` stand as they are. -/
theorem renderName_of_own {name own : String} (hbare : ClassName.bare name = own) (h : IsOwn own) :
    renderName scope .full name = some own := by
  rw [renderName, hbare, h.resolve]
  rcases h with h | h <;> simp [h]

/-- What stands for a class is made absolute. -/
theorem renderName_of_not_own {name other cls : String} (hbare : ClassName.bare name = other)
    (h : ¬IsOwn other) (hcls : scope.resolve other = some cls) :
    renderName scope .full name = some ("\\" ++ cls) := by
  rw [IsOwn, not_or, Bool.not_eq_true, Bool.not_eq_true] at h
  rw [renderName, hbare, hcls]
  simp [h]

theorem toLower_of_isBlank {c : Char} (h : isBlank c = true) : c.toLower = c := by
  simp only [isBlank, Bool.or_eq_true, Bool.and_eq_true, decide_eq_true_eq, beq_iff_eq] at h
  refine Text.toLower_eq_self ?_
  omega

theorem IsOwn.beginsBlank {name : String} (h : IsOwn name) : beginsBlank name = false := by
  obtain ⟨own, hown, hlower⟩ := isOwn_iff.1 h
  have hfirst : ∀ own ∈ "static" :: builtinNames,
      (Text.lower own).toList.head?.any isBlank = false := by decide
  have hname := hfirst own hown
  rw [← hlower, Text.toList_lower, List.head?_map, Option.any_map] at hname
  rw [TypeHint.beginsBlank]
  cases hhead : name.toList.head? with
  | none => rfl
  | some c =>
    rw [hhead] at hname
    rw [Option.any_some, Bool.eq_false_iff]
    intro hblank
    have hlow : isBlank c.toLower = false := hname
    rw [toLower_of_isBlank hblank, hblank] at hlow
    cases hlow

/-- A name that is read as itself spells itself. -/
theorem spells_of_parseName {name : String} (h : parseName name.toList = some name) :
    Spells name name := by
  have hwrites := (parseName_eq_some_iff _ _).1 h
  refine ⟨?_, hwrites⟩
  rcases hwrites.padded with hpadded | hpadded
  · exact hpadded.tight
  · exact absurd hpadded.length_le (Nat.not_succ_le_self _)

theorem NamesClass.readName {name : String} (h : NamesClass name) : ReadName name :=
  (spells_of_parseName h.reads).writes.readName

/-- Behind `\` a name may begin with a blank. -/
theorem ReadName.spells_qualified {name : String} (h : ReadName name) :
    Spells ("\\" ++ name) name := by
  have htext : ("\\" ++ name).toList = '\\' :: name.toList := String.toList_append
  have htight : Tight ('\\' :: name.toList) := by
    refine ⟨fun c hc => ?_, fun c hc => h.last c ?_⟩
    · obtain rfl := Option.some.inj hc
      decide
    · rwa [List.getLast?_cons_of_ne_nil h.isName.ne_nil] at hc
  exact ⟨htext ▸ htight, h.isName, .inr (htext ▸ htight.padded)⟩

theorem ReadName.bare_eq {name : String} (h : ReadName name) : ClassName.bare name = name := by
  rw [← String.toList_inj, ClassName.toList_bare,
    ClassName.bareChars_of_head?_ne h.isName.head?_ne]

theorem ReadName.of_resolve {name cls : String} (hscope : ∀ cls ∈ scope.names, NamesClass cls)
    (h : ReadName name) (hcls : scope.resolve name = some cls) : ReadName cls := by
  rcases ClassScope.resolve_eq_some hcls with hmem | rfl
  · exact (hscope cls hmem).readName
  · exact h

/-- **The text of a name** spells what the name stands for. -/
theorem renderName_full {name : String} (hscope : ∀ cls ∈ scope.names, NamesClass cls)
    (h : ReadName name) : ∃ text, renderName scope .full name = some text ∧
      Spells text (outsideName scope name) ∧ IsLeaf scope text := by
  rw [outsideName]
  cases hcls : scope.resolve name with
  | none =>
    refine ⟨Text.lower name, by simp [renderName, h.bare_eq, hcls], ?_⟩
    rcases ClassScope.resolve_eq_none hcls with ⟨hlower, hnone⟩ | ⟨hlower, hnone⟩ <;> rw [hlower]
    · exact ⟨spells_of_parseName rfl, .self hnone⟩
    · exact ⟨spells_of_parseName rfl, .parent hnone⟩
  | some cls =>
    -- Only names of the language itself stand without `\`, and none of them begins with a blank.
    by_cases hown : IsOwn name
    · obtain rfl : name = cls := Option.some.inj (hown.resolve ▸ hcls)
      exact ⟨name, renderName_of_own h.bare_eq hown, h.spells hown.beginsBlank,
        hown.elim .builtin .static⟩
    · have hread := h.of_resolve hscope hcls
      exact ⟨"\\" ++ cls, renderName_of_not_own h.bare_eq hown hcls, hread.spells_qualified,
        .qualified hread.isName.head?_ne⟩

theorem ReadName.of_renderName {name text : String} (hscope : ∀ cls ∈ scope.names, NamesClass cls)
    (h : ReadName name) (htext : renderName scope .full name = some text) :
    Spells text (outsideName scope name) ∧ IsLeaf scope text := by
  obtain ⟨found, hfound, hspells⟩ := renderName_full hscope h
  rwa [Option.some.inj (htext.symm.trans hfound)]

/-! ### Members -/

theorem map_fst_inOrder {α : Type} (items : List (String × α)) :
    (inOrder items).map Prod.fst = sortTexts (items.map Prod.fst) :=
  List.map_mergeSort fun _ _ _ _ => rfl

theorem inOrder_map {α β : Type} (f : α → β) (items : List (String × α)) :
    inOrder (items.map fun item => (item.1, f item.2)) =
      (inOrder items).map fun item => (item.1, f item.2) := by
  rw [inOrder, inOrder, List.map_mergeSort]
  exact fun _ _ _ _ => rfl

theorem inOrder_perm {α : Type} (items : List (String × α)) : (inOrder items).Perm items :=
  List.mergeSort_perm items _

theorem outsideAll_eq_map (members : List TypeHint) : outsideAll scope members =
    members.map fun member => (renderedMember scope member, outside scope member) := by
  induction members with
  | nil => rfl
  | cons member members ih => rw [outsideAll, ih]; rfl

theorem outsideAll_names : ∀ names : List String,
    outsideAll scope (names.map (.named · false)) =
      (outsideNames scope names).map fun item => (item.1, .named item.2 false)
  | [] => rfl
  | name :: names => by
    rw [List.map_cons, outsideAll, outsideAll_names names, outside, Bool.false_and, outsideNames,
      outsideNames, List.map_cons, List.map_cons]

/-- The member adds its text to those around it. -/
def AddsText (scope : ClassScope) (member : TypeHint) : Prop :=
  contribution scope .full (render scope .full member) member = [renderedMember scope member]

theorem renderMembers_eq_map : ∀ {members : List TypeHint},
    (∀ member ∈ members, AddsText scope member) →
    renderMembers scope .full members = members.map (renderedMember scope)
  | [], _ => rfl
  | member :: members, h => by
    rw [renderMembers, h member List.mem_cons_self,
      renderMembers_eq_map fun m hm => h m (List.mem_cons_of_mem _ hm)]
    rfl

theorem sortTexts_renderMembers {members : List TypeHint}
    (h : ∀ member ∈ members, AddsText scope member) :
    sortTexts (renderMembers scope .full members) =
      (inOrder (outsideAll scope members)).map Prod.fst := by
  rw [map_fst_inOrder, renderMembers_eq_map h, outsideAll_eq_map, List.map_map]
  rfl

theorem renderedMember_named (name : String) (nullable : Bool) :
    renderedMember scope (.named name nullable) = render scope .full (.named name nullable) :=
  if_neg Bool.false_ne_true

theorem renderedMember_allOf (names : List String) :
    renderedMember scope (allOf names) = "(" ++ render scope .full (allOf names) ++ ")" :=
  if_pos rfl

theorem addsText_named {name text : String} (h : renderName scope .full name = some text) :
    AddsText scope (.named name false) ∧ renderedMember scope (.named name false) = text := by
  have hrender : renderedMember scope (.named name false) = text := by
    rw [renderedMember_named, render, h]
    simp only
    rw [mark, Bool.false_and, Bool.false_and, if_neg Bool.false_ne_true, String.empty_append]
  rw [AddsText, contribution, h, hrender]
  exact ⟨rfl, rfl⟩

/-- A group is left out only if nothing is in it. -/
theorem addsText_allOf {names : List String} (h : render scope .full (allOf names) ≠ "") :
    AddsText scope (allOf names) := by
  rw [AddsText, renderedMember_allOf]
  exact if_neg (mt String.isEmpty_iff.1 h)

/-- Texts that spell their items do so in any order. -/
theorem forall₂_inOrder {α : Type} {R : String → α → Prop} {items : List (String × α)}
    (h : ∀ item ∈ items, R item.1 item.2) :
    List.Forall₂ R ((inOrder items).map Prod.fst) ((inOrder items).map Prod.snd) := by
  rw [List.forall₂_map_left_iff, List.forall₂_map_right_iff, List.forall₂_same]
  exact fun item hitem => h item ((inOrder_perm items).mem_iff.1 hitem)

section Read

variable (hscope : ∀ cls ∈ scope.names, NamesClass cls)

include hscope

theorem ReadName.rendered {name : String} (h : ReadName name) :
    AddsText scope (.named name false) ∧
      Spells (renderedMember scope (.named name false)) (outsideName scope name) := by
  obtain ⟨text, htext, hspells, -⟩ := renderName_full hscope h
  obtain ⟨hadds, hrender⟩ := addsText_named htext
  exact ⟨hadds, hrender ▸ hspells⟩

/-- **An intersection** is rendered as names in a row. -/
theorem render_allOf {names : List String} (h : ∀ name ∈ names, ReadName name) :
    ∃ texts meant, render scope .full (allOf names) = "&".intercalate texts ∧
      outside scope (allOf names) = allOf meant ∧ meant.length = names.length ∧
      List.Forall₂ Spells texts meant := by
  have hadds : ∀ member ∈ names.map (.named · false), AddsText scope member := by
    rw [List.forall_mem_map]
    exact fun name hname => ((h name hname).rendered hscope).1
  have hspells : ∀ item ∈ outsideNames scope names, Spells item.1 item.2 := by
    rw [outsideNames, List.forall_mem_map]
    intro name hname
    dsimp only
    exact ((h name hname).rendered hscope).2
  have hall : inOrder (outsideAll scope (names.map (.named · false))) =
      (inOrder (outsideNames scope names)).map fun item => (item.1, .named item.2 false) := by
    rw [outsideAll_names, inOrder_map fun name => named name false]
  refine ⟨(inOrder (outsideNames scope names)).map Prod.fst,
    (inOrder (outsideNames scope names)).map Prod.snd, ?_, ?_, ?_, forall₂_inOrder hspells⟩
  · rw [allOf, render, sortTexts_renderMembers hadds, hall, List.map_map]
    rfl
  · rw [allOf, outside, hall, allOf, List.map_map, List.map_map]
    rfl
  · rw [List.length_map, (inOrder_perm _).length_eq, outsideNames, List.length_map]

/-- **A member** is rendered as a text of what it is meant for. -/
theorem ReadMember.rendered {member : TypeHint} (h : ReadMember member) :
    AddsText scope member ∧
      SpellsMember (renderedMember scope member) (outside scope member) := by
  cases h with
  | name hname =>
    obtain ⟨hadds, hspells⟩ := hname.rendered hscope
    exact ⟨hadds, hspells.spellsMember⟩
  | @group names hmany hnames =>
    obtain ⟨texts, meant, hrender, houtside, hlength, hspells⟩ := render_allOf hscope hnames
    have hread := parse_names (hlength ▸ hmany) hspells
    -- An empty text could not be read, so the group is not left out.
    have hfilled : render scope .full (allOf names) ≠ "" := by
      rw [hrender]
      intro hempty
      rw [hempty] at hread
      cases hread
    refine ⟨addsText_allOf hfilled, ?_⟩
    rw [renderedMember_allOf, hrender, houtside]
    exact spellsMember_group (hlength ▸ hmany) hspells

/-! ### Unions -/

theorem same_null_of_outsideName {name : String}
    (h : Text.same (outsideName scope name) "null" = true) : Text.same name "null" = true := by
  unfold outsideName at h
  cases hcls : scope.resolve name with
  | none =>
    rw [hcls, Option.getD_none] at h
    rcases ClassScope.resolve_eq_none hcls with ⟨hlower, -⟩ | ⟨hlower, -⟩ <;> rw [hlower] at h
    · exact absurd h (by decide)
    · exact absurd h (by decide)
  | some cls =>
    rw [hcls, Option.getD_some] at h
    rcases ClassScope.resolve_eq_some hcls with hmem | rfl
    · rw [(hscope cls hmem).notNull] at h
      cases h
    · exact h

/-- No name comes to stand beside `null`. -/
theorem nullBeside_of_outsideName {a b : String}
    (h : NullBeside (outsideName scope a) (outsideName scope b)) : NullBeside a b := by
  refine ⟨same_null_of_outsideName hscope h.1, ?_⟩
  rw [Bool.eq_false_iff]
  intro hmixed
  have hown : IsOwn b := isOwn_iff.2 ⟨"mixed", by decide, Text.same_iff.1 hmixed⟩
  have hb := h.2
  rw [outsideName, hown.resolve, Option.getD_some, hmixed] at hb
  cases hb

omit hscope in
theorem ReadMember.eq_named_of_outside {member : TypeHint} {a : String} (h : ReadMember member)
    (hout : outside scope member = .named a false) :
    ∃ name, member = .named name false ∧ outsideName scope name = a := by
  cases h with
  | @name name _ =>
    rw [outside, named.injEq] at hout
    exact ⟨name, rfl, hout.1⟩
  | group =>
    rw [allOf, outside] at hout
    cases hout

omit hscope in
theorem eq_pair_of_outside {members : List TypeHint} {a b : String}
    (h : ∀ member ∈ members, ReadMember member)
    (hout : members.map (outside scope) = [.named a false, .named b false]) :
    ∃ c d, members = [.named c false, .named d false] ∧ outsideName scope c = a ∧
      outsideName scope d = b := by
  obtain ⟨m, ms, rfl, hm, hout⟩ := List.map_eq_cons_iff.1 hout
  obtain ⟨n, ns, rfl, hn, hout⟩ := List.map_eq_cons_iff.1 hout
  obtain rfl := List.map_eq_nil_iff.1 hout
  obtain ⟨c, rfl, hc⟩ := (h m (by simp)).eq_named_of_outside hm
  obtain ⟨d, rfl, hd⟩ := (h n (by simp)).eq_named_of_outside hn
  exact ⟨c, d, rfl, hc, hd⟩

/-- **A union stays a union**, in whatever order its members come to stand. -/
theorem meansUnion_outside {members : List TypeHint} (h : ∀ member ∈ members, ReadMember member)
    (hmeans : MeansUnion members (.union members)) :
    MeansUnion ((inOrder (outsideAll scope members)).map Prod.snd)
      (.union ((inOrder (outsideAll scope members)).map Prod.snd)) := by
  have hno : ∀ c d, members = [.named c false, .named d false] →
      ¬NullBeside c d ∧ ¬NullBeside d c := by
    cases hmeans with
    | union hno => exact hno
  refine .union fun a b hpair => ?_
  have hperm : (members.map (outside scope)).Perm [.named a false, .named b false] := by
    have hall := (inOrder_perm (outsideAll scope members)).map Prod.snd
    rw [hpair, outsideAll_eq_map, List.map_map] at hall
    exact hall.symm
  -- Sorting may have put the second member first.
  rcases List.perm_pair.1 hperm with hout | hout
  · obtain ⟨c, d, hmembers, rfl, rfl⟩ := eq_pair_of_outside h hout
    exact (hno c d hmembers).imp (mt (nullBeside_of_outsideName hscope))
      (mt (nullBeside_of_outsideName hscope))
  · obtain ⟨c, d, hmembers, rfl, rfl⟩ := eq_pair_of_outside h hout
    exact (hno c d hmembers).symm.imp (mt (nullBeside_of_outsideName hscope))
      (mt (nullBeside_of_outsideName hscope))

/-! ### Hints -/

/-- **A hint that is read** is rendered as a text of what it is meant for. -/
theorem Readable.parse_rendered {hint : TypeHint} (h : Readable hint) :
    parse (render scope .full hint) = .ok (outside scope hint) := by
  cases h with
  | @named name nullable hname =>
    obtain ⟨text, htext, hspells, -⟩ := renderName_full hscope hname
    rw [render, htext, outside]
    simp only [mark, decide_true, Bool.and_true]
    cases nullable && showsMark name with
    | true => exact hspells.parse_marked
    | false =>
      rw [if_neg Bool.false_ne_true, String.empty_append]
      exact hspells.parse
  | @intersection names hmany hnames =>
    obtain ⟨texts, meant, hrender, houtside, hlength, hspells⟩ := render_allOf hscope hnames
    rw [hrender, houtside]
    exact parse_names (hlength ▸ hmany) hspells
  | @union members hmany hmembers hmeans =>
    have hadds : ∀ member ∈ members, AddsText scope member :=
      fun member hmember => ((hmembers member hmember).rendered hscope).1
    have hspells : ∀ item ∈ outsideAll scope members, SpellsMember item.1 item.2 := by
      rw [outsideAll_eq_map, List.forall_mem_map]
      intro member hmember
      dsimp only
      exact ((hmembers member hmember).rendered hscope).2
    rw [render, sortTexts_renderMembers hadds, outside]
    refine parse_members ?_ (forall₂_inOrder hspells) (meansUnion_outside hscope hmembers hmeans)
    rwa [List.length_map, (inOrder_perm _).length_eq, outsideAll_eq_map, List.length_map]

omit hscope in
theorem ReadMember.readName {member : TypeHint} (h : ReadMember member) :
    ∀ name ∈ member.leaves, ReadName name := by
  cases h with
  | name hname => exact fun _ h => List.mem_singleton.1 h ▸ hname
  | group _ hnames => rwa [leaves_allOf]

omit hscope in
theorem Readable.readName {hint : TypeHint} (h : Readable hint) :
    ∀ name ∈ hint.leaves, ReadName name := by
  cases h with
  | named hname => exact fun _ h => List.mem_singleton.1 h ▸ hname
  | intersection _ hnames => rwa [leaves_allOf]
  | union _ hmembers _ =>
    intro name hname
    rw [leaves, leavesAll_eq_flatMap] at hname
    obtain ⟨member, hmember, hname⟩ := List.mem_flatMap.1 hname
    exact (hmembers member hmember).readName name hname

/-- **The names in the rendered text** are leaves. -/
theorem Readable.isLeaf {hint : TypeHint} (h : Readable hint) :
    ∀ leaf ∈ words isPunctuation (render scope .full hint).toList,
      IsLeaf scope (String.ofList leaf) := by
  have hcuts : Cuts isPunctuation .full := ⟨rfl, rfl, rfl, rfl, fun _ => rfl⟩
  have huncut : Uncut isPunctuation scope .full hint.leaves := by
    intro name hname text htext
    have hspells := ((h.readName name hname).of_renderName hscope htext).1
    exact ⟨hspells.writes.ne_nil, hspells.writes.isPunctuation_eq_false⟩
  intro leaf hleaf
  have hmem := (words_render hcuts hint huncut).mem_iff.1 hleaf
  obtain ⟨text, htext, rfl⟩ := List.mem_map.1 hmem
  obtain ⟨name, hname, htext⟩ := List.mem_filterMap.1 htext
  rw [String.ofList_toList]
  exact ((h.readName name hname).of_renderName hscope htext).2

end Read

/-- **A rendered hint is read as the hint outside the scope**, and each of its names is a type of
the language, a keyword, or stands behind one `\`. -/
theorem parse_render {s : String} {hint : TypeHint} (h : parse s = .ok hint)
    (hscope : ∀ cls ∈ scope.names, NamesClass cls) :
    parse (hint.render scope .full) = .ok (hint.outside scope) ∧
      ∀ leaf ∈ words isPunctuation (hint.render scope .full).toList,
        IsLeaf scope (String.ofList leaf) :=
  ⟨(readable_of_parse h).parse_rendered hscope, (readable_of_parse h).isLeaf hscope⟩

namespace Sample

/-- Inside the class `App\User`, which has no parent. -/
def userScope : ClassScope := ⟨some "App\\User", none⟩

/-- A union of keywords, a group and `null`. -/
def keywords : TypeHint :=
  .union [.named "Parent" false, allOf ["self", "Countable"], .named "null" false]

/-- Three members, none of which stays where it is. -/
theorem keywords_rendered : parse "Parent|(self&\\Countable)|null" = .ok keywords ∧
    (∀ cls ∈ userScope.names, NamesClass cls) ∧
    parse (keywords.render userScope .full) = .ok (keywords.outside userScope) ∧
    ∀ leaf ∈ words isPunctuation (keywords.render userScope .full).toList,
      IsLeaf userScope (String.ofList leaf) := by
  have hparse : parse "Parent|(self&\\Countable)|null" = .ok keywords := rfl
  have hscope : ∀ cls ∈ userScope.names, NamesClass cls := by
    intro cls hcls
    obtain rfl : cls = "App\\User" := List.mem_singleton.1 hcls
    exact ⟨rfl, by decide⟩
  exact ⟨hparse, hscope, parse_render hparse hscope⟩

end Sample

end TypeHint

end LazyClasses
