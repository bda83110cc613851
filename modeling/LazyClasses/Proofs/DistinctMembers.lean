import LazyClasses.Proofs.MemberOrder
import LazyClasses.Proofs.RenderedTypes
/-! # Members that become the same

The members of a union or intersection may be distinct as they are written and yet be the same
when they are rendered: `self` may stand beside the name of the class, and two groups may hold the
same names in another order.

* `Distinct`: texts that differ in more than the case of letters.
* `memberLists`: the members of each union and intersection of a hint. `DistinctMembers`: those
  that a text has are distinct.
* `SameReferent`: names that stand for the same. `Coincide`: names that stand for the same class,
  and groups whose names stand for the same in the order in which they are rendered.
* `PlainScope.lower_renderedMember_eq_iff`: members that are not written the same are rendered the
  same if they coincide.
* `PlainScope.distinctMembers_render_iff`: the members are found again in the rendered text, if no
  character in the name of a class holds members apart.
* `distinct_rendered_iff`: when members become the same. -/

namespace LazyClasses.TypeHint

/-! ### Members of hints and of texts -/

/-- The texts differ from one another in more than the case of ASCII letters. -/
def Distinct (texts : List String) : Prop := (texts.map Text.lower).Nodup

mutual

/-- The members of each union and intersection in the hint. -/
def memberLists : TypeHint → List (List TypeHint)
  | .named _ _ => []
  | .union members => members :: memberListsAll members
  | .intersection members => members :: memberListsAll members

/-- The members of each union and intersection in the hints. -/
def memberListsAll : List TypeHint → List (List TypeHint)
  | [] => []
  | member :: members => memberLists member ++ memberListsAll members

end

/-- The members of the union that the text is, if its parentheses balance; a text without bars
outside them is its only member. -/
def unionMembers (text : String) : Option (List String) :=
  (splitBars 0 text.toList).map (·.map String.ofList)

/-- The members of the intersection that the text is, with or without parentheses around it. -/
def intersectionMembers (text : String) : List String :=
  (Text.split (· == '&') ((groupOf text.toList).getD text.toList)).map String.ofList

/-- The members of the union, and those of each intersection in it, are distinct. -/
def DistinctMembers (text : String) : Prop :=
  ∃ members, unionMembers text = some members ∧ Distinct members ∧
    ∀ member ∈ members, Distinct (intersectionMembers member)

/-- The two names stand for the same: for themselves and are the same, or for the same class. -/
def SameReferent (scope : ClassScope) (a b : String) : Prop :=
  (IsOwn a ∧ IsOwn b ∧ Text.same a b = true) ∨
    (¬IsOwn a ∧ ¬IsOwn b ∧ Text.same (outsideName scope a) (outsideName scope b) = true)

/-- The text of a name where every keyword has a referent. -/
def nameText (scope : ClassScope) (name : String) : String :=
  if isBuiltin name || Text.same name "static" then name else "\\" ++ outsideName scope name

/-- The names stand in the order of their texts. -/
def Ordered (scope : ClassScope) (names : List String) : Prop :=
  names.Pairwise fun a b => nameText scope a ≤ nameText scope b

/-- The two members come to the same: names that stand for the same class, or groups whose names,
each put in order, stand for the same one by one. -/
inductive Coincide (scope : ClassScope) : TypeHint → TypeHint → Prop
  | names {a b : String} {m n : Bool} : ¬IsOwn a → ¬IsOwn b →
      Text.same (outsideName scope a) (outsideName scope b) = true →
        Coincide scope (.named a m) (.named b n)
  | groups {as bs : List TypeHint} {xs ys : List String} :
      xs.Perm (leaves (.intersection as)) → ys.Perm (leaves (.intersection bs)) →
        Ordered scope xs → Ordered scope ys → List.Forall₂ (SameReferent scope) xs ys →
          Coincide scope (.intersection as) (.intersection bs)

/-- No character that holds members apart. -/
def Plain (text : String) : Prop := ∀ c ∈ text.toList, c ∉ ['(', ')', '|', '&']

instance : DecidablePred Distinct := fun _ => inferInstanceAs (Decidable (List.Nodup _))

instance : DecidablePred Plain := fun text => List.decidableBAll _ text.toList

/-! ### Distinct texts -/

section Distinct

variable {texts texts' : List String}

theorem distinct_of_perm (h : texts.Perm texts') : Distinct texts ↔ Distinct texts' :=
  (h.map Text.lower).nodup_iff

theorem distinct_singleton (text : String) : Distinct [text] := List.nodup_singleton _

theorem distinct_map_iff {α : Type} {f : α → String} {l : List α} :
    Distinct (l.map f) ↔ l.Pairwise fun a b => Text.lower (f a) ≠ Text.lower (f b) := by
  rw [Distinct, List.map_map, List.Nodup, List.pairwise_map]
  rfl

end Distinct

/-! ### Texts in a row -/

section Plain

variable {text : String} {texts : List String}

theorem Plain.not_mem (h : Plain text) {c : Char} (hc : c ∈ ['(', ')', '|', '&']) :
    c ∉ text.toList := fun hmem => h c hmem hc

theorem Plain.append {text' : String} (h : Plain text) (h' : Plain text') :
    Plain (text ++ text') := by
  intro c hc
  rw [String.toList_append, List.mem_append] at hc
  rcases hc with hc | hc
  · exact h c hc
  · exact h' c hc

theorem Plain.barless (h : Plain text) : Barless text.toList := by
  intro c hc hmem
  refine h c hc ?_
  simp only [List.mem_cons, List.not_mem_nil, or_false] at hmem ⊢
  tauto

theorem Plain.lower (h : Plain text) : Plain (Text.lower text) := by
  intro c hc hmem
  rw [Text.toList_lower, List.mem_map] at hc
  obtain ⟨d, hd, rfl⟩ := hc
  have hletters : ∀ e ∈ ['(', ')', '|', '&'],
      ¬(65 ≤ e.toNat ∧ e.toNat ≤ 90) ∧ ¬(97 ≤ e.toNat ∧ e.toNat ≤ 122) := by simp
  obtain ⟨hupper, hlower⟩ := hletters _ hmem
  have hsame : d = d.toLower := (Text.toLower_eq_iff hupper hlower).1 rfl
  exact h d hd (hsame ▸ hmem)

theorem map_ofList_toList (texts : List String) :
    (texts.map String.toList).map String.ofList = texts := by
  simp

/-- Members in a row are found again. -/
theorem unionMembers_row (hne : texts ≠ []) (h : ∀ text ∈ texts, Closed text.toList) :
    unionMembers ("|".intercalate texts) = some texts := by
  have hrow : ("|".intercalate texts).toList = ['|'].intercalate (texts.map String.toList) :=
    toList_intercalate '|' texts
  rw [unionMembers, hrow, splitBars_intercalate (by simpa using hne) (List.forall_mem_map.2 h),
    Option.map_some, map_ofList_toList]

theorem unionMembers_of_closed (h : Closed text.toList) : unionMembers text = some [text] := by
  rw [unionMembers, h.splitBars_eq, Option.map_some, List.map_singleton, String.ofList_toList]

theorem toList_row (texts : List String) :
    ("&".intercalate texts).toList = ['&'].intercalate (texts.map String.toList) :=
  toList_intercalate '&' texts

theorem split_row (hne : texts ≠ []) (h : ∀ text ∈ texts, Plain text) :
    (Text.split (· == '&') ("&".intercalate texts).toList).map String.ofList = texts := by
  have hpieces : ∀ piece ∈ texts.map String.toList, '&' ∉ piece :=
    List.forall_mem_map.2 fun text htext => (h text htext).not_mem (by decide)
  rw [toList_row, Text.split_intercalate (by simpa using hne) hpieces, map_ofList_toList]

theorem barless_row (h : ∀ text ∈ texts, Plain text) :
    Barless ("&".intercalate texts).toList := by
  intro c hc
  rw [toList_row] at hc
  rcases Text.mem_intercalate hc with rfl | ⟨piece, hpiece, hc⟩
  · decide
  · obtain ⟨text, htext, rfl⟩ := List.mem_map.1 hpiece
    exact (h text htext).barless c hc

theorem intersectionMembers_row (hne : texts ≠ []) (h : ∀ text ∈ texts, Plain text) :
    intersectionMembers ("&".intercalate texts) = texts := by
  have hgroup : groupOf ("&".intercalate texts).toList = none :=
    groupOf_eq_none fun hmem => barless_row h _ hmem (by decide)
  rw [intersectionMembers, hgroup, Option.getD_none, split_row hne h]

theorem intersectionMembers_of_plain (h : Plain text) : intersectionMembers text = [text] := by
  have hrow := intersectionMembers_row (List.cons_ne_nil text []) (List.forall_mem_singleton.2 h)
  rwa [String.intercalate_singleton] at hrow

theorem toList_group (text : String) :
    ("(" ++ text ++ ")").toList = '(' :: (text.toList ++ [')']) := by
  rw [String.toList_append, String.toList_append]
  rfl

theorem intersectionMembers_group (hne : texts ≠ []) (h : ∀ text ∈ texts, Plain text) :
    intersectionMembers ("(" ++ "&".intercalate texts ++ ")") = texts := by
  have hgroup : groupOf ("(" ++ "&".intercalate texts ++ ")").toList =
      some ("&".intercalate texts).toList := groupOf_eq_some_iff.2 (toList_group _)
  rw [intersectionMembers, hgroup, Option.getD_some, split_row hne h]

theorem lower_group (text : String) :
    Text.lower ("(" ++ text ++ ")") = "(" ++ Text.lower text ++ ")" := by
  rw [Text.lower_append, Text.lower_append]
  rfl

theorem lower_row : ∀ texts : List String,
    Text.lower ("&".intercalate texts) = "&".intercalate (texts.map Text.lower)
  | [] => rfl
  | [text] => by simp
  | text :: next :: texts => by
    rw [List.map_cons, List.map_cons, String.intercalate_cons_cons, String.intercalate_cons_cons,
      Text.lower_append, Text.lower_append, lower_row (next :: texts), List.map_cons]
    rfl

/-- Rows of names are the same up to case only name by name. -/
theorem lower_row_inj {texts' : List String} (hne : texts ≠ []) (hne' : texts' ≠ [])
    (h : ∀ text ∈ texts, Plain text) (h' : ∀ text ∈ texts', Plain text) :
    Text.lower ("&".intercalate texts) = Text.lower ("&".intercalate texts') ↔
      texts.map Text.lower = texts'.map Text.lower := by
  rw [lower_row, lower_row]
  refine ⟨fun heq => ?_, congrArg _⟩
  have hread {texts : List String} (hne : texts ≠ []) (h : ∀ text ∈ texts, Plain text) :
      intersectionMembers ("&".intercalate (texts.map Text.lower)) = texts.map Text.lower :=
    intersectionMembers_row (by simpa using hne)
      (List.forall_mem_map.2 fun text htext => (h text htext).lower)
  rw [← hread hne h, heq, hread hne' h']

theorem distinctMembers_of_plain (h : Plain text) : DistinctMembers text := by
  refine ⟨[text], unionMembers_of_closed h.barless.closed, distinct_singleton text, ?_⟩
  rw [List.forall_mem_singleton, intersectionMembers_of_plain h]
  exact distinct_singleton text

theorem distinctMembers_row_iff (hne : texts ≠ []) (h : ∀ text ∈ texts, Plain text) :
    DistinctMembers ("&".intercalate texts) ↔ Distinct texts := by
  have hwhole := unionMembers_of_closed (barless_row h).closed
  constructor
  · rintro ⟨members, hmembers, -, hdistinct⟩
    rw [hwhole] at hmembers
    obtain rfl := Option.some.inj hmembers
    rw [List.forall_mem_singleton, intersectionMembers_row hne h] at hdistinct
    exact hdistinct
  · intro hdistinct
    refine ⟨_, hwhole, distinct_singleton _, ?_⟩
    rwa [List.forall_mem_singleton, intersectionMembers_row hne h]

theorem distinctMembers_union_iff (hne : texts ≠ []) (h : ∀ text ∈ texts, Closed text.toList) :
    DistinctMembers ("|".intercalate texts) ↔
      Distinct texts ∧ ∀ text ∈ texts, Distinct (intersectionMembers text) := by
  rw [DistinctMembers, unionMembers_row hne h]
  constructor
  · rintro ⟨members, hmembers, hdistinct⟩
    obtain rfl := Option.some.inj hmembers
    exact hdistinct
  · exact fun hdistinct => ⟨texts, rfl, hdistinct⟩

end Plain

/-! ### Rendered names -/

/-- Both keywords stand for a class with a plain name. -/
structure PlainScope (scope : ClassScope) : Prop where
  self : ∃ cls, scope.self = some cls ∧ Plain cls
  parent : ∃ cls, scope.parent = some cls ∧ Plain cls

/-- The texts of the names of a group, in order. -/
def groupTexts (scope : ClassScope) (names : List String) : List String :=
  sortTexts (names.map (nameText scope))

theorem plain_of_isName {name : String} (h : IsName name.toList) : Plain name := by
  intro c hc hmem
  have hpunctuation := h.isPunctuation_eq_false c hc
  simp only [List.mem_cons, List.not_mem_nil, or_false] at hmem
  rcases hmem with rfl | rfl | rfl | rfl <;> cases hpunctuation

section Names

variable {scope : ClassScope} {name : String} {names names' : List String}

theorem nameText_of_own (h : IsOwn name) : nameText scope name = name := by
  rw [nameText, if_pos]
  exact (Bool.or_eq_true _ _).mpr h

theorem nameText_of_not_own (h : ¬IsOwn name) :
    nameText scope name = "\\" ++ outsideName scope name := by
  rw [nameText, if_neg]
  rwa [Bool.or_eq_true]

/-- Names are rendered the same, up to the case of letters, if they stand for the same. -/
theorem lower_nameText_eq_iff {other : String} (h : ReadName name) (h' : ReadName other) :
    Text.lower (nameText scope name) = Text.lower (nameText scope other) ↔
      SameReferent scope name other := by
  -- No name begins with the separator that the texts of classes begin with.
  have hfirst {own : String} (hown : ReadName own) (cls : String) :
      Text.lower own ≠ Text.lower ("\\" ++ cls) := by
    intro heq
    have hhead := congrArg (fun text => text.toList.head?) heq
    simp only [Text.toList_lower, List.head?_map, String.toList_append] at hhead
    obtain ⟨c, hc, hlower⟩ := Option.map_eq_some_iff.1 hhead
    rw [ClassName.toLower_eq_separator_iff.1 hlower] at hc
    exact hown.isName.head?_ne hc
  rw [SameReferent, Text.same_iff, Text.same_iff]
  by_cases hown : IsOwn name <;> by_cases hown' : IsOwn other
  · simp [nameText_of_own hown, nameText_of_own hown', hown, hown']
  · simp [nameText_of_own hown, nameText_of_not_own hown', hfirst h, hown, hown']
  · simp [nameText_of_not_own hown, nameText_of_own hown', (hfirst h' _).symm, hown, hown']
  · rw [nameText_of_not_own hown, nameText_of_not_own hown', Text.lower_append, Text.lower_append,
      String.append_right_inj]
    simp [hown, hown']

theorem exists_ordered (scope : ClassScope) (names : List String) :
    ∃ xs : List String, xs.Perm names ∧ Ordered scope xs := by
  have htexts : (names.mergeSort fun a b => decide (nameText scope a ≤ nameText scope b)).map
      (nameText scope) = groupTexts scope names := List.map_mergeSort fun _ _ _ _ => rfl
  have hsorted : (groupTexts scope names).Pairwise (· ≤ ·) := sortTexts_sorted _
  rw [← htexts] at hsorted
  exact ⟨_, List.mergeSort_perm names _, List.pairwise_map.1 hsorted⟩

/-- The texts of names in order are in order. -/
theorem Ordered.map_nameText {xs : List String} (h : Ordered scope xs) (hperm : xs.Perm names) :
    xs.map (nameText scope) = groupTexts scope names := by
  have htexts : (xs.map (nameText scope)).Perm (groupTexts scope names) :=
    (hperm.map _).trans (sortTexts_perm _).symm
  exact htexts.eq_of_pairwise (fun _ _ _ _ => String.le_antisymm) (List.pairwise_map.2 h)
    (sortTexts_sorted _)

/-- The texts of two groups are the same if the names, put in order, stand for the same. -/
theorem lower_groupTexts_eq_iff {xs ys : List String} (h : ∀ name ∈ names, ReadName name)
    (h' : ∀ name ∈ names', ReadName name) (hx : Ordered scope xs) (hxs : xs.Perm names)
    (hy : Ordered scope ys) (hys : ys.Perm names') :
    (groupTexts scope names).map Text.lower = (groupTexts scope names').map Text.lower ↔
      List.Forall₂ (SameReferent scope) xs ys := by
  rw [← hx.map_nameText hxs, ← hy.map_nameText hys, List.map_map, List.map_map,
    ← List.forall₂_eq_eq_eq, List.forall₂_map_left_iff, List.forall₂_map_right_iff,
    List.forall₂_iff_zip, List.forall₂_iff_zip]
  refine and_congr_right fun _ => forall₃_congr fun x y hmem => ?_
  obtain ⟨hmemx, hmemy⟩ := List.of_mem_zip hmem
  exact lower_nameText_eq_iff (h x (hxs.mem_iff.1 hmemx)) (h' y (hys.mem_iff.1 hmemy))

/-- Groups coincide if their texts are the same up to the case of letters. -/
theorem coincide_groups_iff (h : ∀ name ∈ names, ReadName name)
    (h' : ∀ name ∈ names', ReadName name) : Coincide scope (allOf names) (allOf names') ↔
      (groupTexts scope names).map Text.lower = (groupTexts scope names').map Text.lower := by
  have hleaves (names : List String) :
      leaves (.intersection (names.map (.named · false))) = names := leaves_allOf names
  constructor
  · intro hcoincide
    cases hcoincide with
    | groups hxs hys hx hy hsame =>
      rw [hleaves] at hxs hys
      exact (lower_groupTexts_eq_iff h h' hx hxs hy hys).2 hsame
  · intro heq
    obtain ⟨xs, hxs, hx⟩ := exists_ordered scope names
    obtain ⟨ys, hys, hy⟩ := exists_ordered scope names'
    have hsame := (lower_groupTexts_eq_iff h h' hx hxs hy hys).1 heq
    rw [← hleaves names] at hxs
    rw [← hleaves names'] at hys
    exact .groups hxs hys hx hy hsame

variable (hscope : PlainScope scope)

include hscope

theorem PlainScope.resolve_eq (name : String) :
    scope.resolve name = some (outsideName scope name) := by
  obtain ⟨⟨cls, hcls, -⟩, ⟨base, hbase, -⟩⟩ := hscope
  rw [outsideName]
  cases hresolve : scope.resolve name with
  | some => rfl
  | none =>
    rcases ClassScope.resolve_eq_none hresolve with ⟨-, hnone⟩ | ⟨-, hnone⟩
    · rw [hcls] at hnone
      cases hnone
    · rw [hbase] at hnone
      cases hnone

theorem PlainScope.plain_outsideName (h : ReadName name) : Plain (outsideName scope name) := by
  obtain ⟨⟨cls, hcls, hplain⟩, ⟨base, hbase, hplain'⟩⟩ := hscope
  rw [outsideName, ClassScope.resolve]
  split_ifs
  · rwa [hcls]
  · rwa [hbase]
  · exact plain_of_isName h.isName

theorem PlainScope.renderName_eq (h : ReadName name) :
    renderName scope .full name = some (nameText scope name) := by
  by_cases hown : IsOwn name
  · rw [nameText_of_own hown, renderName_of_own h.bare_eq hown]
  · rw [nameText_of_not_own hown,
      renderName_of_not_own h.bare_eq hown (hscope.resolve_eq name)]

theorem PlainScope.plain_nameText (h : ReadName name) : Plain (nameText scope name) := by
  by_cases hown : IsOwn name
  · rw [nameText_of_own hown]
    exact plain_of_isName h.isName
  · rw [nameText_of_not_own hown]
    exact .append (by decide) (hscope.plain_outsideName h)

theorem PlainScope.plain_groupTexts (h : ∀ name ∈ names, ReadName name) :
    ∀ text ∈ groupTexts scope names, Plain text := by
  intro text htext
  rw [groupTexts, (sortTexts_perm _).mem_iff, List.mem_map] at htext
  obtain ⟨name, hname, rfl⟩ := htext
  exact hscope.plain_nameText (h name hname)

theorem PlainScope.addsText_name (h : ReadName name) : AddsText scope (.named name false) ∧
    renderedMember scope (.named name false) = nameText scope name :=
  addsText_named (hscope.renderName_eq h)

theorem PlainScope.renderMembers_names (h : ∀ name ∈ names, ReadName name) :
    renderMembers scope .full (names.map (.named · false)) = names.map (nameText scope) := by
  have hadds : ∀ member ∈ names.map (.named · false), AddsText scope member :=
    List.forall_mem_map.2 fun name hname => (hscope.addsText_name (h name hname)).1
  rw [renderMembers_eq_map hadds, List.map_map]
  refine List.map_congr_left fun name hname => ?_
  rw [Function.comp_apply]
  exact (hscope.addsText_name (h name hname)).2

theorem PlainScope.render_group (h : ∀ name ∈ names, ReadName name) :
    render scope .full (allOf names) = "&".intercalate (groupTexts scope names) := by
  rw [allOf, render, hscope.renderMembers_names h, groupTexts]

end Names

/-! ### Rendered members -/

section Members

variable {scope : ClassScope} {a b member : TypeHint} {members : List TypeHint}
  {names : List String}

theorem length_groupTexts (names : List String) :
    (groupTexts scope names).length = names.length := by
  rw [groupTexts, (sortTexts_perm _).length_eq, List.length_map]

theorem groupTexts_ne_nil (hmany : 2 ≤ names.length) : groupTexts scope names ≠ [] := by
  intro hnil
  have hlength := @length_groupTexts scope names
  rw [hnil, List.length_nil] at hlength
  omega

theorem memberLists_allOf (names : List String) :
    memberLists (allOf names) = [names.map (.named · false)] := by
  have hnone : ∀ names : List String, memberListsAll (names.map (.named · false)) = [] := by
    intro names
    induction names with
    | nil => rfl
    | cons name names ih => rw [List.map_cons, memberListsAll, ih, memberLists, List.nil_append]
  rw [allOf, memberLists, hnone]

theorem memberListsAll_eq_flatMap (members : List TypeHint) :
    memberListsAll members = members.flatMap memberLists := by
  induction members with
  | nil => rfl
  | cons member members ih => rw [memberListsAll, ih, List.flatMap_cons]

variable (hscope : PlainScope scope)

include hscope

theorem PlainScope.addsText (h : ReadMember member) : AddsText scope member := by
  cases h with
  | name hname => exact (hscope.addsText_name hname).1
  | @group names hmany hnames =>
    have hamp : '&' ∈ (render scope .full (allOf names)).toList := by
      rw [hscope.render_group hnames, toList_row]
      refine Text.mem_intercalate_sep '&' ?_
      rwa [List.length_map, length_groupTexts]
    have hne : render scope .full (allOf names) ≠ "" := by
      intro hempty
      rw [hempty] at hamp
      cases hamp
    exact addsText_allOf hne

theorem PlainScope.renderMembers_eq (h : ∀ member ∈ members, ReadMember member) :
    renderMembers scope .full members = members.map (renderedMember scope) :=
  renderMembers_eq_map fun member hmember => hscope.addsText (h member hmember)

theorem PlainScope.renderedMember_group (h : ∀ name ∈ names, ReadName name) :
    renderedMember scope (allOf names) =
      "(" ++ "&".intercalate (groupTexts scope names) ++ ")" := by
  rw [renderedMember_allOf, hscope.render_group h]

/-- **Members that are not the same as they are written are rendered the same if they coincide.** -/
theorem PlainScope.lower_renderedMember_eq_iff (ha : ReadMember a) (hb : ReadMember b)
    (hne : Text.lower (memberText a) ≠ Text.lower (memberText b)) :
    Text.lower (renderedMember scope a) = Text.lower (renderedMember scope b) ↔
      Coincide scope a b := by
  -- A group begins with a parenthesis, and no name holds one.
  have hgroup {name : String} (hname : ReadName name) (text : String) :
      Text.lower (nameText scope name) ≠ Text.lower ("(" ++ text ++ ")") := by
    intro heq
    refine (hscope.plain_nameText hname).lower.not_mem (c := '(') (by decide) ?_
    rw [heq, lower_group, toList_group]
    exact List.mem_cons_self
  cases ha with
  | @name x hx =>
    rw [(hscope.addsText_name hx).2]
    cases hb with
    | @name y hy =>
      rw [(hscope.addsText_name hy).2, lower_nameText_eq_iff hx hy]
      constructor
      · rintro (⟨-, -, hsame⟩ | ⟨hown, hown', hsame⟩)
        · exact absurd (Text.same_iff.1 hsame) hne
        · exact .names hown hown' hsame
      · rintro ⟨hown, hown', hsame⟩
        exact .inr ⟨hown, hown', hsame⟩
    | group _ hys =>
      rw [hscope.renderedMember_group hys]
      exact iff_of_false (hgroup hx _) nofun
  | @group xs hmany hxs =>
    rw [hscope.renderedMember_group hxs]
    cases hb with
    | @name y hy =>
      rw [(hscope.addsText_name hy).2]
      exact iff_of_false (hgroup hy _).symm nofun
    | @group ys hmany' hys =>
      rw [hscope.renderedMember_group hys, coincide_groups_iff hxs hys, lower_group,
        lower_group, String.append_left_inj, String.append_right_inj]
      exact lower_row_inj (groupTexts_ne_nil hmany) (groupTexts_ne_nil hmany')
        (hscope.plain_groupTexts hxs) (hscope.plain_groupTexts hys)

theorem PlainScope.distinct_renderMembers_iff (h : ∀ member ∈ members, ReadMember member)
    (hwritten : Distinct (members.map memberText)) :
    Distinct (renderMembers scope .full members) ↔
      members.Pairwise fun a b => ¬Coincide scope a b := by
  rw [distinct_map_iff] at hwritten
  rw [hscope.renderMembers_eq h, distinct_map_iff]
  constructor
  · intro hrendered
    refine (hwritten.and hrendered).imp_of_mem fun ha hb ⟨hne, hother⟩ hcoincide => ?_
    exact hother ((hscope.lower_renderedMember_eq_iff (h _ ha) (h _ hb) hne).2 hcoincide)
  · intro hnone
    refine (hwritten.and hnone).imp_of_mem fun ha hb ⟨hne, hother⟩ heq => ?_
    exact hother ((hscope.lower_renderedMember_eq_iff (h _ ha) (h _ hb) hne).1 heq)

end Members

/-! ### The rendered text -/

section Text

variable {scope : ClassScope} {member : TypeHint}

theorem ReadMember.of_memberLists {hint : TypeHint} (h : Readable hint) :
    ∀ members ∈ hint.memberLists, ∀ member ∈ members, ReadMember member := by
  have hgroup {names : List String} (hnames : ∀ name ∈ names, ReadName name) :
      ∀ members ∈ memberLists (allOf names), ∀ member ∈ members, ReadMember member := by
    rw [memberLists_allOf, List.forall_mem_singleton, List.forall_mem_map]
    exact fun name hname => .name (hnames name hname)
  cases h with
  | named => exact List.forall_mem_nil _
  | intersection _ hnames => exact hgroup hnames
  | union _ hmembers _ =>
    rw [memberLists, List.forall_mem_cons, memberListsAll_eq_flatMap]
    refine ⟨hmembers, fun members hmem => ?_⟩
    obtain ⟨member, hmember, hmem⟩ := List.mem_flatMap.1 hmem
    cases hmembers member hmember with
    | name => cases hmem
    | group _ hnames => exact hgroup hnames members hmem

variable (hscope : PlainScope scope)

include hscope

theorem PlainScope.distinct_group_iff {names : List String} (h : ∀ name ∈ names, ReadName name) :
    Distinct (groupTexts scope names) ↔
      ∀ members ∈ memberLists (allOf names), Distinct (renderMembers scope .full members) := by
  rw [memberLists_allOf, List.forall_mem_singleton, hscope.renderMembers_names h, groupTexts]
  exact distinct_of_perm (sortTexts_perm _)

theorem PlainScope.closed_renderedMember (h : ReadMember member) :
    Closed (renderedMember scope member).toList := by
  cases h with
  | name hname =>
    rw [(hscope.addsText_name hname).2]
    exact (hscope.plain_nameText hname).barless.closed
  | group _ hnames =>
    rw [hscope.renderedMember_group hnames, toList_group]
    exact closed_group (barless_row (hscope.plain_groupTexts hnames))

theorem PlainScope.distinct_renderedMember_iff (h : ReadMember member) :
    Distinct (intersectionMembers (renderedMember scope member)) ↔
      ∀ members ∈ memberLists member, Distinct (renderMembers scope .full members) := by
  cases h with
  | @name name hname =>
    rw [(hscope.addsText_name hname).2,
      intersectionMembers_of_plain (hscope.plain_nameText hname)]
    exact iff_of_true (distinct_singleton _) (List.forall_mem_nil _)
  | group hmany hnames =>
    rw [hscope.renderedMember_group hnames, intersectionMembers_group (groupTexts_ne_nil hmany)
      (hscope.plain_groupTexts hnames)]
    exact hscope.distinct_group_iff hnames

/-- **The members of the rendered text** are what the members of the hint add. -/
theorem PlainScope.distinctMembers_render_iff {hint : TypeHint} (h : Readable hint) :
    DistinctMembers (render scope .full hint) ↔
      ∀ members ∈ hint.memberLists, Distinct (renderMembers scope .full members) := by
  cases h with
  | @named name nullable hname =>
    have hmark : Plain (mark .full name nullable) := by
      rw [mark]
      split_ifs <;> decide
    rw [render, hscope.renderName_eq hname]
    exact iff_of_true (distinctMembers_of_plain (hmark.append (hscope.plain_nameText hname)))
      (List.forall_mem_nil _)
  | intersection hmany hnames =>
    rw [hscope.render_group hnames, distinctMembers_row_iff (groupTexts_ne_nil hmany)
      (hscope.plain_groupTexts hnames)]
    exact hscope.distinct_group_iff hnames
  | @union members hmany hmembers _ =>
    have hperm := sortTexts_perm (members.map (renderedMember scope))
    have hne : sortTexts (members.map (renderedMember scope)) ≠ [] := by
      intro hnil
      have hlength := hperm.length_eq
      rw [hnil, List.length_nil, List.length_map] at hlength
      omega
    have hclosed : ∀ text ∈ sortTexts (members.map (renderedMember scope)),
        Closed text.toList := by
      intro text htext
      obtain ⟨member, hmember, rfl⟩ := List.mem_map.1 (hperm.mem_iff.1 htext)
      exact hscope.closed_renderedMember (hmembers member hmember)
    rw [render, hscope.renderMembers_eq hmembers, distinctMembers_union_iff hne hclosed,
      distinct_of_perm hperm, memberLists, List.forall_mem_cons, hscope.renderMembers_eq hmembers,
      memberListsAll_eq_flatMap]
    refine and_congr_right fun _ => ⟨fun hall members' hmem => ?_, fun hall text htext => ?_⟩
    · obtain ⟨member, hmember, hmem⟩ := List.mem_flatMap.1 hmem
      have htext := hall _ (hperm.mem_iff.2 (List.mem_map_of_mem hmember))
      exact (hscope.distinct_renderedMember_iff (hmembers member hmember)).1 htext members' hmem
    · obtain ⟨member, hmember, rfl⟩ := List.mem_map.1 (hperm.mem_iff.1 htext)
      refine (hscope.distinct_renderedMember_iff (hmembers member hmember)).2 ?_
      exact fun members' hmem => hall members' (List.mem_flatMap.2 ⟨member, hmember, hmem⟩)

end Text

/-- **When members become the same.** If the members of each union and intersection of a hint are
distinct as they are written, they are distinct in the rendered text too if and only if no two of
them coincide. -/
theorem distinct_rendered_iff {s : String} {hint : TypeHint} (h : parse s = .ok hint)
    (hwritten : ∀ members ∈ hint.memberLists, Distinct (members.map memberText))
    {cls parent : String} (hcls : Plain cls) (hparent : Plain parent) :
    DistinctMembers (hint.render ⟨some cls, some parent⟩ .full) ↔
      ∀ members ∈ hint.memberLists,
        members.Pairwise fun a b => ¬Coincide ⟨some cls, some parent⟩ a b := by
  have hscope : PlainScope ⟨some cls, some parent⟩ := ⟨⟨cls, rfl, hcls⟩, ⟨parent, rfl, hparent⟩⟩
  have hread := readable_of_parse h
  rw [hscope.distinctMembers_render_iff hread]
  refine forall₂_congr fun members hmem => ?_
  exact hscope.distinct_renderMembers_iff (ReadMember.of_memberLists hread members hmem)
    (hwritten members hmem)

namespace Sample

/-- Inside the class `App\Child` with the parent `App\Base`. -/
def childScope : ClassScope := ⟨some "App\\Child", some "App\\Base"⟩

/-- `self|(parent&Countable)|null`. -/
def keywordsApart : TypeHint :=
  .union [.named "self" false, allOf ["parent", "Countable"], .named "null" false]

/-- The class, the group of its parent and `null` stay apart. -/
theorem keywords_stay_apart :
    parse "self|(parent&Countable)|null" = .ok keywordsApart ∧
    (∀ members ∈ keywordsApart.memberLists, Distinct (members.map memberText)) ∧
    Plain "App\\Child" ∧ Plain "App\\Base" ∧
    DistinctMembers (keywordsApart.render childScope .full) := by
  have hparse : parse "self|(parent&Countable)|null" = .ok keywordsApart := rfl
  have hwritten : ∀ members ∈ keywordsApart.memberLists, Distinct (members.map memberText) := by
    decide
  have hcls : Plain "App\\Child" := by decide
  have hparent : Plain "App\\Base" := by decide
  refine ⟨hparse, hwritten, hcls, hparent,
    (distinct_rendered_iff hparse hwritten hcls hparent).2 ?_⟩
  have hnull {a : String} {m : Bool} : ¬Coincide childScope (.named a m) (.named "null" false) := by
    intro hcoincide
    cases hcoincide with
    | names _ hown => exact hown (.inl (by decide))
  have hbase : ¬Coincide childScope (.named "parent" false) (.named "Countable" false) := by
    intro hcoincide
    cases hcoincide with
    | names _ _ hsame => exact absurd hsame (by decide)
  have hunion : [named "self" false, allOf ["parent", "Countable"], named "null" false].Pairwise
      fun a b => ¬Coincide childScope a b := by
    simp only [List.pairwise_cons, List.forall_mem_cons, List.not_mem_nil, false_imp_iff,
      implies_true, and_true, List.Pairwise.nil]
    exact ⟨⟨nofun, hnull⟩, nofun⟩
  have hgroup : [named "parent" false, named "Countable" false].Pairwise
      fun a b => ¬Coincide childScope a b := List.pairwise_pair.2 hbase
  exact List.forall_mem_cons.2 ⟨hunion, List.forall_mem_singleton.2 hgroup⟩

/-- The text is a hint whose members are distinct as they are written, and not distinct when they
are rendered. -/
def LosesMembers (text : String) (scope : ClassScope) : Prop :=
  ∃ hint, parse text = .ok hint ∧
    (∀ members ∈ hint.memberLists, Distinct (members.map memberText)) ∧
    ¬DistinctMembers (hint.render scope .full)

/-- A keyword beside the class it stands for, a group in two orders, and a class whose name is a
union itself. -/
theorem members_lost : LosesMembers "self|App\\Child|int" childScope ∧
    LosesMembers "(A&B)|(B&A)" childScope ∧
    LosesMembers "self" ⟨some "A|\\A", some "B"⟩ := by
  have hscope : PlainScope childScope := ⟨⟨_, rfl, by decide⟩, ⟨_, rfl, by decide⟩⟩
  have hkeyword : LosesMembers "self|App\\Child|int" childScope := by
    have hparse : parse "self|App\\Child|int" =
      .ok (.union [.named "self" false, .named "App\\Child" false, .named "int" false]) := rfl
    refine ⟨_, hparse, by decide, fun hdistinct => ?_⟩
    have hmembers := (hscope.distinctMembers_render_iff (readable_of_parse hparse)).1 hdistinct
    exact absurd (hmembers _ List.mem_cons_self) (by decide)
  have hgroups : LosesMembers "(A&B)|(B&A)" childScope := by
    have hparse : parse "(A&B)|(B&A)" = .ok (.union [allOf ["A", "B"], allOf ["B", "A"]]) := rfl
    have hsame : render childScope .full (allOf ["A", "B"]) =
        render childScope .full (allOf ["B", "A"]) :=
      Reorders.render_eq (.intersection (.swap _ _ []))
    refine ⟨_, hparse, by decide, fun hdistinct => ?_⟩
    have hread := readable_of_parse hparse
    have hmembers := (hscope.distinctMembers_render_iff hread).1 hdistinct _ List.mem_cons_self
    rw [hscope.renderMembers_eq (ReadMember.of_memberLists hread _ List.mem_cons_self),
      distinct_map_iff, List.pairwise_pair, renderedMember_allOf, renderedMember_allOf,
      hsame] at hmembers
    exact hmembers rfl
  have hname : LosesMembers "self" ⟨some "A|\\A", some "B"⟩ := by
    refine ⟨.named "self" false, rfl, by decide, ?_⟩
    rintro ⟨members, hmembers, hdistinct, -⟩
    obtain rfl : ["\\A", "\\A"] = members := Option.some.inj hmembers
    exact absurd hdistinct (by decide)
  exact ⟨hkeyword, hgroups, hname⟩

end Sample

end LazyClasses.TypeHint
