import LazyClasses.Proofs.RequalifiedTwice
import Mathlib.Data.List.Forall2
/-! # Keywords in another letter case

To the language `Self` is `self`, and in types both stand for the class. In default values names are
compared as they are written: a keyword that is not in lower case is taken for the name of a class.

* `Recased`: the letters of a keyword may be in another case. `Reads.recased`: the expression falls
  into the same pieces then.
* `resolve_recased`: what a keyword in any case stands for in a type. `requalified_keyword`,
  `requalified_recased`: what takes the place of a keyword in lower case, and of one in any other
  case.
* `isMark`: quotes, and the characters that a name stands behind. There is none in a name, so the
  marks of two outputs tell how far a name goes that stands for a keyword.
* `Reads.agrees_of_rewritten_eq`: two outputs that are the same are so name by name.
* `requalify_recased_iff`: when the case of the keywords does not show. -/

namespace LazyClasses.DefaultExpr

/-! ### Letter case -/

/-- The keywords that stand for the class or for its parent. -/
def keywords : List String := ["self", "parent", "namespace\\parent"]

/-- What the keyword stands for. -/
def standsFor (cls parent keyword : String) : String := if keyword = "self" then cls else parent

/-- The piece, or a keyword with letters in another case. -/
inductive Recased : Piece → Piece → Prop
  | same (piece : Piece) : Recased piece piece
  | keyword {token token' : List Char} : String.ofList token ∈ keywords →
      token'.map Char.toLower = token → Recased (.name token) (.name token')

/-- The piece, or a keyword that is written as the class it stands for. -/
inductive Agrees (cls parent : String) : Piece → Piece → Prop
  | same (piece : Piece) : Agrees cls parent piece piece
  | keyword {token token' : List Char} : String.ofList token ∈ keywords →
      standsFor cls parent (String.ofList token) = String.ofList token' →
        Agrees cls parent (.name token) (.name token')

/-- The expression that is made of the pieces. -/
def written (ps : List Piece) : String := String.ofList (ps.flatMap Piece.source)

section Case

variable {c : Char} {w : List Char}

theorem isNameStart_of_upper (h : 65 ≤ c.toNat ∧ c.toNat ≤ 90) : isNameStart c = true := by
  have hupper : c.isUpper = true := decide_eq_true h
  have halpha : c.isAlpha = true := (Bool.or_eq_true _ _).mpr (.inl hupper)
  rw [isNameStart, halpha, Bool.true_or, Bool.true_or]

theorem isNameStart_of_toLower (h : isNameStart c.toLower = true) : isNameStart c = true := by
  by_cases hc : 65 ≤ c.toNat ∧ c.toNat ≤ 90
  · exact isNameStart_of_upper hc
  · rwa [Text.toLower_eq_self hc] at h

theorem isNameChar_of_toLower (h : isNameChar c.toLower = true) : isNameChar c = true := by
  by_cases hc : 65 ≤ c.toNat ∧ c.toNat ≤ 90
  · exact isNameChar_of_isNameStart (isNameStart_of_upper hc)
  · rwa [Text.toLower_eq_self hc] at h

theorem Run.of_toLower (h : Run isNameChar (w.map Char.toLower)) : Run isNameChar w := by
  generalize hlower : w.map Char.toLower = l at h
  induction h generalizing w with
  | nil => rw [List.map_eq_nil_iff.1 hlower]; exact .nil
  | char hc _ ih =>
    obtain ⟨c, w, rfl, rfl, htail⟩ := List.map_eq_cons_iff.1 hlower
    exact .char (isNameChar_of_toLower hc) (ih htail)
  | slash hc _ ih =>
    obtain ⟨s, w, rfl, hs, hback⟩ := List.map_eq_cons_iff.1 hlower
    obtain ⟨c, w, rfl, rfl, htail⟩ := List.map_eq_cons_iff.1 hback
    rw [ClassName.toLower_eq_separator_iff.1 hs]
    exact .slash (isNameChar_of_toLower hc) (ih htail)

theorem IsToken.of_toLower (h : IsToken (w.map Char.toLower)) : IsToken w := by
  obtain ⟨hrun, c', w', heq, hc'⟩ := h
  obtain ⟨c, w'', rfl, rfl, -⟩ := List.map_eq_cons_iff.1 heq
  exact ⟨hrun.of_toLower, c, w'', rfl, isNameStart_of_toLower hc'⟩

end Case

/-! ### The same pieces -/

section Recased

variable {free : Bool} {l : List Char} {ps ps' : List Piece}

theorem Recased.eq_of_ne_name {piece piece' : Piece} (h : Recased piece piece')
    (hne : ∀ token, piece ≠ .name token) : piece' = piece := by
  cases h with
  | same => rfl
  | keyword => exact absurd rfl (hne _)

theorem Recased.isToken {token : List Char} {piece : Piece} (h : Recased (.name token) piece)
    (htoken : IsToken token) : ∃ token', piece = .name token' ∧ IsToken token' := by
  cases h with
  | same => exact ⟨token, rfl, htoken⟩
  | keyword _ hlower =>
    rw [← hlower] at htoken
    exact ⟨_, rfl, htoken.of_toLower⟩

/-- **With keywords in another case the text falls into the same pieces.** -/
theorem Reads.recased (h : Reads free l ps) (hps : List.Forall₂ Recased ps ps') :
    Reads free (ps'.flatMap Piece.source) ps' ∧ Renamed ps (ps'.flatMap Piece.source) := by
  induction h generalizing ps' with
  | nil =>
    cases hps
    exact ⟨.nil, .nil⟩
  | literal hc hend _ ih =>
    obtain ⟨piece, qs, hpiece, hqs, rfl⟩ := List.forall₂_cons_left_iff.1 hps
    obtain rfl := hpiece.eq_of_ne_name fun _ => Piece.noConfusion
    obtain ⟨hreads, hother⟩ := ih hqs
    exact ⟨.literal hc ((closed_of_literalEnd hend).2 _) hreads,
      .kept (fun _ => Piece.noConfusion) hother⟩
  | name htoken hends hlabel hrest ih =>
    obtain ⟨piece, qs, hpiece, hqs, rfl⟩ := List.forall₂_cons_left_iff.1 hps
    obtain ⟨token, rfl, htoken⟩ := hpiece.isToken htoken
    obtain ⟨hreads, hother⟩ := ih hqs
    have hlabel' := (hrest.followsLabel_renamed hother).trans hlabel
    exact ⟨.name htoken (hrest.ends_renamed hother hends) hlabel' hreads,
      .name htoken.run_word hother⟩
  | label htoken hends hlabel hrest ih =>
    obtain ⟨piece, qs, hpiece, hqs, rfl⟩ := List.forall₂_cons_left_iff.1 hps
    obtain rfl := hpiece.eq_of_ne_name fun _ => Piece.noConfusion
    obtain ⟨hreads, hother⟩ := ih hqs
    have hlabel' := (hrest.followsLabel_renamed hother).trans hlabel
    exact ⟨.label htoken (hrest.ends_renamed hother hends) hlabel' hreads,
      .kept (fun _ => Piece.noConfusion) hother⟩
  | code hliteral hname hrest ih =>
    obtain ⟨piece, qs, hpiece, hqs, rfl⟩ := List.forall₂_cons_left_iff.1 hps
    obtain rfl := hpiece.eq_of_ne_name fun _ => Piece.noConfusion
    obtain ⟨hreads, hother⟩ := ih hqs
    exact ⟨.code (fun hc => hrest.literalEnd_renamed hc hother (hliteral hc)) hname hreads,
      .kept (fun _ => Piece.noConfusion) hother⟩

end Recased

/-! ### What takes the place of a keyword -/

section Keyword

variable {cls parent : String} {token token' : List Char}

theorem toList_qualified (name : String) : (qualified name).toList = '\\' :: name.toList := by
  rw [qualified, String.toList_append]
  rfl

/-- In a type the keywords stand for the same classes in any case. -/
theorem resolve_recased (cls parent : String) {name keyword : String}
    (h : keyword = "self" ∨ keyword = "parent") (hname : Text.lower name = keyword) :
    ClassScope.resolve ⟨some cls, some parent⟩ name = some (standsFor cls parent keyword) := by
  have hsame (word : String) : Text.same name word = (keyword == Text.lower word) := by
    rw [Text.same, hname]
  rw [ClassScope.resolve, hsame, hsame]
  rcases h with rfl | rfl <;> rfl

theorem qualify_keyword (cls parent : String) {keyword : String} (h : keyword ∈ keywords) :
    qualify (some ⟨some cls, some parent⟩) keyword = qualified (standsFor cls parent keyword) := by
  simp only [keywords, List.mem_cons, List.not_mem_nil, or_false] at h
  rcases h with rfl | rfl | rfl <;> rfl

/-- A keyword that is not in lower case is a name like any other. -/
theorem qualify_recased (scope : ClassScope) {name : String} (h : Text.lower name ∈ keywords)
    (hne : Text.lower name ≠ name) : qualify (some scope) name = qualified name := by
  have hother (word : String) (hword : Text.lower word ∉ keywords) : name ≠ word := by
    rintro rfl
    exact hword h
  have hlower (word : String) (hword : Text.lower word = word) : name ≠ word := by
    rintro rfl
    exact hne hword
  have hself := hlower "self" (by decide)
  have hparent := hlower "parent" (by decide)
  have hnamespace := hlower "namespace\\parent" (by decide)
  have hnew := hother "new" (by decide)
  have hfalse := hother "false" (by decide)
  have htrue := hother "true" (by decide)
  have hnull := hother "null" (by decide)
  have hNULL := hother "NULL" (by decide)
  simp [qualify, hself, hparent, hnamespace, hnew, hfalse, htrue, hnull, hNULL]

theorem requalified_keyword (h : String.ofList token ∈ keywords) :
    (Piece.name token).requalified (some ⟨some cls, some parent⟩) =
      '\\' :: (standsFor cls parent (String.ofList token)).toList := by
  rw [Piece.requalified, qualify_keyword cls parent h, toList_qualified]

theorem requalified_recased (h : String.ofList token ∈ keywords)
    (hlower : token'.map Char.toLower = token) (hne : token' ≠ token) (scope : ClassScope) :
    (Piece.name token').requalified (some scope) = '\\' :: token' := by
  have hname : Text.lower (String.ofList token') = String.ofList token := by
    rw [Text.lower, String.toList_ofList, hlower]
  rw [Piece.requalified, qualify_recased scope (hname ▸ h), toList_qualified,
    String.toList_ofList]
  rw [hname]
  exact fun heq => hne (String.ofList_injective heq).symm

theorem isToken_of_keyword (h : String.ofList token ∈ keywords) : IsToken token := by
  have hrun := run_segments isNameChar token
  have hlist (keyword : String) (hk : String.ofList token = keyword) : token = keyword.toList := by
    rw [← hk, String.toList_ofList]
  simp only [keywords, List.mem_cons, List.not_mem_nil, or_false] at h
  rcases h with h | h | h <;> obtain rfl := hlist _ h
  · exact ⟨hrun, 's', _, rfl, rfl⟩
  · exact ⟨hrun, 'p', _, rfl, rfl⟩
  · exact ⟨hrun, 'n', _, rfl, rfl⟩

/-- Either nothing changed, or a keyword became a name that is made absolute as it is. -/
theorem Recased.eq_or_named {piece piece' : Piece} (h : Recased piece piece') :
    piece' = piece ∨ ∃ token token', piece = .name token ∧ piece' = .name token' ∧
      String.ofList token ∈ keywords ∧ IsToken token' ∧
        ∀ scope, (Piece.name token').requalified (some scope) = '\\' :: token' := by
  cases h with
  | same => exact .inl rfl
  | @keyword token token' hkeyword hlower =>
    by_cases hne : token' = token
    · exact .inl (congrArg Piece.name hne)
    · have htoken : IsToken token' := .of_toLower (hlower ▸ isToken_of_keyword hkeyword)
      exact .inr ⟨token, token', rfl, rfl, hkeyword, htoken,
        requalified_recased hkeyword hlower hne⟩

end Keyword

/-! ### Telling outputs apart -/

/-- A quote, or a character that a name may follow. -/
def isMark (c : Char) : Bool := isQuote c || opensName c

section Marks

variable {c : Char} {w : List Char} {scope : Option ClassScope} {free : Bool} {l : List Char}
  {ps ps' : List Piece}

theorem InName.not_isMark (h : InName c) : isMark c = false := by
  rw [isMark, h.not_isQuote, h.not_opensName, Bool.or_false]

theorem isMark_of_isQuote (h : isQuote c = true) : isMark c = true := by
  rw [isMark, h, Bool.true_or]

theorem countP_isMark_of_inName (h : ∀ c ∈ w, InName c) : w.countP isMark = 0 := by
  rw [List.countP_eq_zero]
  intro c hc
  rw [(h c hc).not_isMark]
  exact Bool.false_ne_true

/-- A literal still begins with its quote. -/
theorem head?_spliceNul (hc : isQuote c = true) (body : List Char) :
    (spliceNul (c :: body)).head? = some c := by
  have hne : c ≠ '\x00' := by
    rintro rfl
    cases hc
  unfold spliceNul
  split_ifs
  · rfl
  · rw [List.flatMap_cons, if_neg hne]
    rfl

theorem takeWhile_of_head? (hc : isMark c = true) (h : w.head? = some c) (l : List Char) :
    (w ++ l).takeWhile (!isMark ·) = [] := by
  obtain ⟨w, rfl⟩ := List.head?_eq_some_iff.1 h
  rw [List.cons_append, List.takeWhile_cons_of_neg]
  simp [hc]

/-- **Up to the next mark the outputs are the same**: behind a name there is no other one before
it. -/
theorem Reads.takeWhile_rewritten (h : Reads free l ps) (hfree : free = false)
    (hps : List.Forall₂ Recased ps ps') :
    (rewritten scope ps').takeWhile (!isMark ·) = (rewritten scope ps).takeWhile (!isMark ·) := by
  induction h generalizing ps' with
  | nil => cases hps; rfl
  | literal hc _ _ _ =>
    obtain ⟨piece, qs, hpiece, hqs, rfl⟩ := List.forall₂_cons_left_iff.1 hps
    obtain rfl := hpiece.eq_of_ne_name fun _ => Piece.noConfusion
    have hmark := isMark_of_isQuote hc
    have hhead := head?_spliceNul hc
    rw [rewritten_cons, rewritten_cons, Piece.requalified, takeWhile_of_head? hmark (hhead _),
      takeWhile_of_head? hmark (hhead _)]
  | name => cases hfree
  | label => cases hfree
  | @code _ c _ _ _ _ _ ih =>
    obtain ⟨piece, qs, hpiece, hqs, rfl⟩ := List.forall₂_cons_left_iff.1 hps
    obtain rfl := hpiece.eq_of_ne_name fun _ => Piece.noConfusion
    rw [rewritten_cons, rewritten_cons, Piece.requalified, List.singleton_append,
      List.singleton_append, List.takeWhile_cons, List.takeWhile_cons]
    split_ifs with hmark
    · rw [isMark, Bool.not_eq_true', Bool.or_eq_false_iff] at hmark
      rw [ih hmark.2 hqs]
    · rfl

/-- A keyword that is taken for a name of a class brings no marks. -/
theorem countP_rewritten_le (scope : ClassScope) (hps : List.Forall₂ Recased ps ps') :
    (rewritten (some scope) ps').countP isMark ≤ (rewritten (some scope) ps).countP isMark := by
  induction hps with
  | nil => exact Nat.le_refl _
  | @cons piece piece' _ _ hpiece _ ih =>
    rw [rewritten_cons, rewritten_cons, List.countP_append, List.countP_append]
    refine Nat.add_le_add ?_ ih
    rcases hpiece.eq_or_named with rfl | ⟨token, token', rfl, rfl, -, htoken, hout⟩
    · exact Nat.le_refl _
    · rw [hout, List.countP_cons_of_neg (by decide), countP_isMark_of_inName htoken.inName]
      exact Nat.zero_le _

/-- A text that is a name and what follows it in two ways. If one of the names holds no mark, no
more marks follow it than follow the other, and both go on alike up to the next mark, the names are
the same. -/
theorem eq_of_append_eq {name l m : List Char} (hw : w.countP isMark = 0)
    (hcount : m.countP isMark ≤ l.countP isMark)
    (htake : m.takeWhile (!isMark ·) = l.takeWhile (!isMark ·)) (h : w ++ m = name ++ l) :
    name = w := by
  have hname : name.countP isMark = 0 := by
    have htotal := congrArg (List.countP isMark) h
    rw [List.countP_append, List.countP_append, hw] at htotal
    omega
  have hplain {v : List Char} (hv : v.countP isMark = 0) : ∀ c ∈ v, (!isMark c) = true := by
    simpa using List.countP_eq_zero.1 hv
  have hstretch := congrArg (List.takeWhile (!isMark ·)) h
  rw [List.takeWhile_append_of_pos (hplain hw), List.takeWhile_append_of_pos (hplain hname),
    htake] at hstretch
  exact (List.append_cancel_right hstretch).symm

theorem Reads.tail {piece : Piece} (h : Reads free l (piece :: ps)) :
    Reads piece.frees (ps.flatMap Piece.source) ps := by
  cases h with
  | literal _ _ h => rwa [h.source_eq]
  | name _ _ _ h => rwa [h.source_eq]
  | label _ _ _ h => rwa [h.source_eq]
  | code _ _ h => rwa [h.source_eq]

/-- **If the outputs are the same, they are so name by name.** -/
theorem Reads.agrees_of_rewritten_eq {cls parent : String} (h : Reads free l ps)
    (hps : List.Forall₂ Recased ps ps')
    (heq : rewritten (some ⟨some cls, some parent⟩) ps' =
      rewritten (some ⟨some cls, some parent⟩) ps) :
    List.Forall₂ (Agrees cls parent) ps ps' := by
  induction hps generalizing free l with
  | nil => exact .nil
  | @cons piece piece' ps ps' hpiece hps ih =>
    rw [rewritten_cons, rewritten_cons] at heq
    rcases hpiece.eq_or_named with rfl | ⟨token, token', rfl, rfl, hkeyword, htoken, hout⟩
    · exact .cons (.same _) (ih h.tail (List.append_cancel_left heq))
    · rw [requalified_keyword hkeyword, hout, List.cons_append, List.cons_append] at heq
      replace heq := (List.cons.inj heq).2
      have hname := eq_of_append_eq (countP_isMark_of_inName htoken.inName)
        (countP_rewritten_le _ hps) (h.tail.takeWhile_rewritten rfl hps) heq
      have hagrees : Agrees cls parent (.name token) (.name token') :=
        .keyword hkeyword (by rw [← hname, String.ofList_toList])
      rw [hname] at heq
      exact .cons hagrees (ih h.tail (List.append_cancel_left heq))

theorem Agrees.requalified_eq {cls parent : String} {piece piece' : Piece}
    (h : Agrees cls parent piece piece') (hrecased : Recased piece piece') :
    piece'.requalified (some ⟨some cls, some parent⟩) =
      piece.requalified (some ⟨some cls, some parent⟩) := by
  rcases hrecased.eq_or_named with rfl | ⟨token, token', rfl, rfl, hkeyword, -, hout⟩
  · rfl
  · rw [requalified_keyword hkeyword, hout]
    cases h with
    | same => rw [← hout ⟨some cls, some parent⟩, requalified_keyword hkeyword]
    | keyword _ hname => rw [hname, String.toList_ofList]

theorem rewritten_eq_of_agrees {cls parent : String} (hps : List.Forall₂ Recased ps ps')
    (h : List.Forall₂ (Agrees cls parent) ps ps') :
    rewritten (some ⟨some cls, some parent⟩) ps' =
      rewritten (some ⟨some cls, some parent⟩) ps := by
  induction hps with
  | nil => rfl
  | cons hpiece _ ih =>
    obtain ⟨hagrees, hrest⟩ := List.forall₂_cons.1 h
    rw [rewritten_cons, rewritten_cons, hagrees.requalified_eq hpiece, ih hrest]

end Marks

/-- **When the case of keywords does not show.** With keywords in another case an expression has the
same pieces; in a class with a parent it comes out the same if and only if each keyword that is not
written as before is written as the class it stands for. -/
theorem requalify_recased_iff (cls parent : String) {expr : String} {ps : List Piece}
    (h : List.Forall₂ Recased (pieces expr) ps) :
    pieces (written ps) = ps ∧
      (requalify (some ⟨some cls, some parent⟩) (written ps) =
          requalify (some ⟨some cls, some parent⟩) expr ↔
        List.Forall₂ (Agrees cls parent) (pieces expr) ps) := by
  have hreads : Reads true expr.toList (pieces expr) := reads_scan true expr.toList
  have hpieces : pieces (written ps) = ps := by
    rw [pieces, written, String.toList_ofList]
    exact (hreads.recased h).1.scan_eq
  refine ⟨hpieces, ?_⟩
  rw [requalify, requalify, hpieces, String.ofList_inj]
  exact ⟨hreads.agrees_of_rewritten_eq h, rewritten_eq_of_agrees h⟩

namespace Sample

theorem isToken_of_all {c : Char} {w : List Char} (hc : isNameStart c = true)
    (hw : w.all isNameChar = true) : IsToken (c :: w) :=
  ⟨.char (isNameChar_of_isNameStart hc) (run_of_forall (List.all_eq_true.1 hw)), c, w, rfl, hc⟩

/-- `[a, b]`. -/
def pair (a b : String) : List Piece :=
  [.code '[', .name a.toList, .code ',', .code ' ', .name b.toList, .code ']']

theorem pieces_pair : pieces "[self, parent]" = pair "self" "parent" := by
  have hself : IsToken "self".toList := isToken_of_all rfl rfl
  have hparent : IsToken "parent".toList := isToken_of_all rfl rfl
  have hclose : Reads false [']'] [.code ']'] := .code (by decide) (by decide) .nil
  have hback : Reads true "parent]".toList [.name "parent".toList, .code ']'] :=
    @Reads.name "parent".toList _ _ hparent rfl rfl hclose
  have hmiddle : Reads false ", parent]".toList
      [.code ',', .code ' ', .name "parent".toList, .code ']'] :=
    .code (by decide) (by decide) (.code (by decide) (by decide) hback)
  have hfront : Reads true "[self, parent]".toList (pair "self" "parent") :=
    .code (by decide) (by decide) (@Reads.name "self".toList _ _ hself rfl rfl hmiddle)
  exact hfront.scan_eq

/-- In a class that is called `Self`, with a parent that is called `PARENT`, the case does not show;
it does in `App\Child`. -/
theorem pair_recased :
    List.Forall₂ Recased (pieces "[self, parent]") (pair "Self" "PARENT") ∧
    written (pair "Self" "PARENT") = "[Self, PARENT]" ∧
    requalify (some ⟨some "Self", some "PARENT"⟩) (written (pair "Self" "PARENT")) =
      requalify (some ⟨some "Self", some "PARENT"⟩) "[self, parent]" ∧
    requalify (some child) (written (pair "Self" "PARENT")) ≠
      requalify (some child) "[self, parent]" := by
  have hkeyword {a : String} (h : a ∈ keywords) : String.ofList a.toList ∈ keywords := by
    rwa [String.ofList_toList]
  have hrecased : List.Forall₂ Recased (pieces "[self, parent]") (pair "Self" "PARENT") := by
    rw [pieces_pair]
    exact .cons (.same _) (.cons (.keyword (hkeyword (by decide)) rfl) (.cons (.same _)
      (.cons (.same _) (.cons (.keyword (hkeyword (by decide)) rfl) (.cons (.same _) .nil)))))
  refine ⟨hrecased, rfl, (requalify_recased_iff _ _ hrecased).2.2 ?_, fun heq => ?_⟩
  · rw [pieces_pair]
    exact .cons (.same _) (.cons (.keyword (hkeyword (by decide)) rfl) (.cons (.same _)
      (.cons (.same _) (.cons (.keyword (hkeyword (by decide)) rfl) (.cons (.same _) .nil)))))
  · have hagrees := (requalify_recased_iff _ _ hrecased).2.1 heq
    rw [pieces_pair] at hagrees
    obtain ⟨-, hrest⟩ := List.forall₂_cons.1 hagrees
    cases (List.forall₂_cons.1 hrest).1 with
    | keyword _ hname => exact absurd hname (by decide)

theorem reads_constant {name : String} (h : IsToken name.toList) :
    Reads true (name.toList ++ [':', ':', 'X'])
      [.name name.toList, .code ':', .code ':', .code 'X'] :=
  .name h rfl rfl (.code (by decide) (by decide) (.code (by decide) (by decide)
    (.code (by decide) (by decide) .nil)))

/-- `Self` is the class in a type, and in `Self::X` it is a class of that name. -/
theorem constant_recased :
    List.Forall₂ Recased (pieces "self::X") (pieces "Self::X") ∧
    child.resolve "Self" = child.resolve "self" ∧
    requalify (some child) "self::X" = "\\App\\Child::X" ∧
    requalify (some child) "Self::X" = "\\Self::X" := by
  have hlower : pieces "self::X" = _ :=
    (@reads_constant "self" (isToken_of_all rfl rfl)).scan_eq
  have hupper : pieces "Self::X" = _ :=
    (@reads_constant "Self" (isToken_of_all rfl rfl)).scan_eq
  have hresolve {name : String} (h : Text.lower name = "self") :
      child.resolve name = some "App\\Child" := resolve_recased _ _ (.inl rfl) h
  refine ⟨?_, (hresolve rfl).trans (hresolve rfl).symm, ?_, ?_⟩
  · rw [hlower, hupper]
    exact .cons (.keyword (by decide) rfl)
      (.cons (.same _) (.cons (.same _) (.cons (.same _) .nil)))
  · rw [requalify, hlower]
    rfl
  · rw [requalify, hupper]
    rfl

end Sample

end LazyClasses.DefaultExpr
