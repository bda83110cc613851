import LazyClasses.LazyClass.Proxy
import LazyClasses.Proofs.ForwardedArguments
import LazyClasses.Proofs.Methods
/-! # The text of a proxy

A proxy has its members one below the other, each between empty lines. A method that is declared
again takes a line for its header, one for each brace, and those of its statements. Which method a
member declares is found again in its text.

* `Forwarder.lines`: the declaration of a method line by line. `Forwarder.text_eq`: that is its
  text.
* `Proxy.body_eq`: the body around its members. `Proxy.Emits`: what stands in it like a member.
* `declaredName?`: the name of the method that a text declares. `declaredName?_text`,
  `declaredName?_getter`, `declaredName?_initializer`: it is that of the member.
* `Proxy.Declares`, `Proxy.WrittenOut`: what stands in the body for a method, and for all. -/

namespace LazyClasses

/-! ### Line by line -/

namespace Forwarder

/-- The call of the parent's method. -/
def parentCall (f : Forwarder) : String :=
  "parent::" ++ f.method.name ++ "(" ++ f.signature.argumentText ++ ")"

/-- The exception that an abstract method raises when there is nothing to call. -/
def stub (f : Forwarder) : String :=
  "throw new \\BadMethodCallException('Cannot forward abstract method \"" ++
    f.method.declaringClass ++ "::" ++ f.method.name ++ "()\".')"

theorem fallback_eq_parentCall {f : Forwarder} (ha : f.method.isAbstract = false) :
    f.fallback = f.parentCall := if_neg (by rw [ha]; decide)

theorem fallback_eq_stub {f : Forwarder} (ha : f.method.isAbstract = true) :
    f.fallback = f.stub := if_pos ha

/-- The two begin with different letters. -/
theorem parentCall_ne_stub (f : Forwarder) : f.parentCall ≠ f.stub := by
  have hp : f.parentCall.toList.head? = some 'p' := by
    unfold parentCall
    simp only [String.toList_append, List.append_assoc]
    rfl
  have hs : f.stub.toList.head? = some 't' := by
    unfold stub
    simp only [String.toList_append, List.append_assoc]
    rfl
  intro h
  rw [h, hs] at hp
  cases hp

theorem fallback_eq_stub_iff {f : Forwarder} :
    f.fallback = f.stub ↔ f.method.isAbstract = true := by
  refine ⟨fun h => ?_, fallback_eq_stub⟩
  by_contra ha
  rw [fallback_eq_parentCall (by simpa using ha)] at h
  exact f.parentCall_ne_stub h

theorem fallback_eq_parentCall_iff {f : Forwarder} :
    f.fallback = f.parentCall ↔ f.method.isAbstract = false := by
  refine ⟨fun h => ?_, fallback_eq_parentCall⟩
  by_contra ha
  rw [fallback_eq_stub (by simpa using ha)] at h
  exact f.parentCall_ne_stub h.symm

/-- The statements line by line: a call reaches the real object, if there is one, and else comes to
the fallback. A static method knows no real object. -/
def statementLines (f : Forwarder) (fallback : String) : List String :=
  let call := "$this->lazyObjectReal->" ++ f.method.name ++ "(" ++ f.signature.argumentText ++ ")"
  if f.method.isStatic then ["        " ++ fallback ++ ";"]
  else if f.method.returnsNothing then
    ["        if (isset($this->lazyObjectReal)) \x7b", "            " ++ call ++ ";",
      "        \x7d else \x7b", "            " ++ fallback ++ ";", "        \x7d"]
  else
    ["        if (isset($this->lazyObjectReal)) \x7b", "            return " ++ call ++ ";",
      "        \x7d", "", "        return " ++ fallback ++ ";"]

/-- The declaration of the method line by line. -/
def lines (f : Forwarder) (fallback : String) : List String :=
  ["    " ++ f.signature.header, "    \x7b"] ++ f.statementLines fallback ++ ["    \x7d"]

theorem statements_eq (f : Forwarder) :
    f.statements = "\n".intercalate (f.statementLines f.fallback) := by
  have hopen : "        if (isset($this->lazyObjectReal)) \x7b\n            " =
      "        if (isset($this->lazyObjectReal)) \x7b" ++ "\n" ++ "            " := by
    simp only [String.reduceAppend]
  have hopenReturn : "        if (isset($this->lazyObjectReal)) \x7b\n            return " =
      "        if (isset($this->lazyObjectReal)) \x7b" ++ "\n" ++ "            return " := by
    simp only [String.reduceAppend]
  have helse : ";\n        \x7d else \x7b\n            " =
      ";" ++ "\n" ++ "        \x7d else \x7b" ++ "\n" ++ "            " := by
    simp only [String.reduceAppend]
  have hclose : ";\n        \x7d" = ";" ++ "\n" ++ "        \x7d" := by
    simp only [String.reduceAppend]
  have hcloseReturn : ";\n        \x7d\n\n        return " =
      ";" ++ "\n" ++ "        \x7d" ++ "\n" ++ "" ++ "\n" ++ "        return " := by
    simp only [String.reduceAppend]
  unfold statements statementLines forwardedCall
  split_ifs
  · rw [String.intercalate_singleton]
  · rw [hopen, helse, hclose]
    simp only [String.intercalate_cons_cons, String.intercalate_singleton, String.append_assoc]
  · rw [hopenReturn, hcloseReturn]
    simp only [String.intercalate_cons_cons, String.intercalate_singleton, String.append_assoc]

theorem statementLines_ne_nil (f : Forwarder) (fallback : String) :
    f.statementLines fallback ≠ [] := by
  unfold statementLines
  split_ifs <;> simp

/-- **The lines make up the text of the declaration.** -/
theorem text_eq (f : Forwarder) : f.text = "\n".intercalate (f.lines f.fallback) := by
  have hbrace : "\n    \x7b\n" = "\n" ++ "    \x7b" ++ "\n" := by
    simp only [String.reduceAppend]
  have hclose : "\n    \x7d" = "\n" ++ "    \x7d" := by
    simp only [String.reduceAppend]
  rw [text, statements_eq, hbrace, hclose, lines,
    String.intercalate_append_of_ne_nil (by simp) (List.cons_ne_nil _ _),
    String.intercalate_append_of_ne_nil (List.cons_ne_nil _ _) (f.statementLines_ne_nil _),
    String.intercalate_cons_cons, String.intercalate_singleton, String.intercalate_singleton]
  simp only [String.append_assoc]

end Forwarder

/-! ### The body -/

/-- Texts with an empty line between each two have line breaks of their own around them. -/
theorem intercalate_emptyLine : ∀ {texts : List String}, texts ≠ [] →
    "\n" ++ "\n\n".intercalate texts ++ "\n" =
      String.join (texts.map fun text => "\n" ++ text ++ "\n")
  | [], h => absurd rfl h
  | [text], _ => by
    rw [String.intercalate_singleton, List.map_singleton, String.join_cons, String.join_nil,
      String.append_empty]
  | text :: next :: texts, _ => by
    have ih := intercalate_emptyLine (List.cons_ne_nil next texts)
    have hbetween : "\n\n" = "\n" ++ "\n" := by simp only [String.reduceAppend]
    rw [List.map_cons, String.join_cons, ← ih, String.intercalate_cons_cons, hbetween]
    simp only [String.append_assoc]

namespace Proxy

variable {options : Options} {p : Proxy}

/-- The body in front of the members: the clauses, the trait and the properties. -/
def opening (options : Options) (p : Proxy) : String :=
  (match p.target.cls with
    | some c => " extends \\" ++ c.name
    | none => "") ++
  " implements " ++ ", ".intercalate (p.implemented options) ++ "\n\x7b\n    use " ++
  options.symbol "LazyProxyTrait" ++ ";\n\n    private int $lazyObjectId;\n    private " ++
  p.target.realType ++ " $lazyObjectReal;\n" ++
  (match p.target.cls, p.scopes with
    | some c, some scopes => scopesConstant c.name scopes
    | _, _ => "")

/-- **The body holds the members**, each on lines of its own. -/
theorem body_eq (options : Options) (p : Proxy) : (p.generated options).body =
    p.opening options ++ String.join ((p.members options).map fun text => "\n" ++ text ++ "\n") ++
      "\x7d\n\n" ++ Support.preloadHints options := by
  rw [generated]
  cases p.members options with
  | nil =>
    rw [List.map_nil, String.join_nil]
    rfl
  | cons text texts =>
    rw [← intercalate_emptyLine (List.cons_ne_nil text texts)]
    rfl

/-- The text stands in the body on lines of its own. -/
def Emits (options : Options) (p : Proxy) (text : String) : Prop :=
  ∃ front back, (p.generated options).body = front ++ "\n" ++ text ++ "\n" ++ back

theorem emits_of_mem {text : String} (h : text ∈ p.members options) : p.Emits options text := by
  obtain ⟨before, after, hmembers⟩ := List.append_of_mem h
  refine ⟨p.opening options ++ String.join (before.map fun text => "\n" ++ text ++ "\n"),
    String.join (after.map fun text => "\n" ++ text ++ "\n") ++
      "\x7d\n\n" ++ Support.preloadHints options, ?_⟩
  rw [body_eq, hmembers, List.map_append, List.map_cons, String.join_append, String.join_cons]
  simp only [String.append_assoc]

/-- A `__get` that is declared stands in the body. -/
theorem emits_getter {type : String} (h : p.getterType = some type) :
    p.Emits options (Support.getter options type) := by
  refine emits_of_mem ?_
  rw [members, h]
  exact List.mem_append_left _ (List.mem_append_right _ (List.mem_singleton_self _))

end Proxy

/-! ### What a member declares -/

open StringExpr (afterWord afterWord_eq_some_iff)

/-- The text behind the word, if that stands in front. -/
def behind (word : String) (l : List Char) : List Char := (afterWord word.toList l).getD l

/-- The text behind a visibility. -/
def afterVisibility (l : List Char) : Option (List Char) :=
  ["public ", "protected ", "private "].findSome? fun word => afterWord word.toList l

/-- **The name of the method that a text declares**: blanks, the attribute of a tentative result
type, the visibility and other words stand in front of it. -/
def declaredName? (text : String) : Option String :=
  (afterVisibility (behind "#[\\ReturnTypeWillChange] " (text.toList.dropWhile (· == ' ')))).bind
    fun l => (afterWord "function ".toList (behind "static " l)).map fun l =>
      String.ofList ((behind "&" l).takeWhile isVariableChar)

/-- Whether the text declares a method of the name. -/
def declaresName (name text : String) : Bool := (declaredName? text).any (Text.same · name)

/-- The front of a header, up to the parameters. -/
def headerFront (tentative : Bool) (visibility : Visibility) (static ref : Bool) (name : String) :
    String :=
  (if tentative then "#[\\ReturnTypeWillChange] " else "") ++ visibility.keyword ++ " " ++
    (if static then "static " else "") ++ "function " ++ (if ref then "&" else "") ++ name ++ "("

theorem behind_append (word : String) (l : List Char) : behind word (word.toList ++ l) = l := by
  rw [behind, afterWord_eq_some_iff.2 rfl, Option.getD_some]

/-- Where the name begins, no `&` is left to be read over. -/
theorem behind_ref {name : String} (hname : IsVariable name) (ref : Bool) (rest : List Char) :
    behind "&" ((if ref then "&" else "").toList ++ (name.toList ++ ("(".toList ++ rest))) =
      name.toList ++ ("(".toList ++ rest) := by
  cases ref with
  | true => exact behind_append _ _
  | false =>
    have hword : afterWord "&".toList (name.toList ++ ("(".toList ++ rest)) = none := by
      rw [Option.eq_none_iff_forall_ne_some]
      intro l hl
      rw [afterWord_eq_some_iff] at hl
      cases hchars : name.toList with
      | nil =>
        rw [hchars] at hl
        cases hl
      | cons c chars =>
        rw [hchars] at hl
        obtain rfl : c = '&' := (List.cons.inj hl).1
        exact absurd (hname '&' (by rw [hchars]; exact List.mem_cons_self)) (by decide)
    exact congrArg (Option.getD · _) hword

/-- A method is declared under the name in front of its parameters. -/
theorem declaredName?_headerFront {tentative static ref : Bool} {visibility : Visibility}
    {name : String} (hname : IsVariable name) (rest : String) :
    declaredName? ("    " ++ (headerFront tentative visibility static ref name ++ rest)) =
      some name := by
  have hmark (l : List Char) : behind "#[\\ReturnTypeWillChange] "
      (("    ".toList ++ ((if tentative then "#[\\ReturnTypeWillChange] " else "").toList ++
        (visibility.keyword.toList ++ l))).dropWhile (· == ' ')) =
      visibility.keyword.toList ++ l := by
    cases tentative with
    | true => exact behind_append _ _
    | false => cases visibility <;> rfl
  have hvisibility (l : List Char) :
      afterVisibility (visibility.keyword.toList ++ (" ".toList ++ l)) = some l := by
    cases visibility <;> rfl
  have hstatic (l : List Char) : behind "static "
      ((if static then "static " else "").toList ++ ("function ".toList ++ l)) =
      "function ".toList ++ l := by
    cases static with
    | true => exact behind_append _ _
    | false => rfl
  have htake : (name.toList ++ ("(".toList ++ rest.toList)).takeWhile isVariableChar =
      name.toList := (Argument.span_run hname rfl).1
  rw [declaredName?, headerFront]
  simp only [String.toList_append, List.append_assoc]
  rw [hmark, hvisibility, Option.bind_some, hstatic, afterWord_eq_some_iff.2 rfl, Option.map_some,
    behind_ref hname, htake, String.ofList_toList]

theorem Registry.header_signature (r : Registry) (m : Method) (withTypes : Bool) :
    (r.signature m withTypes).header =
      headerFront (r.hasTentativeReturn m) m.visibility m.isStatic m.returnsRef m.name ++
        renderParameters (some (r.scope m.declaringClass)) withTypes m.parameters ++ ")" ++
        renderReturn (r.scope m.declaringClass) m.returnType := by
  rw [headerFront]
  rfl

/-- **A method that is declared again keeps its name.** -/
theorem Forwarder.declaredName?_text {f : Forwarder} {r : Registry}
    (hf : f.signature = r.signature f.method true) (hname : IsVariable f.method.name) :
    declaredName? f.text = some f.method.name := by
  obtain ⟨rest, hrest⟩ : ∃ rest, f.text = "    " ++ (headerFront (r.hasTentativeReturn f.method)
      f.method.visibility f.method.isStatic f.method.returnsRef f.method.name ++ rest) := by
    rw [Forwarder.text, hf, Registry.header_signature]
    simp only [String.append_assoc]
    exact ⟨_, rfl⟩
  rw [hrest]
  exact declaredName?_headerFront hname rest

namespace Support

/-- What stands in front of the first place in a template stays. -/
theorem replaceChars_append {c : Char} {old front : List Char} (hfront : c ∉ front)
    (new rest : List Char) : Text.replaceChars (c :: old) new (front ++ rest) =
      front ++ Text.replaceChars (c :: old) new rest := by
  induction front with
  | nil => rfl
  | cons d front ih =>
    have hne : (c == d) = false := by
      simpa using fun e : c = d => hfront (e ▸ List.mem_cons_self)
    rw [List.cons_append, Text.replaceChars, List.isPrefixOf_cons_cons, hne, Bool.false_and,
      Bool.and_false, if_neg Bool.false_ne_true, ih fun h => hfront (List.mem_cons_of_mem _ h),
      List.cons_append]

/-- A place is filled. -/
theorem replaceChars_place (c : Char) (old new rest : List Char) :
    Text.replaceChars (c :: old) new (c :: old ++ rest) =
      new ++ Text.replaceChars (c :: old) new rest := by
  have hplace : (c :: old).isPrefixOf (c :: (old ++ rest)) = true :=
    List.isPrefixOf_iff_prefix.2 (List.prefix_append (c :: old) rest)
  rw [List.cons_append, Text.replaceChars, hplace, List.isEmpty_cons, Bool.not_false,
    Bool.true_and, if_pos rfl, List.length_cons, Nat.add_sub_cancel, List.drop_left]

theorem exists_replace_eq (old : String) {front : String} {word : List Char}
    (hold : old.toList = '\x7b' :: word) (hfront : '\x7b' ∉ front.toList) (new rest : String) :
    ∃ rest', Text.replace old new (front ++ rest) = front ++ rest' := by
  refine ⟨String.ofList (Text.replaceChars old.toList new.toList rest.toList), ?_⟩
  rw [Text.replace, String.toList_append, hold, replaceChars_append hfront, String.ofList_append,
    String.ofList_toList]

theorem exists_replace_place_eq (old : String) {front : String} {word : List Char}
    (hold : old.toList = '\x7b' :: word) (hfront : '\x7b' ∉ front.toList) (new rest : String) :
    ∃ rest', Text.replace old new (front ++ (old ++ rest)) = front ++ new ++ rest' := by
  refine ⟨String.ofList (Text.replaceChars old.toList new.toList rest.toList), ?_⟩
  rw [Text.replace, String.toList_append, String.toList_append, hold, replaceChars_append hfront,
    replaceChars_place, String.ofList_append, String.ofList_append, String.ofList_toList,
    String.ofList_toList, String.append_assoc]

/-- What the support classes are put behind stays. -/
theorem exists_replace_classes_eq {front : String} (hfront : '\x7b' ∉ front.toList)
    (registry hydrator rest : String) : ∃ rest', Text.replace "\x7bregistry\x7d" registry
      (Text.replace "\x7bhydrator\x7d" hydrator (front ++ rest)) = front ++ rest' := by
  obtain ⟨hydrated, hhydrated⟩ := exists_replace_eq "\x7bhydrator\x7d" rfl hfront hydrator rest
  rw [hhydrated]
  exact exists_replace_eq "\x7bregistry\x7d" rfl hfront _ hydrated

theorem declaredName?_fill {template name : String} (ref : Bool) (hname : IsVariable name)
    (hfront : '\x7b' ∉ ("    " ++ headerFront false .publicAccess false ref name).toList)
    (htemplate : ∃ rest,
      template = "    " ++ headerFront false .publicAccess false ref name ++ rest)
    (options : Options) (resultType : String) :
    declaredName? (fill options resultType template) = some name := by
  obtain ⟨rest, rfl⟩ := htemplate
  obtain ⟨typed, htyped⟩ := exists_replace_eq "\x7btype\x7d" rfl hfront resultType rest
  obtain ⟨filled, hfilled⟩ := exists_replace_classes_eq hfront
    (options.symbol "Internal\\LazyObjectRegistry") (options.symbol "Internal\\Hydrator") typed
  rw [fill, htyped, hfilled, String.append_assoc]
  exact declaredName?_headerFront hname filled

theorem exists_getterTemplate_eq : ∃ rest,
    getterTemplate = "    public function &__get($name): " ++ ("\x7btype\x7d" ++ rest) := by
  have hfirst : "    public function &__get($name): \x7btype\x7d" =
      "    public function &__get($name): " ++ "\x7btype\x7d" := by
    simp only [String.reduceAppend]
  rw [getterTemplate, String.intercalate_cons_cons, hfirst]
  simp only [String.append_assoc]
  exact ⟨_, rfl⟩

/-- The text of `__get` declares it. -/
theorem declaredName?_getter (options : Options) (resultType : String) :
    declaredName? (getter options resultType) = some "__get" := by
  have hfront : "    public function &__get($name): " =
      "    " ++ headerFront false .publicAccess false true "__get" ++ "$name): " := by decide
  refine declaredName?_fill true (by decide) (by decide) ?_ options resultType
  obtain ⟨rest, hrest⟩ := exists_getterTemplate_eq
  exact ⟨"$name): " ++ ("\x7btype\x7d" ++ rest), by
    rw [hrest, hfront, String.append_assoc]⟩

/-- The text of `__get` shows the type that it returns. -/
theorem exists_getter_eq {resultType : String} (h : '\x7b' ∉ resultType.toList)
    (options : Options) : ∃ rest,
    getter options resultType = "    public function &__get($name): " ++ resultType ++ rest := by
  obtain ⟨rest, hrest⟩ := exists_getterTemplate_eq
  have hfront : '\x7b' ∉ "    public function &__get($name): ".toList := by decide
  obtain ⟨typed, htyped⟩ := exists_replace_place_eq "\x7btype\x7d" rfl hfront resultType rest
  rw [getter, fill, hrest, htyped]
  refine exists_replace_classes_eq ?_ _ _ typed
  rw [String.toList_append, List.mem_append, not_or]
  exact ⟨hfront, h⟩

/-- The text of `initializeLazyObject` declares it. -/
theorem declaredName?_initializer (options : Options) (resultType : String) :
    declaredName? (initializer options resultType) = some "initializeLazyObject" := by
  have hfirst : "    public function initializeLazyObject(): \x7btype\x7d" =
      "    " ++ headerFront false .publicAccess false false "initializeLazyObject" ++
        "): \x7btype\x7d" := by
    decide
  refine declaredName?_fill false (by decide) (by decide) ?_ options resultType
  rw [initializerTemplate, String.intercalate_cons_cons, hfirst]
  simp only [String.append_assoc]
  exact ⟨_, rfl⟩

end Support

/-! ### The members of a proxy -/

/-- The declarations under a name. -/
def Proxy.declarations (p : Proxy) (name : String) : List Forwarder :=
  p.forwarders.filter fun f => Text.same f.method.name name

/-- **The body declares the method** under its own header, with its own arguments and with the
fallback. -/
structure Proxy.Declares (g : Generator) (p : Proxy) (f : Forwarder) (fallback : String) :
    Prop where
  header : f.signature.header =
    headerFront (g.registry.hasTentativeReturn f.method) f.method.visibility f.method.isStatic
        f.method.returnsRef f.method.name ++
      renderParameters (some (g.registry.scope f.method.declaringClass)) true f.method.parameters ++
      ")" ++ renderReturn (g.registry.scope f.method.declaringClass) f.method.returnType
  arguments : f.signature.arguments = forwarded f.method.parameters
  emits : p.Emits g.options ("\n".intercalate (f.lines fallback))

theorem Proxy.declares_of_mem {g : Generator} {p : Proxy} {f : Forwarder}
    (hf : f.signature = g.registry.signature f.method true) (hmem : f ∈ p.forwarders) :
    p.Declares g f f.fallback where
  header := by rw [hf, Registry.header_signature]
  arguments := by rw [hf]; rfl
  emits := by
    rw [← f.text_eq]
    refine emits_of_mem ?_
    rw [Proxy.members]
    exact List.mem_append_right _ (List.mem_map_of_mem hmem)

/-- A text that declares what the trait defines declares no other name. -/
theorem declaresName_eq_false {text defined name : String}
    (htext : declaredName? text = some defined) (hdefined : Support.isProxyMethod defined = true)
    (hname : Support.isProxyMethod name = false) : declaresName name text = false := by
  rw [declaresName, htext, Option.any_some, ← Bool.not_eq_true]
  intro hsame
  rw [Support.isProxyMethod_congr (Text.same_iff.1 hsame), hname] at hdefined
  cases hdefined

/-- **The members that declare a name** are the texts of its declarations. -/
theorem Proxy.filter_declaresName_members {p : Proxy} {name : String} (options : Options)
    (hname : Support.isProxyMethod name = false)
    (hforwarders : ∀ f ∈ p.forwarders, declaredName? f.text = some f.method.name) :
    (p.members options).filter (declaresName name) = (p.declarations name).map Forwarder.text := by
  have hinitializer : declaresName name (Support.initializer options p.target.realType) = false :=
    declaresName_eq_false (Support.declaredName?_initializer _ _) (by decide) hname
  have hgetter (type : String) : declaresName name (Support.getter options type) = false :=
    declaresName_eq_false (Support.declaredName?_getter _ _) (by decide) hname
  have hnone : ((if p.target.cls.isNone then [Support.initializer options p.target.realType]
      else []) ++ (p.getterType.map (Support.getter options)).toList).filter (declaresName name) =
      [] := by
    rw [List.filter_eq_nil_iff, List.forall_mem_append]
    constructor
    · split_ifs <;> simp [hinitializer]
    · cases p.getterType <;> simp [hgetter]
  rw [members, List.filter_append, hnone, List.nil_append, List.filter_map, declarations]
  refine congrArg _ (List.filter_congr fun f hf => ?_)
  rw [Function.comp_apply, declaresName, hforwarders f hf, Option.any_some]

/-- **The text of a proxy**: its body holds the members; each method that is declared again stands
there under its own name, with a call of the real object and a fallback; and so does `__get`, with
the type that it returns. -/
structure Proxy.WrittenOut (g : Generator) (p : Proxy) : Prop where
  body : (p.generated g.options).body =
    p.opening g.options ++
      String.join ((p.members g.options).map fun text => "\n" ++ text ++ "\n") ++
      "\x7d\n\n" ++ Support.preloadHints g.options
  text : ∀ f ∈ p.forwarders, f.text =
    "\n".intercalate (f.lines (if f.method.isAbstract then f.stub else f.parentCall))
  declares : ∀ f ∈ p.forwarders,
    p.Declares g f (if f.method.isAbstract then f.stub else f.parentCall)
  named : (∀ f ∈ p.forwarders, IsVariable f.method.name) →
    ∀ name, Support.isProxyMethod name = false →
      (p.members g.options).filter (declaresName name) = (p.declarations name).map Forwarder.text
  getter : ∀ type, p.getterType = some type →
    p.Emits g.options (Support.getter g.options type) ∧
      declaredName? (Support.getter g.options type) = some "__get" ∧
      ('\x7b' ∉ type.toList → ∃ rest, Support.getter g.options type =
        "    public function &__get($name): " ++ type ++ rest)

theorem Proxy.writtenOut {g : Generator} {p : Proxy}
    (h : ∀ f ∈ p.forwarders, f.signature = g.registry.signature f.method true) :
    p.WrittenOut g where
  body := p.body_eq g.options
  text f _ := f.text_eq
  declares f hf := declares_of_mem (h f hf) hf
  named hnames _ hname := filter_declaresName_members g.options hname
    fun f hf => f.declaredName?_text (h f hf) (hnames f hf)
  getter _ htype := ⟨emits_getter htype, Support.declaredName?_getter _ _,
    fun hplain => Support.exists_getter_eq hplain _⟩

end LazyClasses
