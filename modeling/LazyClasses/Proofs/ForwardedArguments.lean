import LazyClasses.Proofs.Pieces
import LazyClasses.Proofs.StringExpr
import LazyClasses.Signature
/-! # What a call hands on

The body of a method that is declared again hands its call on with the arguments that it received.
If a parameter is passed by reference that is done one by one, and a parameter that was left out is
then handed on as its default.

* `Frame`, `Frame.Binds`: what the body finds in its variables. `Frame.binds_ofCall`: every call has
  such a frame.
* `Argument.values`, `valuesOf`: what an argument list comes to in there.
* `values_fixed`: parameters that stand for one value each, by induction on the parameter list, with
  the arguments one shorter at each step. `valuesOf_oneByOne` puts the rest behind them.
* `Argument.read`, `Lists`: the argument list that a text shows; `lists_argumentText_iff` finds it
  in a signature.
* `forwards_received`: what is handed on is what was received, and the defaults of what was left
  out. -/

namespace LazyClasses

variable {α : Type}

/-- What the body of a method finds when it is called. -/
structure Frame (α : Type) where
  /-- The arguments of the call. -/
  received : List α
  /-- The value of a variable, if it has one. -/
  value : String → Option α
  /-- The values in the variable of a variadic parameter. -/
  collected : String → List α

namespace Argument

/-- The values that an argument comes to. -/
def values (frame : Frame α) : Argument → Option (List α)
  | .value name => (frame.value name).map ([·])
  | .unpacked name => some (frame.collected name)
  | .everything => some frame.received
  | .after n => some (frame.received.drop n)

end Argument

/-- **The values that an argument list comes to**, if all its variables have one. -/
def valuesOf (frame : Frame α) (arguments : List Argument) : Option (List α) :=
  (arguments.mapM (Argument.values frame)).map List.flatten

/-! ### Calls -/

/-- The value of the default of a parameter, if it has one; `eval` says what an expression is. -/
def Parameter.defaultValue (eval : String → α) (p : Parameter) : Option α := p.default.map eval

/-- **The frame is that of a call** with these arguments: a parameter has the value at its place, or
its default if it was left out, and a variadic one has all values from its place on. -/
structure Frame.Binds (frame : Frame α) (eval : String → α) (params : List Parameter)
    (args : List α) : Prop where
  received : frame.received = args
  value : ∀ (i : Nat) (p : Parameter), params[i]? = some p → p.isVariadic = false →
    frame.value p.name = args[i]?.or (p.defaultValue eval)
  collected : ∀ (i : Nat) (p : Parameter), params[i]? = some p → p.isVariadic = true →
    frame.collected p.name = args.drop i

/-- The frame of a call. -/
def Frame.ofCall (eval : String → α) (params : List Parameter) (args : List α) : Frame α where
  received := args
  value name :=
    let i := params.findIdx fun p => p.name = name
    params[i]?.bind fun p => args[i]?.or (p.defaultValue eval)
  collected name := args.drop (params.findIdx fun p => p.name = name)

theorem findIdx_name {params : List Parameter} (hnames : (params.map (·.name)).Nodup) {i : Nat}
    {p : Parameter} (hp : params[i]? = some p) : params.findIdx (fun q => q.name = p.name) = i := by
  obtain ⟨hi, rfl⟩ := List.getElem?_eq_some_iff.1 hp
  refine (List.findIdx_eq hi).2 ⟨by simp, fun j hj => ?_⟩
  rw [decide_eq_false_iff_not]
  intro hname
  have hsame : (params.map (·.name))[i]? = (params.map (·.name))[j]? := by
    rw [List.getElem?_map, List.getElem?_map, hp, List.getElem?_eq_getElem (hj.trans hi),
      Option.map_some, Option.map_some, hname]
  exact hj.ne' ((List.getElem?_inj (by rwa [List.length_map]) hnames).1 hsame)

/-- Each call has a frame, as no two parameters have one name. -/
theorem Frame.binds_ofCall (eval : String → α) {params : List Parameter}
    (hnames : (params.map (·.name)).Nodup) (args : List α) :
    (Frame.ofCall eval params args).Binds eval params args where
  received := rfl
  value i p hp _ := by
    simp only [Frame.ofCall, findIdx_name hnames hp, hp, Option.bind_some]
  collected i p hp _ := by
    simp only [Frame.ofCall, findIdx_name hnames hp]

/-- The arguments reach to each parameter that may not be left out. -/
def Supplies (params : List Parameter) (args : List α) : Prop :=
  ∀ (i : Nat) (p : Parameter), params[i]? = some p → p.isOptional = false → i < args.length

/-- The parameters that stand for one value each. -/
def fixedParameters (params : List Parameter) : List Parameter :=
  params.filter fun p => !p.isVariadic

/-- The values are the defaults of the parameters. -/
def AreDefaults (eval : String → α) (params : List Parameter) (values : List α) : Prop :=
  List.Forall₂ (fun p d => p.defaultValue eval = some d) params values

/-! ### One by one -/

theorem exists_defaultValue (eval : String → α) {p : Parameter} (hfixed : p.isVariadic = false)
    (hoptional : p.isOptional = true) : ∃ d, p.defaultValue eval = some d := by
  rw [Parameter.isOptional, hfixed, Bool.false_or] at hoptional
  obtain ⟨written, hwritten⟩ := Option.isSome_iff_exists.1 hoptional
  exact ⟨eval written, by rw [Parameter.defaultValue, hwritten, Option.map_some]⟩

/-- **Parameters that stand for one value each** have the arguments at their places and, behind
them, the defaults of those that were left out. -/
theorem values_fixed {value : String → Option α} {eval : String → α} :
    ∀ {params : List Parameter} {args : List α}, (∀ p ∈ params, p.isVariadic = false) →
    Supplies params args →
    (∀ (i : Nat) (p : Parameter), params[i]? = some p →
      value p.name = args[i]?.or (p.defaultValue eval)) →
    ∃ defaults, AreDefaults eval (params.drop args.length) defaults ∧
      List.Forall₂ (fun p v => value p.name = some v) params
        (args.take params.length ++ defaults)
  | [], args, _, _, _ => ⟨[], by simp [AreDefaults], by simp⟩
  | p :: params, args, hfixed, hsupplies, hvalue => by
    have htail : Supplies params args.tail := by
      intro i q hq hrequired
      have := hsupplies (i + 1) q hq hrequired
      rw [List.length_tail]
      omega
    have hvalueTail (i : Nat) (q : Parameter) (hq : params[i]? = some q) :
        value q.name = args.tail[i]?.or (q.defaultValue eval) := by
      rw [hvalue (i + 1) q hq, List.getElem?_tail]
    obtain ⟨defaults, hdefaults, hvalues⟩ :=
      values_fixed (fun q hq => hfixed q (List.mem_cons_of_mem _ hq)) htail hvalueTail
    have hfirst := hvalue 0 p rfl
    cases args with
    | nil =>
      -- the parameter was left out, so it has a default
      have hoptional : p.isOptional = true := by
        by_contra hrequired
        exact Nat.not_lt_zero _ (hsupplies 0 p rfl (by simpa using hrequired))
      obtain ⟨d, hd⟩ := exists_defaultValue eval (hfixed p List.mem_cons_self) hoptional
      rw [List.getElem?_nil, Option.none_or, hd] at hfirst
      rw [List.tail_nil, List.take_nil, List.nil_append] at hvalues
      exact ⟨d :: defaults, .cons hd hdefaults, .cons hfirst hvalues⟩
    | cons a args => exact ⟨defaults, hdefaults, .cons hfirst hvalues⟩

theorem map_ofParameter_of_fixed {params : List Parameter}
    (hfixed : ∀ p ∈ params, p.isVariadic = false) :
    params.map Argument.ofParameter = params.map fun p => .value p.name :=
  List.map_congr_left fun p hp => if_neg (by rw [hfixed p hp]; decide)

/-- Variables one by one and one more argument come to their values one after the other. -/
theorem valuesOf_variables {frame : Frame α} {params : List Parameter} {values more : List α}
    {last : Argument}
    (hvalues : List.Forall₂ (fun p v => frame.value p.name = some v) params values)
    (hlast : last.values frame = some more) :
    valuesOf frame (params.map (fun p => .value p.name) ++ [last]) = some (values ++ more) := by
  have hall : List.Forall₂ (fun a l => Argument.values frame a = some l)
      (params.map (fun p => .value p.name) ++ [last]) (values.map ([·]) ++ [more]) := by
    refine List.rel_append ?_ (.cons hlast .nil)
    rw [List.forall₂_map_left_iff, List.forall₂_map_right_iff]
    exact hvalues.imp fun p v h => by rw [Argument.values, h, Option.map_some]
  rw [valuesOf, Text.mapM_eq_some_iff.2 hall, Option.map_some, List.flatten_append,
    List.flatten_singleton, ← List.flatMap_def, List.flatMap_singleton']

/-- **Handed on one by one**, with all arguments behind them in one more, parameters that stand for
one value each come to the whole of the arguments and the defaults of what was left out. -/
theorem valuesOf_oneByOne {frame : Frame α} {eval : String → α} {params : List Parameter}
    {args : List α} {last : Argument} (hfixed : ∀ p ∈ params, p.isVariadic = false)
    (hsupplies : Supplies params args)
    (hvalue : ∀ (i : Nat) (p : Parameter), params[i]? = some p →
      frame.value p.name = args[i]?.or (p.defaultValue eval))
    (hlast : last.values frame = some (args.drop params.length)) :
    ∃ defaults, AreDefaults eval (params.drop args.length) defaults ∧
      valuesOf frame (params.map Argument.ofParameter ++ [last]) = some (args ++ defaults) := by
  obtain ⟨defaults, hdefaults, hvalues⟩ := values_fixed hfixed hsupplies hvalue
  refine ⟨defaults, hdefaults, ?_⟩
  rw [map_ofParameter_of_fixed hfixed, valuesOf_variables hvalues hlast, Option.some.injEq]
  rcases Nat.le_total params.length args.length with hle | hle
  · -- no parameter was left out
    rw [AreDefaults, List.drop_eq_nil_of_le hle, List.forall₂_nil_left_iff] at hdefaults
    rw [hdefaults, List.append_nil, List.append_nil, List.take_append_drop]
  · rw [List.take_of_length_le hle, List.drop_eq_nil_of_le hle, List.append_nil]

/-! ### What is handed on -/

section Forwarded

variable {frame : Frame α} {eval : String → α} {params : List Parameter} {args : List α}

/-- Without parameters that are passed by reference the arguments are handed on as they are. -/
theorem valuesOf_forwarded_of_not_byRef (hframe : frame.Binds eval params args)
    (hbyRef : params.any (·.byRef) = false) :
    valuesOf frame (forwarded params) = some args := by
  rw [forwarded, hbyRef, valuesOf]
  simp [Argument.values, hframe.received]

theorem fixedParameters_eq_self (hfixed : ∀ p ∈ params, p.isVariadic = false) :
    fixedParameters params = params :=
  List.filter_eq_self.2 fun p hp => by rw [hfixed p hp]; rfl

/-- With them, the arguments are handed on and the defaults of what was left out. -/
theorem valuesOf_forwarded_of_byRef (hlast : ∀ p ∈ params.dropLast, p.isVariadic = false)
    (hsupplies : Supplies params args) (hframe : frame.Binds eval params args)
    (hbyRef : params.any (·.byRef) = true) :
    ∃ defaults, AreDefaults eval ((fixedParameters params).drop args.length) defaults ∧
      valuesOf frame (forwarded params) = some (args ++ defaults) := by
  obtain ⟨init, q, rfl⟩ : ∃ init q, params = init ++ [q] := by
    have hne : params ≠ [] := by
      rintro rfl
      cases hbyRef
    exact ⟨_, _, (List.dropLast_append_getLast hne).symm⟩
  rw [List.dropLast_concat] at hlast
  rw [forwarded, if_pos hbyRef, List.getLast?_concat, Option.any_some]
  cases hvariadic : q.isVariadic with
  | true =>
    -- the last argument unpacks what the variadic parameter took
    have hq : Argument.values frame (Argument.ofParameter q) = some (args.drop init.length) := by
      have hcollected := hframe.collected init.length q (by simp) hvariadic
      rw [Argument.ofParameter, if_pos hvariadic, Argument.values, hcollected]
    have hfixed : fixedParameters (init ++ [q]) = init := by
      rw [fixedParameters, List.filter_append, List.filter_eq_self.2 fun p hp => by
        rw [hlast p hp]; rfl]
      simp [hvariadic]
    have hget {i : Nat} {p : Parameter} (hp : init[i]? = some p) : (init ++ [q])[i]? = some p :=
      (List.getElem?_append_left (List.getElem?_eq_some_iff.1 hp).1).trans hp
    rw [if_pos rfl, hfixed, List.map_append, List.map_singleton]
    exact valuesOf_oneByOne hlast (fun i p hp => hsupplies i p (hget hp))
      (fun i p hp => hframe.value i p (hget hp) (hlast p (List.mem_of_getElem? hp))) hq
  | false =>
    -- the last argument is what was received behind the parameters
    have hfixed : ∀ p ∈ init ++ [q], p.isVariadic = false := by
      intro p hp
      rcases List.mem_append.1 hp with hp | hp
      · exact hlast p hp
      · rwa [List.mem_singleton.1 hp]
    have hrest : Argument.values frame (.after (init ++ [q]).length) =
        some (args.drop (init ++ [q]).length) := by
      rw [Argument.values, hframe.received]
    rw [if_neg (by decide), fixedParameters_eq_self hfixed]
    exact valuesOf_oneByOne hfixed hsupplies
      (fun i p hp => hframe.value i p hp (hfixed p (List.mem_of_getElem? hp))) hrest

/-- Handed on one by one, each parameter stands at its own place. -/
theorem getElem?_forwarded (hbyRef : params.any (·.byRef) = true) {i : Nat} {p : Parameter}
    (hp : params[i]? = some p) : (forwarded params)[i]? = some (.ofParameter p) := by
  have hmap : (params.map Argument.ofParameter)[i]? = some (.ofParameter p) := by
    rw [List.getElem?_map, hp, Option.map_some]
  rw [forwarded, if_pos hbyRef]
  split_ifs
  · exact hmap
  · exact (List.getElem?_append_left (List.getElem?_eq_some_iff.1 hmap).1).trans hmap

end Forwarded

/-! ### The text -/

open StringExpr (afterWord afterWord_eq_some_iff)

/-- A character that the name of a variable may hold. -/
def isVariableChar (c : Char) : Bool := c.isAlphanum || c == '_' || 128 ≤ c.toNat

/-- The text holds only characters of names. -/
def IsVariable (name : String) : Prop := ∀ c ∈ name.toList, isVariableChar c = true

instance : DecidablePred IsVariable := fun name => List.decidableBAll _ name.toList

namespace Argument

/-- The name in front of a text as the variable of an argument, and the rest. -/
def readVariable (argument : String → Argument) (l : List Char) : Argument × List Char :=
  (argument (String.ofList (l.takeWhile isVariableChar)), l.dropWhile isVariableChar)

/-- The number in front of a text, up to a closing parenthesis, and the rest. -/
def readAfter (l : List Char) : Option (Argument × List Char) :=
  (afterWord ")".toList (l.dropWhile Char.isDigit)).map
    (.after (Nat.ofDigitChars 10 (l.takeWhile Char.isDigit) 0), ·)

/-- What is unpacked in front of a text, and the rest. -/
def readUnpacked : List Char → Option (Argument × List Char)
  | '$' :: l => some (readVariable .unpacked l)
  | '\\' :: l => ((afterWord "func_get_args()".toList l).map (.everything, ·)).or
      ((afterWord "array_slice(\\func_get_args(), ".toList l).bind readAfter)
  | _ => none

/-- The argument in front of a text, and the rest. -/
def read : List Char → Option (Argument × List Char)
  | '$' :: l => some (readVariable .value l)
  | '.' :: '.' :: '.' :: l => readUnpacked l
  | _ => none

/-- The variables of the argument have names. -/
def Named : Argument → Prop
  | .value name => IsVariable name
  | .unpacked name => IsVariable name
  | _ => True

theorem span_run {isIn : Char → Bool} {run rest : List Char} (hrun : ∀ c ∈ run, isIn c = true)
    (hrest : rest.head?.any isIn = false) :
    (run ++ rest).takeWhile isIn = run ∧ (run ++ rest).dropWhile isIn = rest := by
  have hnot : rest.takeWhile isIn = [] ∧ rest.dropWhile isIn = rest := by
    cases rest with
    | nil => exact ⟨rfl, rfl⟩
    | cons c rest =>
      have hc : isIn c = false := by simpa using hrest
      exact ⟨List.takeWhile_cons_of_neg (by simp [hc]), List.dropWhile_cons_of_neg (by simp [hc])⟩
  rw [List.takeWhile_append_of_pos hrun, List.dropWhile_append_of_pos hrun, hnot.1, hnot.2,
    List.append_nil]
  exact ⟨rfl, rfl⟩

theorem readVariable_append {argument : String → Argument} {name : String} (hname : IsVariable name)
    {rest : List Char} (hrest : rest.head?.any isVariableChar = false) :
    readVariable argument (name.toList ++ rest) = (argument name, rest) := by
  obtain ⟨htake, hdrop⟩ := span_run hname hrest
  rw [readVariable, htake, hdrop, String.ofList_toList]

theorem readAfter_append (n : Nat) (rest : List Char) :
    readAfter (Nat.toDigits 10 n ++ (")".toList ++ rest)) = some (.after n, rest) := by
  have hdigits : ∀ c ∈ Nat.toDigits 10 n, c.isDigit = true := fun c hc =>
    Nat.isDigit_of_mem_toDigits (by decide) (by decide) hc
  have hclosed : (")".toList ++ rest).head?.any Char.isDigit = false := rfl
  obtain ⟨htake, hdrop⟩ := span_run hdigits hclosed
  rw [readAfter, htake, hdrop, afterWord_eq_some_iff.2 rfl, Nat.ofDigitChars_ten_toDigits]
  rfl

theorem toList_text_value (name : String) : (value name).text.toList = '$' :: name.toList := by
  unfold text
  simp

theorem toList_text_unpacked (name : String) :
    (unpacked name).text.toList = '.' :: '.' :: '.' :: '$' :: name.toList := by
  unfold text
  simp

theorem toList_text_after (n : Nat) : (after n).text.toList = '.' :: '.' :: '.' :: '\\' ::
    ("array_slice(\\func_get_args(), ".toList ++ (Nat.toDigits 10 n ++ ")".toList)) := by
  unfold text
  simp only [String.toList_append, List.append_assoc, Nat.toString_eq_ofList_toDigits,
    String.toList_ofList]
  rfl

/-- **An argument is read from its text**, where no further character of a name stands behind. -/
theorem read_text {a : Argument} (ha : a.Named) {rest : List Char}
    (hrest : rest.head?.any isVariableChar = false) :
    read (a.text.toList ++ rest) = some (a, rest) := by
  cases a with
  | value name =>
    rw [toList_text_value]
    exact congrArg some (readVariable_append ha hrest)
  | unpacked name =>
    rw [toList_text_unpacked]
    exact congrArg some (readVariable_append ha hrest)
  | everything =>
    have hword : afterWord "func_get_args()".toList ("func_get_args()".toList ++ rest) =
        some rest := afterWord_eq_some_iff.2 rfl
    change readUnpacked ('\\' :: ("func_get_args()".toList ++ rest)) = _
    rw [readUnpacked, hword]
    rfl
  | after n =>
    have hnot (l : List Char) : afterWord "func_get_args()".toList
        ("array_slice(\\func_get_args(), ".toList ++ l) = none := rfl
    rw [toList_text_after]
    change readUnpacked ('\\' :: ("array_slice(\\func_get_args(), ".toList ++
      (Nat.toDigits 10 n ++ ")".toList) ++ rest)) = _
    rw [List.append_assoc, List.append_assoc, readUnpacked, hnot, afterWord_eq_some_iff.2 rfl]
    exact readAfter_append n rest

end Argument

/-- **The text lists the arguments**, a comma between each two. -/
inductive Lists : List Char → List Argument → Prop
  | last {l : List Char} {a : Argument} : Argument.read l = some (a, []) → Lists l [a]
  | more {l rest : List Char} {a : Argument} {arguments : List Argument} :
      Argument.read l = some (a, ", ".toList ++ rest) → Lists rest arguments →
      Lists l (a :: arguments)

/-- A text lists nothing else beside. -/
theorem Lists.unique {l : List Char} {as bs : List Argument} (ha : Lists l as) (hb : Lists l bs) :
    as = bs := by
  induction ha generalizing bs with
  | last ha =>
    cases hb with
    | last hb => rw [(Prod.mk.inj (Option.some.inj (ha.symm.trans hb))).1]
    | more hb _ => simpa using (Prod.mk.inj (Option.some.inj (ha.symm.trans hb))).2
  | more ha _ ih =>
    cases hb with
    | last hb => simpa using (Prod.mk.inj (Option.some.inj (ha.symm.trans hb))).2
    | more hb hrest =>
      obtain ⟨rfl, h⟩ := Prod.mk.inj (Option.some.inj (ha.symm.trans hb))
      rw [ih (List.append_cancel_left h ▸ hrest)]

/-- **The arguments are all that their text lists.** -/
theorem lists_intercalate : ∀ {arguments : List Argument}, arguments ≠ [] →
    (∀ a ∈ arguments, a.Named) →
    Lists (", ".intercalate (arguments.map Argument.text)).toList arguments
  | [], hne, _ => absurd rfl hne
  | [a], _, hnamed => by
    have hread : Argument.read (a.text.toList ++ []) = some (a, []) :=
      Argument.read_text (hnamed a List.mem_cons_self) rfl
    exact .last (by simpa using hread)
  | a :: b :: arguments, _, hnamed => by
    have ih := lists_intercalate (List.cons_ne_nil b arguments)
      fun c hc => hnamed c (List.mem_cons_of_mem _ hc)
    refine .more ?_ ih
    rw [String.toList_intercalate]
    simp only [List.map_cons, List.intercalate_cons_cons, List.append_assoc]
    rw [Argument.read_text (hnamed a List.mem_cons_self) rfl]
    simp

theorem named_forwarded {params : List Parameter} (hnames : ∀ p ∈ params, IsVariable p.name) :
    ∀ a ∈ forwarded params, a.Named := by
  have hmap : ∀ a ∈ params.map Argument.ofParameter, a.Named := by
    simp only [List.forall_mem_map]
    intro p hp
    rw [Argument.ofParameter]
    split_ifs <;> exact hnames p hp
  rw [forwarded]
  split_ifs
  · exact hmap
  · exact List.forall_mem_append.2 ⟨hmap, List.forall_mem_singleton.2 trivial⟩
  · exact List.forall_mem_singleton.2 trivial

theorem forwarded_ne_nil (params : List Parameter) : forwarded params ≠ [] := by
  rw [forwarded]
  split_ifs with hbyRef
  · intro h
    rw [List.map_eq_nil_iff.1 h] at hbyRef
    cases hbyRef
  · simp
  · simp

/-- **The argument text of a signature lists what is handed on** and nothing else. -/
theorem Signature.lists_argumentText_iff {s : Signature} {params : List Parameter}
    (hs : s.arguments = forwarded params) (hnames : ∀ p ∈ params, IsVariable p.name)
    {arguments : List Argument} :
    Lists s.argumentText.toList arguments ↔ arguments = forwarded params := by
  have hlists : Lists s.argumentText.toList (forwarded params) := by
    rw [Signature.argumentText, hs]
    exact lists_intercalate (forwarded_ne_nil params) (named_forwarded hnames)
  exact ⟨fun h => h.unique hlists, fun h => h ▸ hlists⟩

/-! ### What a call hands on -/

/-- **What a call hands on is what it received**, in order, with nothing lost and nothing twice;
if a parameter is passed by reference, the defaults of the parameters that were left out follow.
Each parameter that is passed by reference is then handed on as its own variable, at its own
place. The argument text in the signature of a method or function lists this and nothing else. -/
theorem forwards_received {frame : Frame α} {eval : String → α} {params : List Parameter}
    {args : List α} (hlast : ∀ p ∈ params.dropLast, p.isVariadic = false)
    (hsupplies : Supplies params args) (hframe : frame.Binds eval params args) :
    ((fixedParameters params).length ≤ args.length →
      valuesOf frame (forwarded params) = some args) ∧
    (args.length < (fixedParameters params).length →
      (params.any (·.byRef) = false → valuesOf frame (forwarded params) = some args) ∧
      (params.any (·.byRef) = true →
        ∃ defaults, AreDefaults eval ((fixedParameters params).drop args.length) defaults ∧
          valuesOf frame (forwarded params) = some (args ++ defaults))) ∧
    (∀ (i : Nat) (p : Parameter), params[i]? = some p → p.byRef = true →
      (forwarded params)[i]? =
          some (if p.isVariadic then .unpacked p.name else .value p.name) ∧
        ∀ j < i, ∃ q, params[j]? = some q ∧ (forwarded params)[j]? = some (.value q.name)) ∧
    ((∀ p ∈ params, IsVariable p.name) →
      (∀ (r : Registry) (m : Method) (withTypes : Bool), m.parameters = params → ∀ arguments,
        Lists (r.signature m withTypes).argumentText.toList arguments ↔
          arguments = forwarded params) ∧
      ∀ (f : FunctionDecl) (withTypes : Bool), f.parameters = params → ∀ arguments,
        Lists (f.signature withTypes).argumentText.toList arguments ↔
          arguments = forwarded params) := by
  refine ⟨fun hle => ?_, fun _ => ⟨fun hbyRef => valuesOf_forwarded_of_not_byRef hframe hbyRef,
    fun hbyRef => valuesOf_forwarded_of_byRef hlast hsupplies hframe hbyRef⟩,
    fun i p hp hbyRef => ?_, fun hnames => ⟨?_, ?_⟩⟩
  · cases hbyRef : params.any (·.byRef) with
    | false => exact valuesOf_forwarded_of_not_byRef hframe hbyRef
    | true =>
      obtain ⟨defaults, hdefaults, hvalues⟩ :=
        valuesOf_forwarded_of_byRef hlast hsupplies hframe hbyRef
      rw [AreDefaults, List.drop_eq_nil_of_le hle, List.forall₂_nil_left_iff] at hdefaults
      rw [hvalues, hdefaults, List.append_nil]
  · have hany : params.any (·.byRef) = true :=
      List.any_eq_true.2 ⟨p, List.mem_of_getElem? hp, hbyRef⟩
    refine ⟨getElem?_forwarded hany hp, fun j hj => ?_⟩
    -- a parameter with another behind it stands for one value
    have hi : i < params.length := (List.getElem?_eq_some_iff.1 hp).1
    have hq : params[j]? = some params[j] := List.getElem?_eq_getElem (hj.trans hi)
    have hfixed : params[j].isVariadic = false := by
      refine hlast _ (List.mem_of_getElem? (i := j) ?_)
      rw [List.getElem?_dropLast, if_pos (by omega), hq]
    refine ⟨_, hq, (getElem?_forwarded hany hq).trans ?_⟩
    rw [Argument.ofParameter, if_neg (by rw [hfixed]; decide)]
  · rintro r m withTypes rfl arguments
    exact (r.signature m withTypes).lists_argumentText_iff rfl hnames
  · rintro f withTypes rfl arguments
    exact (f.signature withTypes).lists_argumentText_iff rfl hnames

namespace Sample

/-- A parameter that is passed by reference, one that may be left out, and all others. -/
def filling : List Parameter :=
  [{ name := "to", byRef := true }, { name := "by", default := some "null" },
    { name := "more", isVariadic := true }]

/-- What was left out is handed on as its default; nothing is unpacked behind it. -/
theorem filling_forwards : Supplies filling [7] ∧
    valuesOf (Frame.ofCall (·.length) filling [7]) (forwarded filling) = some [7, 4] := by
  have hbinds : (Frame.ofCall (·.length) filling [7]).Binds (·.length) filling [7] :=
    Frame.binds_ofCall _ (by decide) _
  have hsupplies : Supplies filling [7] := by
    rintro (_ | _ | _ | i) p hp hrequired
    · decide
    · cases hp; cases hrequired
    · cases hp; cases hrequired
    · simp [filling] at hp
  obtain ⟨defaults, hdefaults, hvalues⟩ :=
    ((forwards_received (by decide) hsupplies hbinds).2.1 (by decide)).2 (by decide)
  obtain ⟨d, rest, hd, hrest, rfl⟩ := List.forall₂_cons_left_iff.1 hdefaults
  obtain rfl := List.forall₂_nil_left_iff.1 hrest
  obtain rfl : 4 = d := Option.some.inj hd
  exact ⟨hsupplies, hvalues⟩

end Sample

end LazyClasses
