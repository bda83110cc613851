import LazyClasses.Declaration.Json
import LazyClasses.Proofs.FieldOrder
import LazyClasses.Proofs.FirstOfEach
/-! # Declarations are read back as they were written

A declaration is written with all of its parts, absent ones as `null`, and read part by part. What
is read is the declaration that was written, if the same holds of each of its type hints, which are
written as texts. The fields of objects may come in another order.

* `TypeHint.ComesBack`: the hint is what its text is read as.
* `decodeRecord_ofFields_iff`: a record that is written with a field for each of its places.
* `Parameter.ofJson?_toJson_iff` and its like: one kind of declaration.
* `ofJson?_reordered_iff`: classes and functions, in any order of fields. -/

namespace LazyClasses

open Json

/-- The hint is what its text is read as. -/
def TypeHint.ComesBack (hint : TypeHint) : Prop := parse hint.text = .ok hint

instance : DecidablePred TypeHint.ComesBack := fun hint =>
  inferInstanceAs (Decidable (TypeHint.parse hint.text = .ok hint))

namespace Json

/-! ### Values -/

section Values

variable {α : Type} {decode : Json → Except DecodeError α}

@[simp] theorem decodeString_ofString_iff {s t : String} :
    decodeString (ofString s) = .ok t ↔ s = t := by
  simp [decodeString, ofString]

@[simp] theorem decodeBool_bool_iff {b c : Bool} : decodeBool (.bool b) = .ok c ↔ b = c := by
  simp [decodeBool]

@[simp] theorem decodeOption_textToJson_iff {s t : Option String} :
    decodeOption decodeString (textToJson s) = .ok t ↔ s = t := by
  cases s <;> simp [textToJson, ofOption, decodeOption, ofString, decodeString, Except.map]

theorem decodeOption_hintToJson_iff {hint : Option TypeHint} :
    decodeOption decodeHint (hintToJson hint) = .ok hint ↔ ∀ h ∈ hint.toList, h.ComesBack := by
  cases hint with
  | none => simp [hintToJson, ofOption, decodeOption]
  | some h =>
    change ((TypeHint.parse h.text).mapError DecodeError.badType).map some = .ok (some h) ↔ _
    rw [map_eq_ok_iff]
    cases hparse : TypeHint.parse h.text <;>
      simp [Except.mapError, TypeHint.ComesBack, hparse]

theorem decodeList_ofList_iff {l : List α} {encode : α → Json} :
    decodeList decode (ofList (l.map encode)) = .ok l ↔ ∀ a ∈ l, decode (encode a) = .ok a := by
  have hitems : List.Forall₂ (fun i a => decode i = .ok a) (l.map encode) l ↔
      ∀ a ∈ l, decode (encode a) = .ok a := by
    rw [List.forall₂_map_left_iff, List.forall₂_same]
  rw [decodeList_eq_ok_iff, ← hitems]
  simp [ofList]

theorem decodeWord_ofString_iff {word : α → String} {known : List α}
    (hn : (known.map word).Nodup) {a b : α} (ha : a ∈ known) :
    decodeWord word known (ofString (word a)) = .ok b ↔ a = b := by
  simp [decodeWord, ofString, find?_key hn ha]

end Values

/-! ### Records -/

section Records

variable {α : Type} {slots : List (Slot α)} {record result : α}

/-- Fields that stand in the order of the places are taken like a list of values. -/
theorem putFields_eq_putItems (hn : (slots.map Slot.name).Nodup) {fields : List (String × Json)} :
    ∀ {rest : List (Slot α)} {seen : List String} {record : α}, rest.Sublist slots →
    (∀ s ∈ rest, s.name ∉ seen) → fields.map Prod.fst = rest.map Slot.name →
    putFields slots seen record (fields.map fun f => (some f.1, f.2)) =
      putItems record rest (fields.map Prod.snd) := by
  induction fields with
  | nil =>
    intro rest seen record _ _ _
    rw [List.map_nil, List.map_nil, putFields, putItems]
  | cons field fields ih =>
    intro rest seen record hrest hseen hfields
    obtain _ | ⟨s, rest⟩ := rest
    · cases hfields
    obtain ⟨key, value⟩ := field
    rw [List.map_cons, List.map_cons, List.cons.injEq] at hfields
    obtain ⟨rfl, hfields⟩ := hfields
    have hslot := find?_key hn (hrest.subset List.mem_cons_self)
    have hnames : (s.name :: rest.map Slot.name).Nodup := (hrest.map Slot.name).nodup hn
    simp only [List.map_cons, putFields, putItems, hslot, if_neg (hseen s List.mem_cons_self)]
    cases s.put value record with
    | error e => rfl
    | ok next =>
      refine ih ((List.sublist_cons_self s rest).trans hrest) (fun t ht hmem => ?_) hfields
      rcases List.mem_cons.1 hmem with hname | hmem
      · exact (List.nodup_cons.1 hnames).1 (hname ▸ List.mem_map_of_mem ht)
      · exact hseen t (List.mem_cons_of_mem _ ht) hmem

/-- **A record with a field for each place**, in order, is read place by place. -/
theorem decodeRecord_ofFields_iff {called : String} {default : α} {fields : List (String × Json)}
    (hn : (slots.map Slot.name).Nodup) (hfields : fields.map Prod.fst = slots.map Slot.name) :
    decodeRecord called slots default (ofFields fields) = .ok result ↔
      putItems default slots (fields.map Prod.snd) = .ok result := by
  rw [ofFields, decodeRecord_object_eq_ok_iff,
    putFields_eq_putItems hn (List.Sublist.refl slots) (fun s _ => List.not_mem_nil) hfields,
    and_iff_left rfl]

@[simp] theorem putItems_nil_iff : putItems record [] [] = .ok result ↔ record = result := by
  simp [putItems]

@[simp] theorem putItems_slot_iff {β : Type} {name : String} {decode : Json → Except DecodeError β}
    {set : α → β → α} {value : Json} {values : List Json} :
    putItems record (slot name decode set :: slots) (value :: values) = .ok result ↔
      ∃ b, decode value = .ok b ∧ putItems (set record b) slots values = .ok result := by
  rw [putItems_cons_eq_ok_iff]
  simp only [slot, map_eq_ok_iff]
  constructor
  · rintro ⟨_, ⟨b, hb, rfl⟩, h⟩
    exact ⟨b, hb, h⟩
  · rintro ⟨b, hb, h⟩
    exact ⟨_, ⟨b, hb, rfl⟩, h⟩

end Records

end Json

/-! ### Each kind of declaration -/

@[simp] theorem Visibility.ofJson?_keyword_iff {v w : Visibility} :
    ofJson? (ofString v.keyword) = .ok w ↔ v = w :=
  decodeWord_ofString_iff (by decide) (by cases v <;> decide)

@[simp] theorem ClassKind.ofJson?_keyword_iff {k l : ClassKind} :
    ofJson? (ofString k.keyword) = .ok l ↔ k = l :=
  decodeWord_ofString_iff (by decide) (by cases k <;> decide)

/-- The type hints of a parameter. -/
def Parameter.hints (p : Parameter) : List TypeHint := p.hint.toList

def Method.hints (m : Method) : List TypeHint :=
  m.parameters.flatMap Parameter.hints ++ m.returnType.toList

def FunctionDecl.hints (f : FunctionDecl) : List TypeHint :=
  f.parameters.flatMap Parameter.hints ++ f.returnType.toList

def Property.hints (p : Property) : List TypeHint := p.hint.toList

/-- The type hints of a class, at any depth. -/
def ClassDecl.hints (c : ClassDecl) : List TypeHint :=
  c.methods.flatMap Method.hints ++ c.properties.flatMap Property.hints

section Declarations

/-- Every item of the list comes back iff the hints of all of them do. -/
theorem forall_hints_flatMap {α : Type} {hints : α → List TypeHint} {l : List α} {P : α → Prop}
    (h : ∀ a, P a ↔ ∀ hint ∈ hints a, hint.ComesBack) :
    (∀ a ∈ l, P a) ↔ ∀ hint ∈ l.flatMap hints, hint.ComesBack := by
  simp only [h, List.mem_flatMap]
  exact ⟨fun hall hint ⟨a, ha, hmem⟩ => hall a ha hint hmem,
    fun hall a ha hint hmem => hall hint ⟨a, ha, hmem⟩⟩

theorem Parameter.ofJson?_toJson_iff (p : Parameter) :
    ofJson? p.toJson = .ok p ↔ ∀ hint ∈ p.hints, hint.ComesBack := by
  obtain ⟨name, hint, default, isVariadic, byRef, isSensitive⟩ := p
  rw [ofJson?, toJson, decodeRecord_ofFields_iff (by decide) rfl, hints,
    ← decodeOption_hintToJson_iff]
  simp [slots]

theorem Method.ofJson?_toJson_iff (m : Method) :
    ofJson? m.toJson = .ok m ↔ ∀ hint ∈ m.hints, hint.ComesBack := by
  obtain ⟨name, visibility, isStatic, isAbstract, isFinal, returnsRef, declaringClass, parameters,
    returnType, isTentative⟩ := m
  rw [ofJson?, toJson, decodeRecord_ofFields_iff (by decide) rfl, hints, List.forall_mem_append,
    ← decodeOption_hintToJson_iff, ← forall_hints_flatMap Parameter.ofJson?_toJson_iff,
    ← decodeList_ofList_iff]
  simp [slots]

theorem FunctionDecl.ofJson?_toJson_iff (f : FunctionDecl) :
    ofJson? f.toJson = .ok f ↔ ∀ hint ∈ f.hints, hint.ComesBack := by
  obtain ⟨name, parameters, returnType, returnsRef, isTentative, isClosure⟩ := f
  rw [ofJson?, toJson, decodeRecord_ofFields_iff (by decide) rfl, hints, List.forall_mem_append,
    ← decodeOption_hintToJson_iff, ← forall_hints_flatMap Parameter.ofJson?_toJson_iff,
    ← decodeList_ofList_iff]
  simp [slots]

theorem Property.ofJson?_toJson_iff (p : Property) :
    ofJson? p.toJson = .ok p ↔ ∀ hint ∈ p.hints, hint.ComesBack := by
  obtain ⟨name, visibility, isStatic, isReadonly, hint, default⟩ := p
  rw [ofJson?, toJson, decodeRecord_ofFields_iff (by decide) rfl, hints,
    ← decodeOption_hintToJson_iff]
  simp [slots]

theorem ClassDecl.ofJson?_toJson_iff (c : ClassDecl) :
    ofJson? c.toJson = .ok c ↔ ∀ hint ∈ c.hints, hint.ComesBack := by
  obtain ⟨name, kind, isFinal, isAbstract, isInternal, isReadonly, parent, interfaces, methods,
    properties⟩ := c
  have hinterfaces : decodeList decodeString (ofList (interfaces.map ofString)) = .ok interfaces :=
    decodeList_ofList_iff.2 fun _ _ => rfl
  rw [ofJson?, toJson, decodeRecord_ofFields_iff (by decide) rfl, hints, List.forall_mem_append,
    ← forall_hints_flatMap Method.ofJson?_toJson_iff,
    ← forall_hints_flatMap Property.ofJson?_toJson_iff, ← decodeList_ofList_iff,
    ← decodeList_ofList_iff]
  simp [slots, hinterfaces]

end Declarations

/-! ### Any order of fields -/

section Reordered

@[simp] theorem Visibility.unordered_ofJson? : Unordered Visibility.ofJson? :=
  unordered_decodeWord _ _

@[simp] theorem ClassKind.unordered_ofJson? : Unordered ClassKind.ofJson? :=
  unordered_decodeWord _ _

@[simp] theorem Parameter.unordered_ofJson? : Unordered Parameter.ofJson? :=
  Independent.unordered_decodeRecord ⟨by simp [slots], by simp [slots]⟩ _ _

@[simp] theorem Method.unordered_ofJson? : Unordered Method.ofJson? :=
  Independent.unordered_decodeRecord ⟨by simp [slots], by simp [slots]⟩ _ _

@[simp] theorem Property.unordered_ofJson? : Unordered Property.ofJson? :=
  Independent.unordered_decodeRecord ⟨by simp [slots], by simp [slots]⟩ _ _

theorem FunctionDecl.unordered_ofJson? : Unordered FunctionDecl.ofJson? :=
  Independent.unordered_decodeRecord ⟨by simp [slots], by simp [slots]⟩ _ _

theorem ClassDecl.unordered_ofJson? : Unordered ClassDecl.ofJson? :=
  Independent.unordered_decodeRecord ⟨by simp [slots], by simp [slots]⟩ _ _

end Reordered

/-- **Declarations are read back as they were written.** A class or a function that is written with
all of its parts, in objects whose fields may come in any order at any depth, is what is read there
iff each of its type hints is what its text is read as. -/
theorem ofJson?_reordered_iff (c : ClassDecl) (f : FunctionDecl) :
    (∀ j, Relation.ReflTransGen Reorders c.toJson j →
      (ClassDecl.ofJson? j = .ok c ↔ ∀ hint ∈ c.hints, hint.ComesBack)) ∧
    ∀ j, Relation.ReflTransGen Reorders f.toJson j →
      (FunctionDecl.ofJson? j = .ok f ↔ ∀ hint ∈ f.hints, hint.ComesBack) := by
  refine ⟨fun j h => ?_, fun j h => ?_⟩
  · rw [← c.ofJson?_toJson_iff]
    exact (ClassDecl.unordered_ofJson?.eq_ok_iff h).symm
  · rw [← f.ofJson?_toJson_iff]
    exact (FunctionDecl.unordered_ofJson?.eq_ok_iff h).symm

namespace Sample

/-- A class with a type hint of each kind. -/
def mailer : ClassDecl := {
  name := "App\\Mailer"
  kind := .plainClass
  isFinal := true
  parent := some "App\\Sender"
  interfaces := ["Countable", "App\\Queue"]
  methods := [{
    name := "send"
    visibility := .protectedAccess
    declaringClass := "App\\Mailer"
    parameters := [
      { name := "to", hint := some (.named "string" true), default := some "null" },
      { name := "parts", isVariadic := true, byRef := true }]
    returnType := some (.union [
      .intersection [.named "Countable" false, .named "App\\Queue" false], .named "null" false])
    isTentative := true }]
  properties := [
    { name := "count", visibility := .privateAccess, hint := some (.named "int" false) },
    { name := "log", isStatic := true, default := some "[]" }] }

def greet : FunctionDecl := {
  name := "greet"
  parameters := [{ name := "name", hint := some (.named "self" false), isSensitive := true }]
  returnType := some (.named "never" false)
  isClosure := true }

/-- The object with its fields from back to front. -/
def backwards : Json → Json
  | .object fields ending => .object fields.reverse ending
  | j => j

theorem reorders_backwards (fields : List (String × Json)) :
    Relation.ReflTransGen Reorders (ofFields fields) (backwards (ofFields fields)) :=
  .single (.fields .closed (List.reverse_perm _).symm)

theorem mailer_read :
    (∀ hint ∈ mailer.hints, hint.ComesBack) ∧ (∀ hint ∈ greet.hints, hint.ComesBack) ∧
      ClassDecl.ofJson? (backwards mailer.toJson) = .ok mailer ∧
      FunctionDecl.ofJson? (backwards greet.toJson) = .ok greet := by
  have hmailer : ∀ hint ∈ mailer.hints, hint.ComesBack := by decide +kernel
  have hgreet : ∀ hint ∈ greet.hints, hint.ComesBack := by decide +kernel
  have h := ofJson?_reordered_iff mailer greet
  exact ⟨hmailer, hgreet, (h.1 _ (reorders_backwards _)).2 hmailer,
    (h.2 _ (reorders_backwards _)).2 hgreet⟩

end Sample

end LazyClasses
