import LazyClasses.Proofs.PairedGenerators
import LazyClasses.Proofs.Registration
/-! # The spelling of references

References are followed through the lookup alone, and what is shown of a known class is the name
under which it was registered. So two lists of classes that differ only in how they spell
references to known classes describe the same: the same graph, the same scopes and signatures, and
lazy classes of the same text.

* `ClassName.Respelled`: another case of letters, one leading `\` more or less.
* `Respelled.key_eq`: known classes that are respelled are the same.
* `SameUpToSpelling`: references to known classes that may be spelt in other ways.
* `sameTexts_of_respelled`: what the two registries tell alike. -/

namespace LazyClasses

namespace ClassName

/-- The spellings differ at most in the case of letters and in one leading `\`. -/
def Respelled (p p' : String) : Prop :=
  Text.same p p' = true ∨ Text.same p ("\\" ++ p') = true ∨ Text.same ("\\" ++ p) p' = true

instance (p p' : String) : Decidable (Respelled p p') := by
  unfold Respelled; infer_instance

/-- The name begins with `\`. -/
def Rooted (name : String) : Prop := name.toList.head? = some '\\'

instance (name : String) : Decidable (Rooted name) := by
  unfold Rooted; infer_instance

theorem bare_separator (p : String) : bare ("\\" ++ p) = p := by
  rw [bare, String.toList_append]
  exact String.ofList_toList

theorem bare_of_not_rooted {p : String} (h : ¬ Rooted p) : bare p = p := by
  rw [bare, bareChars_of_head?_ne h, String.ofList_toList]

theorem separator_bare {p : String} (h : Rooted p) : "\\" ++ bare p = p := by
  obtain ⟨rest, hrest⟩ := List.head?_eq_some_iff.1 h
  rw [← String.toList_inj, String.toList_append, toList_bare, hrest]
  rfl

theorem rooted_lower_iff {p : String} : Rooted (Text.lower p) ↔ Rooted p := by
  rw [Rooted, Rooted, Text.toList_lower, List.head?_map, Option.map_eq_some_iff]
  simp [toLower_eq_separator_iff]

namespace Respelled

variable {p p' : String}

theorem symm (h : Respelled p p') : Respelled p' p := by
  rcases h with h | h | h
  · exact .inl (by rwa [Text.same_comm])
  · exact .inr (.inr (by rwa [Text.same_comm]))
  · exact .inr (.inl (by rwa [Text.same_comm]))

/-- Without the separator that differs, the names are the same. -/
theorem key_eq_of_separator (h : Text.same p ("\\" ++ p') = true) (hp : ¬ Rooted (key p)) :
    key p = key p' := by
  have hlower : key p = Text.lower p' := by
    rw [key_eq_bare_lower, Text.same_iff.1 h, Text.lower_separator, bare_separator]
  rw [hlower] at hp ⊢
  rw [key_eq_bare_lower, bare_of_not_rooted hp]

/-- **Respelled references have the same key**, unless a separator stays in front. -/
theorem key_eq (h : Respelled p p') (hp : ¬ Rooted (key p)) (hp' : ¬ Rooted (key p')) :
    key p = key p' := by
  rcases h with h | h | h
  · rw [key_eq_bare_lower, key_eq_bare_lower, Text.same_iff.1 h]
  · exact key_eq_of_separator h hp
  · rw [Text.same_comm] at h
    exact (key_eq_of_separator h hp').symm

theorem bare_of_separator (h : Text.same p ("\\" ++ p') = true) :
    Respelled (bare p) (bare p') := by
  have hlower : Text.lower (bare p) = Text.lower p' := by
    rw [← key, key_eq_bare_lower, Text.same_iff.1 h, Text.lower_separator, bare_separator]
  by_cases hp' : Rooted p'
  · refine .inr (.inl ?_)
    rwa [separator_bare hp', Text.same_iff]
  · refine .inl ?_
    rwa [bare_of_not_rooted hp', Text.same_iff]

/-- Registering a class keeps its references respelled. -/
theorem bare (h : Respelled p p') : Respelled (bare p) (bare p') := by
  rcases h with h | h | h
  · refine .inl (Text.same_iff.2 ?_)
    rw [← key, ← key, key_eq_bare_lower, key_eq_bare_lower, Text.same_iff.1 h]
  · exact bare_of_separator h
  · rw [Text.same_comm] at h
    exact (bare_of_separator h).symm

end Respelled

end ClassName

/-! ### Classes that differ in their references -/

/-- The classes differ at most in their references, and each of those in the way that is given. -/
structure ClassDecl.SameBut (R : String → String → Prop) (c c' : ClassDecl) : Prop where
  frame : c' = { c with parent := c'.parent, interfaces := c'.interfaces }
  parent : Option.Rel R c.parent c'.parent
  interfaces : List.Forall₂ R c.interfaces c'.interfaces

namespace ClassDecl.SameBut

variable {R Q : String → String → Prop} {c c' : ClassDecl}

theorem name_eq (h : SameBut R c c') : c.name = c'.name := by rw [h.frame]

theorem normalize (h : SameBut R c c')
    (hRQ : ∀ p p', R p p' → Q (ClassName.bare p) (ClassName.bare p')) :
    SameBut Q c.normalize c'.normalize where
  frame := congrArg ClassDecl.normalize h.frame
  parent := rel_option_map h.parent hRQ
  interfaces := List.rel_map (fun p p' => hRQ p p') h.interfaces

end ClassDecl.SameBut

namespace Registry

/-- References to classes that are known in both registries, or the same reference. A class refers
to what is left of a reference after one leading `\`. -/
def SameUpToSpelling (r r' : Registry) (p p' : String) : Prop :=
  p = p' ∨ ClassName.Respelled p p' ∧ r.contains (ClassName.bare p) = true ∧
    r'.contains (ClassName.bare p') = true

/-- A request for a class that both registries know, in spellings that may differ. -/
structure SameRequest (r r' : Registry) (q q' : String) : Prop where
  spelling : ClassName.Respelled q q'
  known : r.contains q = true
  known' : r'.contains q' = true

section Lists

variable {l l' : List ClassDecl}

theorem not_rooted_of_contains (hl : ∀ c ∈ l, ¬ ClassName.Rooted (ClassName.bare c.name))
    {name : String} (h : (insertAll ∅ l).contains name = true) :
    ¬ ClassName.Rooted (ClassName.key name) := by
  rw [contains_insertAll_iff, List.map_cons, List.mem_cons] at h
  rcases h with h | h
  · rw [h]
    decide
  · obtain ⟨c, hc, hkey⟩ := List.mem_map.1 h
    rw [← hkey, ClassName.key, ClassName.rooted_lower_iff]
    exact hl c hc

variable {R : String → String → Prop} (h : List.Forall₂ (ClassDecl.SameBut R) l l')

include h

theorem contains_insertAll_eq (name : String) :
    (insertAll ∅ l).contains name = (insertAll ∅ l').contains name := by
  have hnames : l.map (ClassName.key ·.name) = l'.map (ClassName.key ·.name) :=
    map_eq_of_forall₂ h fun c c' hc => by rw [hc.name_eq]
  rw [Bool.eq_iff_iff, contains_insertAll_iff, contains_insertAll_iff, List.map_cons, hnames,
    List.map_cons]

omit h in
/-- Registering forgets how a reference to a known class was spelt. -/
theorem sameReference_bare (hl : ∀ c ∈ l, ¬ ClassName.Rooted (ClassName.bare c.name))
    (hcontains : ∀ name, (insertAll ∅ l).contains name = (insertAll ∅ l').contains name)
    {p p' : String} (hp : SameUpToSpelling (insertAll ∅ l) (insertAll ∅ l') p p') :
    (insertAll ∅ l).SameReference (ClassName.bare p) (ClassName.bare p') := by
  rcases hp with rfl | ⟨hspelling, hknown, hknown'⟩
  · exact .inl rfl
  · rw [← hcontains] at hknown'
    exact .inr ⟨hspelling.bare.key_eq (not_rooted_of_contains hl hknown)
      (not_rooted_of_contains hl hknown'), hknown⟩

end Lists

section Respelled

variable {l l' : List ClassDecl}
  (h : List.Forall₂
    (ClassDecl.SameBut (SameUpToSpelling (insertAll ∅ l) (insertAll ∅ l'))) l l')
  (hl : ∀ c ∈ l, ¬ ClassName.Rooted (ClassName.bare c.name))

include h hl in
theorem find?_respelled (name : String) :
    Option.Rel (ClassDecl.SameBut (insertAll ∅ l).SameReference)
      ((insertAll ∅ l).find? name) ((insertAll ∅ l').find? name) := by
  have hstd : ClassDecl.SameBut (SameUpToSpelling (insertAll ∅ l) (insertAll ∅ l'))
      ClassDecl.stdClass ClassDecl.stdClass := ⟨rfl, .none, .nil⟩
  refine rel_find?_insertAll (.cons hstd h) (fun c c' hc => hc.name_eq) (fun c c' hc => ?_) name
  exact hc.normalize fun p p' => sameReference_bare hl (contains_insertAll_eq h)

/-- A class stands for the one with the same references in other spellings. -/
def respelled : Pairing (insertAll ∅ l) (insertAll ∅ l') :=
  Pairing.ofClasses (ClassDecl.SameBut (insertAll ∅ l).SameReference) (find?_respelled h hl)
    ClassDecl.SameBut.frame ClassDecl.SameBut.parent ClassDecl.SameBut.interfaces

include h hl in
theorem SameRequest.reference {q q' : String}
    (hq : SameRequest (insertAll ∅ l) (insertAll ∅ l') q q') :
    (insertAll ∅ l).SameReference q q' := by
  have hknown' := hq.known'
  rw [← contains_insertAll_eq h] at hknown'
  exact .inr ⟨hq.spelling.key_eq (not_rooted_of_contains hl hq.known)
    (not_rooted_of_contains hl hknown'), hq.known⟩

end Respelled

/-! ### What is told alike -/

/-- The classes have the same names above them and the same methods. -/
structure SameClass (r r' : Registry) (c c' : ClassDecl) : Prop where
  name : c.name = c'.name
  ancestors : (r.ancestors c).map ClassDecl.name = (r'.ancestors c').map ClassDecl.name
  interfaces : (r.interfaces c).map ClassDecl.name = (r'.interfaces c').map ClassDecl.name
  isA : ∀ type type', ClassName.key type = ClassName.key type' ∨ r.SameRequest r' type type' →
    r.isA c type = r'.isA c' type'
  method? : ∀ name, r.method? c name = r'.method? c' name
  methods : r.methods c = r'.methods c'

/-- Requests for known classes, in any spelling, are answered alike, and from an empty cache the
lazy classes have the same text. -/
structure SameTexts (r r' : Registry) : Prop where
  found : ∀ q q', r.SameRequest r' q q' →
    ∃ c c', r.find? q = some c ∧ r'.find? q' = some c' ∧ r.SameClass r' c c'
  prototype? : ∀ m, r.prototype? m = r'.prototype? m
  signature : ∀ m withTypes, r.signature m withTypes = r'.signature m withTypes
  propertyScopes : ∀ q q', r.SameRequest r' q q' → r.propertyScopes q = r'.propertyScopes q'
  ghostFor : ∀ options q q', r.SameRequest r' q q' →
    ((r.generator options).ghostFor ∅ q).map (·.1.generated options) =
      ((r'.generator options).ghostFor ∅ q').map (·.1.generated options)
  proxyFor : ∀ options cls cls' interfaces interfaces', Option.Rel (r.SameRequest r') cls cls' →
    List.Forall₂ (r.SameRequest r') interfaces interfaces' →
    ((r.generator options).proxyFor ∅ cls interfaces).map (·.1.generated options) =
      ((r'.generator options).proxyFor ∅ cls' interfaces').map (·.1.generated options)

/-- **The spelling of references does not show.** If two lists of classes differ only in the case of
letters and in one leading `\` of references that both registries know, and no registered name
begins with `\`, then all that is told of known classes is the same. -/
theorem sameTexts_of_respelled {l l' : List ClassDecl}
    (h : List.Forall₂
      (ClassDecl.SameBut (SameUpToSpelling (insertAll ∅ l) (insertAll ∅ l'))) l l')
    (hl : ∀ c ∈ l, ¬ ClassName.Rooted (ClassName.bare c.name)) :
    SameTexts (insertAll ∅ l) (insertAll ∅ l') := by
  let P := respelled h hl
  have F (options : Options) := P.faithful (fun m m' hm => hm) options
  have hrequest (q q' : String) (hq : SameRequest (insertAll ∅ l) (insertAll ∅ l') q q') :
      (insertAll ∅ l).SameReference q q' := hq.reference h hl
  refine ⟨fun q q' hq => ?_, fun m => eq_of_rel (P.prototype? rfl), fun m => P.signature_eq rfl,
    fun q q' hq => P.propertyScopes_eq (hrequest q q' hq), fun options q q' hq => ?_,
    fun options cls cls' interfaces interfaces' hcls hinterfaces => ?_⟩
  · obtain ⟨c, hc⟩ := Option.isSome_iff_exists.1 hq.known
    obtain ⟨c', hc', hcc⟩ := P.find?_some (hrequest q q' hq) hc
    exact ⟨c, c', hc, hc', {
      name := P.name_eq hcc
      ancestors := map_eq_of_forall₂ (P.ancestors hcc) fun a a' => P.name_eq
      interfaces := map_eq_of_forall₂ (P.interfaces hcc) fun i i' => P.name_eq
      isA := fun type type' htype => P.isA_eq hcc <| Text.same_iff.2 <|
        htype.elim id fun hq => (hrequest type type' hq).key_eq
      method? := fun name => eq_of_rel (P.method? hcc name)
      methods := eq_of_forall₂ (P.methods hcc) }⟩
  · exact (P.ghostFor (F options) (hrequest q q' hq) ∅).map_eq fun made made' hmade =>
      hmade.generated_eq options
  · have hcls := rel_imp hcls hrequest
    have hinterfaces := hinterfaces.imp hrequest
    exact (P.proxyFor (F options) hcls hinterfaces ∅).map_eq fun made made' hmade =>
      hmade.generated_eq options

end Registry

namespace Sample

open Registry

/-- A class, an interface, and a class that refers to both as it is told. -/
def shapes (parent interface : String) : List ClassDecl :=
  [{ name := "App\\Shape" }, { name := "Drawable", kind := .interface },
    { name := "Square", parent := some parent, interfaces := [interface] }]

theorem shapes_sameBut {R : String → String → Prop} {p p' i i' : String} (hp : R p p')
    (hi : R i i') : List.Forall₂ (ClassDecl.SameBut R) (shapes p i) (shapes p' i') :=
  .cons ⟨rfl, .none, .nil⟩ <| .cons ⟨rfl, .none, .nil⟩ <|
    .cons ⟨rfl, .some hp, .cons hi .nil⟩ .nil

theorem shapes_respelled :
    SameRequest (insertAll ∅ (shapes "\\App\\Shape" "drawable"))
      (insertAll ∅ (shapes "app\\SHAPE" "\\Drawable")) "Square" "\\square" ∧
    SameTexts (insertAll ∅ (shapes "\\App\\Shape" "drawable"))
      (insertAll ∅ (shapes "app\\SHAPE" "\\Drawable")) := by
  have hknown {p i name : String} (h : ClassName.key name ∈
      ["stdClass", "App\\Shape", "Drawable", "Square"].map ClassName.key) :
      (insertAll ∅ (shapes p i)).contains name = true := by
    rw [contains_insertAll_iff]
    exact h
  refine ⟨⟨by decide, hknown (by decide +kernel), hknown (by decide +kernel)⟩, ?_⟩
  refine sameTexts_of_respelled (shapes_sameBut (.inr ?_) (.inr ?_)) (by decide)
  · exact ⟨by decide, hknown (by decide +kernel), hknown (by decide +kernel)⟩
  · exact ⟨by decide, hknown (by decide +kernel), hknown (by decide +kernel)⟩

end Sample

end LazyClasses
