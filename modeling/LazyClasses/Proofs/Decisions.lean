import LazyClasses.LazyClass.Proxy
import LazyClasses.Proofs.Methods
import Mathlib.Tactic.ByContra
/-! # What becomes of the methods of a proxy

The methods that count are decided about from the front, and a decision hangs on those before it.
When none is refused, what is left of that order is small: of the methods that are `Required` and
that the trait does not define, the first of each name is declared again.

* `MustProxy`, `Required`: which methods the proxy has to declare, said without the scan.
* `decide_of_wanted`, `decide_of_final`, `wanted_of_decide`: one step.
* `forwarded_decideAll`: what a whole scan declares.
* `not_wanted_of_kept`: behind a final method that is kept, its name is not declared. -/

namespace LazyClasses.Generator

variable {g : Generator} {t : Target} {must : Bool}

/-! ### Methods that have to be declared -/

/-- Every call has to reach the real object: the class or an ancestor of it is internal, or there
is a `__get` that promises another type than `mixed`. -/
def MustProxy (g : Generator) (t : Target) : Prop :=
  (∃ c, t.cls = some c ∧ ∃ a ∈ c :: g.registry.ancestors c,
    a.isInternal = true ∧ Text.same a.name g.options.sentinel = false) ∨
  ∃ m ∈ g.candidates t, Text.same m.name "__get" = true ∧ g.getterType m ≠ "mixed"

theorem narrowGetter?_isSome_iff : (g.narrowGetter? t).isSome = true ↔
    ∃ m ∈ g.candidates t, Text.same m.name "__get" = true ∧ g.getterType m ≠ "mixed" := by
  simp [narrowGetter?, List.find?_isSome, isGetter]

theorem extendsInternal_iff : g.extendsInternal t = true ↔
    ∃ c, t.cls = some c ∧ ∃ a ∈ c :: g.registry.ancestors c,
      a.isInternal = true ∧ Text.same a.name g.options.sentinel = false := by
  simp only [extendsInternal, Option.any_eq_true, List.any_eq_true, ClassDecl.isForeign,
    Bool.and_eq_true, Bool.not_eq_true']

theorem mustProxy_iff : g.mustProxy t = true ↔ g.MustProxy t := by
  rw [mustProxy, Bool.or_eq_true, extendsInternal_iff, narrowGetter?_isSome_iff, MustProxy]

instance (g : Generator) (t : Target) : Decidable (g.MustProxy t) :=
  decidable_of_iff (g.mustProxy t = true) mustProxy_iff

/-- **A method that the proxy has to declare**: one without a body, or one that any object may be
asked for and whose call must not miss the real object. Final methods stay as they are. -/
def Required (g : Generator) (t : Target) (m : Method) : Prop :=
  m.isFinal = false ∧ (m.isAbstract = true ∨
    (m.isStatic = false ∧ m.isProtected = false ∧
      (m.returnsNothing = true ∨ g.MustProxy t ∨ g.mayReturnProxy t m = true)))

instance (g : Generator) (t : Target) (m : Method) : Decidable (g.Required t m) := by
  unfold Required; infer_instance

/-- Whether the scan wants to declare the method, `must` saying whether every call has to reach
the real object. -/
def wanted (g : Generator) (t : Target) (must : Bool) (m : Method) : Bool :=
  !m.isFinal && !Support.isProxyMethod m.name && (m.isAbstract ||
    (!m.isStatic && !m.isProtected && (m.returnsNothing || must || g.mayReturnProxy t m)))

theorem wanted_iff {m : Method} : g.wanted t (g.mustProxy t) m = true ↔
    Support.isProxyMethod m.name = false ∧ g.Required t m := by
  simp only [wanted, Required, Bool.and_eq_true, Bool.or_eq_true, Bool.not_eq_true',
    mustProxy_iff, and_assoc, or_assoc]
  exact and_left_comm

/-- Without a result type, `__get` promises `mixed`. -/
theorem getterType_eq_getD (g : Generator) (m : Method) : g.getterType m =
    (m.returnType.map fun hint =>
      hint.render (g.registry.scope m.declaringClass) .full).getD "mixed" := by
  unfold getterType
  cases m.returnType <;> rfl

/-! ### One step -/

section Step
variable {before : Progress} {m : Method}

/-- A method whose name is taken is passed over. -/
theorem decide_of_mem_taken (hk : m.key ∈ before.taken) :
    g.decide t must before m = .passOver := by
  simp [decide, hk]

/-- A wanted method is declared again unless a final method of its name was kept. -/
theorem decide_of_wanted (hk : m.key ∉ before.taken) (hw : g.wanted t must m = true) :
    g.decide t must before m =
      match before.finals.find? (·.key == m.key) with
      | some final => .refuse final
      | none => .forward := by
  simp only [wanted, Bool.and_eq_true, Bool.not_eq_true'] at hw
  obtain ⟨⟨hf, hp⟩, hw⟩ := hw
  have hstatic : (m.isStatic && !m.isAbstract) = false := by
    cases hs : m.isStatic <;> cases ha : m.isAbstract <;> simp_all
  have hprotected : (m.isProtected && !m.isAbstract) = false := by
    cases hs : m.isProtected <;> cases ha : m.isAbstract <;> simp_all
  have hforward : (m.isStatic || m.returnsNothing || must || m.isAbstract ||
      g.mayReturnProxy t m) = true := by
    cases ha : m.isAbstract <;> simp_all
  cases hfind : before.finals.find? (·.key == m.key) <;>
    simp [decide, hk, hf, hp, hstatic, hprotected, hfind, hforward]

/-- A final method that is called on objects, or has no body, is kept or in the way. -/
theorem decide_of_final (hk : m.key ∉ before.taken) (hf : m.isFinal = true)
    (hs : m.isStatic = true → m.isAbstract = true) :
    g.decide t must before m =
      if must || Support.isProxyMethod m.name then .refuse m else .keepFinal := by
  have hstatic : (m.isStatic && !m.isAbstract) = false := by
    cases h : m.isStatic
    · rfl
    · rw [hs h]; rfl
  simp [decide, hk, hf, hstatic]

/-- What is declared again is wanted. -/
theorem wanted_of_decide (h : g.decide t must before m = .forward) :
    g.wanted t must m = true := by
  unfold decide at h
  split_ifs at h with h1 h2 h3 h4 h5
  · simp only [Bool.or_eq_true, Bool.and_eq_true, not_or, not_and, Bool.not_eq_true,
      Bool.not_eq_true', Bool.not_eq_false] at h1 h2 h4 h5
    simp only [wanted, h2, h4.1, Bool.not_false, Bool.true_and, Bool.or_eq_true, Bool.and_eq_true,
      Bool.not_eq_true']
    by_cases ha : m.isAbstract = true
    · exact Or.inl ha
    · have hs : m.isStatic = false := by
        by_contra hs; exact ha (h1.1 (by simpa using hs))
      have hp : m.isProtected = false := by
        by_contra hp; exact ha (h4.2 (by simpa using hp))
      refine Or.inr ⟨⟨hs, hp⟩, ?_⟩
      simpa [hs, ha, or_assoc] using h5
  · split at h <;> cases h

end Step

/-! ### A whole scan -/

/-- No method of the scan is in the way. -/
def Unrefused (l : List (Method × Decision)) : Prop := ∀ d ∈ l, ∀ final, d.2 ≠ .refuse final

/-- The method that is in the way, if there is one. -/
def refused? : Decision → Option Method
  | .refuse final => some final
  | _ => none

theorem unrefused_iff {l : List (Method × Decision)} :
    Unrefused l ↔ ∀ d ∈ l, refused? d.2 = none := by
  refine forall₂_congr fun d _ => ?_
  cases d.2 <;> simp [refused?]

instance (l : List (Method × Decision)) : Decidable (Unrefused l) :=
  decidable_of_iff' _ unrefused_iff

/-- The methods that a scan declares again. -/
def forwarded (l : List (Method × Decision)) : List Method :=
  l.filterMap fun d => if d.2 = .forward then some d.1 else none

theorem forwarded_cons_of_ne {m : Method} {d : Decision} (h : d ≠ .forward)
    (l : List (Method × Decision)) : forwarded ((m, d) :: l) = forwarded l := by
  simp [forwarded, h]

/-- A scan that is not refused at its first method goes on behind it. -/
theorem unrefused_cons {before : Progress} {m : Method} {rest : List Method}
    (h : Unrefused (g.decideAll t must before (m :: rest))) :
    (∀ final, g.decide t must before m ≠ .refuse final) ∧
    g.decideAll t must before (m :: rest) = (m, g.decide t must before m) ::
      g.decideAll t must (before.note m (g.decide t must before m)) rest ∧
    Unrefused (g.decideAll t must (before.note m (g.decide t must before m)) rest) := by
  have hne : ∀ final, g.decide t must before m ≠ .refuse final :=
    h (m, g.decide t must before m) (by simp [decideAll])
  have heq : g.decideAll t must before (m :: rest) = (m, g.decide t must before m) ::
      g.decideAll t must (before.note m (g.decide t must before m)) rest := by
    rw [decideAll]
    cases hd : g.decide t must before m with
    | refuse final => exact absurd hd (hne final)
    | _ => rfl
  refine ⟨hne, heq, fun d hd => h d ?_⟩
  rw [heq]
  exact List.mem_cons_of_mem _ hd

theorem Progress.taken_note_of_ne {before : Progress} {m : Method} {d : Decision}
    (h : d ≠ .forward) : (before.note m d).taken = before.taken := by
  cases d with
  | forward => exact absurd rfl h
  | _ => rfl

theorem Progress.mem_taken_note {before : Progress} {m : Method} {d : Decision} {k : String}
    (h : k ∈ (before.note m d).taken) : k ∈ before.taken ∨ d = .forward ∧ k = m.key := by
  cases d with
  | forward => exact (List.mem_cons.1 h).symm.imp_right fun e => ⟨rfl, e⟩
  | _ => exact Or.inl h

theorem Progress.mem_finals_note {before : Progress} {m final : Method} (d : Decision)
    (h : final ∈ before.finals) : final ∈ (before.note m d).finals := by
  cases d with
  | keepFinal => exact List.mem_append_left _ h
  | _ => exact h

/-- **What a scan declares**: of the wanted methods the first of each name that was not taken. -/
theorem forwarded_decideAll : ∀ {before : Progress} {l : List Method},
    Unrefused (g.decideAll t must before l) →
      forwarded (g.decideAll t must before l) =
        firstBy Method.key before.taken (l.filter (g.wanted t must))
  | before, [], _ => rfl
  | before, m :: rest, h => by
    obtain ⟨hne, heq, hrest⟩ := unrefused_cons h
    have ih := forwarded_decideAll hrest
    rw [heq]
    by_cases hk : m.key ∈ before.taken
    · rw [decide_of_mem_taken hk] at ih ⊢
      rw [show forwarded ((m, .passOver) :: _) = _ from ih, List.filter_cons]
      split_ifs with hw
      · rw [firstBy, if_pos hk]; rfl
      · rfl
    by_cases hw : g.wanted t must m = true
    · have hd : g.decide t must before m = .forward := by
        have hstep := decide_of_wanted hk hw
        cases hfind : before.finals.find? (·.key == m.key) with
        | none => rw [hstep, hfind]
        | some final => rw [hfind] at hstep; exact absurd hstep (hne final)
      rw [hd] at ih ⊢
      rw [List.filter_cons_of_pos hw, firstBy, if_neg hk]
      exact congrArg (m :: ·) ih
    · have hd : g.decide t must before m ≠ .forward := fun hd => hw (wanted_of_decide hd)
      rw [Progress.taken_note_of_ne hd] at ih
      rw [List.filter_cons_of_neg hw, forwarded_cons_of_ne hd, ih]

/-- Behind a final method that is kept, its name is not declared. -/
theorem not_wanted_of_kept {final : Method} : ∀ {before : Progress} {l : List Method},
    Unrefused (g.decideAll t must before l) → final ∈ before.finals → final.key ∉ before.taken →
      ∀ m ∈ l, m.key = final.key → g.wanted t must m = false
  | before, [], _, _, _, m, hm, _ => by simp at hm
  | before, a :: rest, h, hfinal, hk, m, hm, hmk => by
    obtain ⟨hne, -, hrest⟩ := unrefused_cons h
    have ha : a.key = final.key → g.wanted t must a = false := by
      intro hak
      by_contra hw
      have hstep := decide_of_wanted (m := a) (show a.key ∉ before.taken from hak ▸ hk)
        (show g.wanted t must a = true by simpa using hw)
      cases hfind : before.finals.find? (·.key == a.key) with
      | none => exact List.find?_eq_none.1 hfind final hfinal (by simp [hak])
      | some found => rw [hfind] at hstep; exact hne found hstep
    rcases List.mem_cons.1 hm with rfl | hm
    · exact ha hmk
    · refine not_wanted_of_kept hrest (Progress.mem_finals_note _ hfinal) ?_ m hm hmk
      intro hmem
      rcases Progress.mem_taken_note hmem with hmem | ⟨hd, hka⟩
      · exact hk hmem
      · have hw := wanted_of_decide hd
        rw [ha hka.symm] at hw
        cases hw

/-- The end of a scan that is not refused is a scan that is not refused. Before it only names of
the methods in front are taken. -/
theorem unrefused_append : ∀ {before : Progress} {l₁ l₂ : List Method},
    Unrefused (g.decideAll t must before (l₁ ++ l₂)) →
      ∃ after : Progress, Unrefused (g.decideAll t must after l₂) ∧
        ∀ k ∈ after.taken, k ∈ before.taken ∨ ∃ a ∈ l₁, a.key = k
  | before, [], l₂, h => ⟨before, h, fun k hk => Or.inl hk⟩
  | before, a :: l₁, l₂, h => by
    obtain ⟨-, -, hrest⟩ := unrefused_cons h
    obtain ⟨after, hafter, htaken⟩ := unrefused_append hrest
    refine ⟨after, hafter, fun k hk => ?_⟩
    rcases htaken k hk with hk | ⟨b, hb, hbk⟩
    · rcases Progress.mem_taken_note hk with hk | ⟨-, rfl⟩
      · exact Or.inl hk
      · exact Or.inr ⟨a, List.mem_cons_self, rfl⟩
    · exact Or.inr ⟨b, List.mem_cons_of_mem _ hb, hbk⟩

/-- **A final method of an object keeps its name**: if it is the first of that name and nothing is
refused, then not every call has to reach the real object, the trait does not define the name, and
no method behind it is declared under it. -/
theorem final_keeps_name {before : Progress} {l₁ l₂ : List Method} {m : Method}
    (h : Unrefused (g.decideAll t must before (l₁ ++ m :: l₂))) (hf : m.isFinal = true)
    (hs : m.isStatic = true → m.isAbstract = true) (hk : m.key ∉ before.taken)
    (hl : ∀ a ∈ l₁, a.key ≠ m.key) :
    must = false ∧ Support.isProxyMethod m.name = false ∧
      ∀ a ∈ l₂, a.key = m.key → g.wanted t must a = false := by
  obtain ⟨after, hafter, htaken⟩ := unrefused_append h
  have hka : m.key ∉ after.taken := fun hmem =>
    (htaken _ hmem).elim hk fun ⟨a, ha, hak⟩ => hl a ha hak
  obtain ⟨hne, -, hrest⟩ := unrefused_cons hafter
  have hstep : g.decide t must after m = if must || Support.isProxyMethod m.name then .refuse m
      else .keepFinal := decide_of_final hka hf hs
  split_ifs at hstep with hc
  · exact absurd hstep (hne m)
  · rw [Bool.or_eq_true, not_or, Bool.not_eq_true, Bool.not_eq_true] at hc
    rw [hstep] at hrest
    exact ⟨hc.1, hc.2, not_wanted_of_kept hrest (List.mem_append_right _ List.mem_cons_self) hka⟩

end LazyClasses.Generator
