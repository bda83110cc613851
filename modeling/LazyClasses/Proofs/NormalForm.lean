import LazyClasses.Proofs.ReferenceSpelling
/-! # What registering stores

Registering brings a class into normal form, and takes one `\` from the front of each name on the
way. One is all that a reference may have. A name that begins with two of them keeps the second one,
and then the class cannot be looked up under the name that it is stored with.

* `InNormalForm`: what a stored class should look like. `normalize_eq_self_iff`: normalizing leaves
  alone just the classes of this form.
* `SinglyRooted`: no name begins with two separators, and no declaring class is a separator alone.
  `inNormalForm_normalize_iff`: normalizing such a class is enough, and no other.
* `insert_eq_self_iff`: registering changes nothing iff the class is there.
* `insert_stores_iff`: what holds of the class that is stored, and when. -/

namespace LazyClasses

namespace ClassName

/-- The name begins with two separators. -/
def DoublyRooted (name : String) : Prop := name.toList.take 2 = ['\\', '\\']

instance (name : String) : Decidable (DoublyRooted name) := by
  unfold DoublyRooted; infer_instance

variable {name : String}

theorem doublyRooted_iff :
    DoublyRooted name ↔ ∃ rest, name.toList = '\\' :: '\\' :: rest := by
  unfold DoublyRooted
  match name.toList with
  | [] | [_] => simp
  | a :: b :: rest => simp

theorem rooted_iff : Rooted name ↔ ∃ rest, name.toList = '\\' :: rest := by
  rw [Rooted, List.head?_eq_some_iff]

theorem rooted_bare_iff : Rooted (bare name) ↔ DoublyRooted name := by
  rw [rooted_iff, toList_bare, doublyRooted_iff]
  constructor
  · rintro ⟨rest, h⟩
    unfold bareChars at h
    split at h
    · rename_i l hl
      exact ⟨rest, by rw [hl, h]⟩
    · rename_i hne
      exact absurd h (hne rest)
  · rintro ⟨rest, h⟩
    exact ⟨rest, by rw [h]; rfl⟩

theorem bare_eq_self_iff : bare name = name ↔ ¬Rooted name := by
  refine ⟨fun h hrooted => ?_, bare_of_not_rooted⟩
  have hlength := congrArg (fun s => s.toList.length) (separator_bare hrooted)
  rw [h, String.toList_append, List.length_append] at hlength
  have hone : "\\".toList.length = 1 := rfl
  omega

theorem bare_eq_empty_iff : bare name = "" ↔ name = "" ∨ name = "\\" := by
  constructor
  · intro h
    by_cases hrooted : Rooted name
    · refine .inr ?_
      rw [← separator_bare hrooted, h]
      rfl
    · exact .inl (by rwa [bare_of_not_rooted hrooted] at h)
  · rintro (rfl | rfl) <;> rfl

/-- The bare name is looked up like the name, unless that begins with two separators. -/
theorem key_bare_eq_iff : key name = key (bare name) ↔ ¬DoublyRooted name := by
  rw [← rooted_bare_iff, ← bare_eq_self_iff]
  refine ⟨fun h => ?_, fun h => by rw [key, key, h]⟩
  by_contra hne
  have hrooted : Rooted (bare name) := not_not.1 (mt bare_eq_self_iff.2 hne)
  have hseparator := congrArg (fun s => s.toList.length) (separator_bare hrooted)
  have hlower := congrArg (fun s => s.toList.length) h
  simp only [key, Text.toList_lower, List.length_map, String.toList_append,
    List.length_append] at hseparator hlower
  have hone : "\\".toList.length = 1 := rfl
  omega

end ClassName

open ClassName (Rooted DoublyRooted)

namespace ClassDecl

/-- **The normal form**: no name that refers to a class begins with `\`, methods know their
declaring class, and the methods of an interface are abstract. -/
structure InNormalForm (c : ClassDecl) : Prop where
  name : ¬Rooted c.name
  parent : ∀ p ∈ c.parent, ¬Rooted p
  interfaces : ∀ i ∈ c.interfaces, ¬Rooted i
  declaringClass : ∀ m ∈ c.methods, ¬Rooted m.declaringClass
  attributed : c.name ≠ "" → ∀ m ∈ c.methods, m.declaringClass ≠ ""
  isAbstract : c.isInterface = true → ∀ m ∈ c.methods, m.isAbstract = true

/-- No name that refers to a class begins with two separators, and none is a separator alone where a
declaring class is to be named. -/
structure SinglyRooted (c : ClassDecl) : Prop where
  name : ¬DoublyRooted c.name
  parent : ∀ p ∈ c.parent, ¬DoublyRooted p
  interfaces : ∀ i ∈ c.interfaces, ¬DoublyRooted i
  declaringClass : ∀ m ∈ c.methods, ¬DoublyRooted m.declaringClass
  attributed : c.name ≠ "" → c.name ≠ "\\" → ∀ m ∈ c.methods, m.declaringClass ≠ "\\"

end ClassDecl

/-! ### Normal forms -/

theorem map_eq_self_iff {α : Type} {f : α → α} {l : List α} : l.map f = l ↔ ∀ a ∈ l, f a = a := by
  simpa using List.map_inj_left (l := l) (f := f) (g := id)

theorem Method.normalize_eq_self_iff {cls : String} {ofInterface : Bool} {m : Method} :
    m.normalize cls ofInterface = m ↔ (ofInterface = true → m.isAbstract = true) ∧
      ¬Rooted m.declaringClass ∧ (cls ≠ "" → m.declaringClass ≠ "") := by
  have habstract : (m.isAbstract || ofInterface) = m.isAbstract ↔
      (ofInterface = true → m.isAbstract = true) := by
    cases m.isAbstract <;> cases ofInterface <;> simp
  have hdeclaring : (if m.declaringClass.isEmpty then cls else ClassName.bare m.declaringClass) =
      m.declaringClass ↔ ¬Rooted m.declaringClass ∧ (cls ≠ "" → m.declaringClass ≠ "") := by
    split_ifs with h
    · rw [String.isEmpty_iff] at h
      rw [h]
      have hempty : ¬Rooted "" := by decide
      simp [hempty]
    · rw [String.isEmpty_iff] at h
      simp [ClassName.bare_eq_self_iff, h]
  rw [← habstract, ← hdeclaring, Method.normalize]
  cases m
  simp only [Method.mk.injEq, true_and, and_true]

namespace ClassDecl

variable {c : ClassDecl}

/-- **Normalizing leaves a class alone iff it is in normal form.** -/
theorem normalize_eq_self_iff : c.normalize = c ↔ c.InNormalForm := by
  have hfields : c.normalize = c ↔ ClassName.bare c.name = c.name ∧
      c.parent.map ClassName.bare = c.parent ∧ c.interfaces.map ClassName.bare = c.interfaces ∧
      c.methods.map (Method.normalize (ClassName.bare c.name) c.isInterface) = c.methods := by
    cases c
    simp only [normalize, ClassDecl.mk.injEq, true_and, and_true]
  have hparent : c.parent.map ClassName.bare = c.parent ↔ ∀ p ∈ c.parent, ¬Rooted p := by
    cases c.parent <;> simp [ClassName.bare_eq_self_iff]
  have hinterfaces : c.interfaces.map ClassName.bare = c.interfaces ↔
      ∀ i ∈ c.interfaces, ¬Rooted i := by
    simp only [← ClassName.bare_eq_self_iff]
    exact map_eq_self_iff
  have hmethods : c.methods.map (Method.normalize c.name c.isInterface) = c.methods ↔
      ∀ m ∈ c.methods, (c.isInterface = true → m.isAbstract = true) ∧
        ¬Rooted m.declaringClass ∧ (c.name ≠ "" → m.declaringClass ≠ "") := by
    simp only [← Method.normalize_eq_self_iff]
    exact map_eq_self_iff
  rw [hfields]
  constructor
  · rintro ⟨hname, hp, hi, hm⟩
    rw [hname, hmethods] at hm
    exact ⟨ClassName.bare_eq_self_iff.1 hname, hparent.1 hp, hinterfaces.1 hi,
      fun m h => (hm m h).2.1, fun hne m h => (hm m h).2.2 hne, fun hk m h => (hm m h).1 hk⟩
  · intro h
    have hname := ClassName.bare_eq_self_iff.2 h.name
    rw [hname]
    exact ⟨rfl, hparent.2 h.parent, hinterfaces.2 h.interfaces, hmethods.2 fun m hm =>
      ⟨fun hk => h.isAbstract hk m hm, h.declaringClass m hm, fun hne => h.attributed hne m hm⟩⟩

theorem mem_normalize_methods {m : Method} : m ∈ c.normalize.methods ↔
    ∃ n ∈ c.methods, n.normalize (ClassName.bare c.name) c.isInterface = m := List.mem_map

theorem isAbstract_of_mem_normalize (hinterface : c.isInterface = true) :
    ∀ m ∈ c.normalize.methods, m.isAbstract = true := by
  intro m hm
  obtain ⟨n, -, rfl⟩ := mem_normalize_methods.1 hm
  rw [Method.normalize, hinterface, Bool.or_true]

/-- **Normalizing gives the normal form** of just the classes whose names have one separator in
front at most. -/
theorem inNormalForm_normalize_iff : c.normalize.InNormalForm ↔ c.SinglyRooted := by
  have hdeclaring (n : Method) :
      (n.normalize (ClassName.bare c.name) c.isInterface).declaringClass =
        if n.declaringClass.isEmpty then ClassName.bare c.name
        else ClassName.bare n.declaringClass := rfl
  have hname : ClassName.bare c.name ≠ "" ↔ c.name ≠ "" ∧ c.name ≠ "\\" := by
    rw [Ne, ClassName.bare_eq_empty_iff, not_or]
  constructor
  · intro h
    refine ⟨mt ClassName.rooted_bare_iff.2 h.name, fun p hp => ?_, fun i hi => ?_, fun n hn => ?_,
      fun hne hne' n hn hlone => ?_⟩
    · exact mt ClassName.rooted_bare_iff.2 (h.parent _ (Option.mem_map_of_mem _ hp))
    · exact mt ClassName.rooted_bare_iff.2 (h.interfaces _ (List.mem_map_of_mem hi))
    · have hn' := h.declaringClass _ (mem_normalize_methods.2 ⟨n, hn, rfl⟩)
      intro hdouble
      have hfilled : ¬n.declaringClass.isEmpty = true := by
        intro hempty
        rw [String.isEmpty_iff.1 hempty] at hdouble
        exact absurd hdouble (by decide)
      rw [hdeclaring, if_neg hfilled] at hn'
      exact hn' (ClassName.rooted_bare_iff.2 hdouble)
    · have hn' := h.attributed (hname.2 ⟨hne, hne'⟩) _ (mem_normalize_methods.2 ⟨n, hn, rfl⟩)
      rw [hdeclaring, hlone] at hn'
      exact hn' rfl
  · intro h
    refine ⟨mt ClassName.rooted_bare_iff.1 h.name, fun p hp => ?_, fun i hi => ?_, fun m hm => ?_,
      fun hne m hm => ?_, fun hk => isAbstract_of_mem_normalize (c := c) hk⟩
    · obtain ⟨q, hq, rfl⟩ := Option.mem_map.1 hp
      exact mt ClassName.rooted_bare_iff.1 (h.parent q hq)
    · obtain ⟨j, hj, rfl⟩ := List.mem_map.1 hi
      exact mt ClassName.rooted_bare_iff.1 (h.interfaces j hj)
    · obtain ⟨n, hn, rfl⟩ := mem_normalize_methods.1 hm
      rw [hdeclaring]
      split_ifs
      · exact mt ClassName.rooted_bare_iff.1 h.name
      · exact mt ClassName.rooted_bare_iff.1 (h.declaringClass n hn)
    · obtain ⟨n, hn, rfl⟩ := mem_normalize_methods.1 hm
      obtain ⟨hname₁, hname₂⟩ := hname.1 hne
      rw [hdeclaring]
      split_ifs with hempty
      · exact hne
      · rw [Ne, ClassName.bare_eq_empty_iff, not_or]
        rw [String.isEmpty_iff] at hempty
        exact ⟨hempty, h.attributed hname₁ hname₂ n hn⟩

end ClassDecl

/-! ### Registering -/

namespace Registry

variable (r : Registry) (c : ClassDecl)

theorem file_of_mem {r : Registry} {c : ClassDecl} (h : c ∈ r.classes) : r.file c = r := by
  have hkey : c.key ∈ r.classes.map ClassDecl.key := List.mem_map_of_mem h
  have hreplace : r.classes.map (replaceClass c) = r.classes := by
    refine map_eq_self_iff.2 fun old hold => ?_
    unfold replaceClass
    split_ifs with hsame
    · exact List.inj_on_of_nodup_map r.nodup h hold hsame.symm
    · rfl
  unfold file
  rw [dif_pos hkey]
  simp only [hreplace]

/-- **Registering changes nothing iff the class is there** in the form that would be stored. -/
theorem insert_eq_self_iff : r.insert c = r ↔ r.find? c.name = some c.normalize := by
  constructor
  · intro h
    rw [← h, find?_insert, if_pos rfl]
  · intro h
    exact file_of_mem (mem_of_find? h)

theorem find?_insert_self : (r.insert c).find? c.name = some c.normalize := by
  rw [find?_insert, if_pos rfl]

/-- A class whose name does not begin with two separators is found under the name that it is stored
with. -/
theorem find?_insert_stored (h : ¬DoublyRooted c.name) :
    (r.insert c).find? c.normalize.name = some c.normalize := by
  have hkey : ClassName.key c.name = ClassName.key c.normalize.name :=
    ClassName.key_bare_eq_iff.2 h
  rw [find?_insert, if_pos hkey]

/-- Any other class goes by another key, so what is found there was known before. -/
theorem find?_insert_stored_of_doublyRooted (h : DoublyRooted c.name) :
    (r.insert c).find? c.normalize.name = r.find? c.normalize.name ∧
      r.find? c.normalize.name ≠ some c.normalize := by
  have hkey : ClassName.key c.name ≠ ClassName.key c.normalize.name :=
    fun hkey => ClassName.key_bare_eq_iff.1 hkey h
  refine ⟨by rw [find?_insert, if_neg hkey], fun hfound => ?_⟩
  exact hkey (mem_of_byKey? hfound).2

/-- **What is stored.** Under the key of its name stands the class as it was normalized, and the
methods of an interface are abstract in it.

* It is in normal form iff the names of the given class have one separator in front at most.
* It is found under its own name iff the given name does not begin with two separators.
* Registering the given class again changes nothing. Registering what is stored changes nothing iff
  the names of the given class have one separator in front at most, or it would be stored under
  another name then and is known there as it would be stored. -/
theorem insert_stores_iff :
    (r.insert c).byKey? (ClassName.key c.name) = some c.normalize ∧
    (c.isInterface = true → ∀ m ∈ c.normalize.methods, m.isAbstract = true) ∧
    (c.normalize.InNormalForm ↔ c.SinglyRooted) ∧
    ((r.insert c).find? c.normalize.name = some c.normalize ↔ ¬DoublyRooted c.name) ∧
    (r.insert c).insert c = r.insert c ∧
    ((r.insert c).insert c.normalize = r.insert c ↔ c.SinglyRooted ∨
      DoublyRooted c.name ∧ r.find? c.normalize.name = some c.normalize.normalize) := by
  have hself := find?_insert_self r c
  have hagain : (r.insert c).insert c = r.insert c := (insert_eq_self_iff _ c).2 hself
  refine ⟨hself, ClassDecl.isAbstract_of_mem_normalize, ClassDecl.inNormalForm_normalize_iff, ?_,
    hagain, ?_⟩
  · constructor
    · intro hfound hdouble
      obtain ⟨hsame, hne⟩ := find?_insert_stored_of_doublyRooted r c hdouble
      exact hne (hsame ▸ hfound)
    · exact find?_insert_stored r c
  · rw [insert_eq_self_iff]
    by_cases hdouble : DoublyRooted c.name
    · have hnot : ¬c.SinglyRooted := fun h => h.name hdouble
      rw [(find?_insert_stored_of_doublyRooted r c hdouble).1]
      simp [hdouble, hnot]
    · rw [find?_insert_stored r c hdouble, Option.some.injEq, eq_comm,
        ClassDecl.normalize_eq_self_iff, ClassDecl.inNormalForm_normalize_iff]
      simp [hdouble]

end Registry

namespace Sample

/-- The class `\\Foo`, with two separators. -/
def twiceRooted : ClassDecl := { name := "\\\\Foo" }

/-- A class with a method of the declaring class `\`. -/
def loneSeparator : ClassDecl :=
  { name := "Foo", methods := [{ name := "run", declaringClass := "\\" }] }

/-- **Only one separator is taken away.** With two of them the stored name begins with one, the
class is not found under it, and registering what is stored adds a class. A declaring class that is
nothing else comes out empty, and is filled in when the class is registered again. -/
theorem twiceRooted_stays :
    (Rooted twiceRooted.normalize.name ∧
      (Registry.insert ∅ twiceRooted).byKey? (ClassName.key twiceRooted.name) =
        some twiceRooted.normalize ∧
      (Registry.insert ∅ twiceRooted).find? twiceRooted.normalize.name = none ∧
      (Registry.insert ∅ twiceRooted).insert twiceRooted.normalize ≠
        Registry.insert ∅ twiceRooted) ∧
    loneSeparator.normalize.name ≠ "" ∧
      (∃ m ∈ loneSeparator.normalize.methods, m.declaringClass = "") ∧
      (Registry.insert ∅ loneSeparator).insert loneSeparator.normalize ≠
        Registry.insert ∅ loneSeparator := by
  have hdouble : DoublyRooted twiceRooted.name := by decide
  have hunknown : (Registry.insert ∅ twiceRooted).find? twiceRooted.normalize.name = none := by
    rw [(Registry.find?_insert_stored_of_doublyRooted ∅ twiceRooted hdouble).1]
    decide +kernel
  have hfound : (Registry.insert ∅ loneSeparator).find? loneSeparator.normalize.name =
      some loneSeparator.normalize := Registry.find?_insert_stored ∅ loneSeparator (by decide)
  refine ⟨⟨ClassName.rooted_bare_iff.2 hdouble, ?_, hunknown, ?_⟩, by decide, ?_, ?_⟩
  · exact Registry.find?_insert_self ∅ twiceRooted
  · rw [Ne, Registry.insert_eq_self_iff, hunknown]
    exact (Option.some_ne_none _).symm
  · exact ⟨_, List.mem_singleton_self _, rfl⟩
  · rw [Ne, Registry.insert_eq_self_iff, hfound, Option.some.injEq]
    decide

end Sample

end LazyClasses
