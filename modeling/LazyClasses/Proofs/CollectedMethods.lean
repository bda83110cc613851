import LazyClasses.Proofs.Methods
import LazyClasses.Proofs.Reached
/-! # A method by its name, and among all methods

Whoever looks a name up takes the first declaration that comes: that of the class, of an ancestor or
of an interface. Whoever lists the methods of a class passes over what is private to an ancestor,
and takes of each name the first that is left.

* `nearestOpen?`: the declaration of a name that counts in the list.
* `methodsNamed_eq`: the list has that one under the name, and no other.
* `method?_eq_or`: the search for a name, in which private methods of ancestors count too.
* `EndsAtPrivate`: such a search ends at one of these.
* `methodsNamed_agrees`: the list and all other searches agree. -/

namespace LazyClasses.Registry

variable {r : Registry} {c d : ClassDecl} {name : String} {m : Method}

/-- The methods of the name among those of the class. -/
def methodsNamed (r : Registry) (c : ClassDecl) (name : String) : List Method :=
  (r.methods c).filter fun m => Text.same m.name name

/-- **The nearest declaration of the name that counts for the class**: its own, the first one among
its ancestors that is not private, or the first one among its interfaces. -/
def nearestOpen? (r : Registry) (c : ClassDecl) (name : String) : Option Method :=
  (c.method? name).or <|
    ((r.ancestors c).findSome? fun a => (a.method? name).filter fun m => !m.isPrivate).or <|
      (r.interfaces c).findSome? (·.method? name)

/-- The name is looked up, and nothing is found before a private method of an ancestor. -/
def EndsAtPrivate (r : Registry) (c : ClassDecl) (name : String) : Prop :=
  c.method? name = none ∧
    ∃ m, (r.ancestors c).findSome? (·.method? name) = some m ∧ m.isPrivate = true

/-! ### The declarations of one class -/

theorem mem_of_method? (h : d.method? name = some m) : m ∈ d.methods :=
  List.mem_of_find?_eq_some h

theorem same_of_method? (h : d.method? name = some m) : Text.same m.name name = true := by
  rw [ClassDecl.method?, List.find?_eq_some_iff_append] at h
  exact h.1

theorem method?_isSome_iff :
    (d.method? name).isSome = true ↔ ∃ m ∈ d.methods, Text.same m.name name = true := by
  rw [ClassDecl.method?, List.find?_isSome]

/-- Among the methods that are not private, a name means what it means among all, if that is not
private. -/
theorem find?_open (hd : (d.methods.map Method.key).Nodup) :
    (d.methods.filter fun m => !m.isPrivate).find? (fun m => Text.same m.name name) =
      (d.method? name).filter fun m => !m.isPrivate := by
  rw [List.find?_filter]
  cases hfind : d.method? name with
  | none =>
    rw [ClassDecl.method?, List.find?_eq_none] at hfind
    rw [Option.filter_none, List.find?_eq_none]
    intro m hm
    simp [hfind m hm]
  | some m =>
    have hkey : Text.lower name = m.key := (Text.same_iff.1 (same_of_method? hfind)).symm
    have hsearch :
        (fun a : Method => decide ((!a.isPrivate) = true ∧ Text.same a.name name = true)) =
          fun a => a.key == m.key && !a.isPrivate := by
      funext a
      rw [Method.same_name_eq, hkey, Bool.eq_iff_iff]
      simp [and_comm]
    rw [hsearch, find?_key_and hd (mem_of_method? hfind)]
    rfl

/-! ### The list -/

theorem mem_offeredMethods : m ∈ r.offeredMethods c ↔
    m ∈ c.methods ∨ (∃ a ∈ r.ancestors c, m ∈ a.methods ∧ m.isPrivate = false) ∨
      ∃ i ∈ r.interfaces c, m ∈ i.methods := by
  simp [offeredMethods]

theorem find?_offeredMethods (hnames : ∀ a ∈ r.ancestors c, (a.methods.map Method.key).Nodup) :
    (r.offeredMethods c).find? (fun m => Text.same m.name name) = r.nearestOpen? c name := by
  have hancestors : ((r.ancestors c).flatMap fun a => a.methods.filter fun m => !m.isPrivate).find?
        (fun m => Text.same m.name name) =
      (r.ancestors c).findSome? fun a => (a.method? name).filter fun m => !m.isPrivate := by
    rw [List.find?_flatMap, ← List.head?_filterMap, ← List.head?_filterMap,
      List.filterMap_congr fun a ha => find?_open (hnames a ha)]
  rw [offeredMethods, List.find?_append, List.find?_append, hancestors, List.find?_flatMap,
    Option.or_assoc]
  rfl

theorem methodsNamed_eq_find? (r : Registry) (c : ClassDecl) (name : String) :
    r.methodsNamed c name =
      ((r.offeredMethods c).find? fun m => Text.same m.name name).toList := by
  rw [methodsNamed, methods, firstOfEach]
  exact filter_key_firstBy (r.offeredMethods c) List.not_mem_nil

/-- **Under a name the list has the nearest declaration that counts**, and no other method. -/
theorem methodsNamed_eq (hnames : ∀ a ∈ r.ancestors c, (a.methods.map Method.key).Nodup) :
    r.methodsNamed c name = (r.nearestOpen? c name).toList := by
  rw [methodsNamed_eq_find?, find?_offeredMethods hnames]

/-- **A name stands in the list** iff the class declares it, or an ancestor a method of the name
that is not private, or an interface. -/
theorem exists_mem_methods_iff : (∃ m ∈ r.methods c, Text.same m.name name = true) ↔
    (∃ m ∈ c.methods, Text.same m.name name = true) ∨
      (∃ a ∈ r.ancestors c, ∃ m ∈ a.methods, Text.same m.name name = true ∧ m.isPrivate = false) ∨
      ∃ i ∈ r.interfaces c, ∃ m ∈ i.methods, Text.same m.name name = true := by
  have hlist : (∃ m ∈ r.methods c, Text.same m.name name = true) ↔
      ∃ m ∈ r.offeredMethods c, Text.same m.name name = true := by
    rw [← List.find?_isSome, ← List.find?_isSome, ← List.head?_filter, ← methodsNamed,
      methodsNamed_eq_find?, Option.head?_toList]
  rw [hlist]
  constructor
  · rintro ⟨m, hm, hname⟩
    rcases mem_offeredMethods.1 hm with hm | ⟨a, ha, hm, hopen⟩ | ⟨i, hi, hm⟩
    · exact .inl ⟨m, hm, hname⟩
    · exact .inr (.inl ⟨a, ha, m, hm, hname, hopen⟩)
    · exact .inr (.inr ⟨i, hi, m, hm, hname⟩)
  · rintro (⟨m, hm, hname⟩ | ⟨a, ha, m, hm, hname, hopen⟩ | ⟨i, hi, m, hm, hname⟩)
    · exact ⟨m, mem_offeredMethods.2 (.inl hm), hname⟩
    · exact ⟨m, mem_offeredMethods.2 (.inr (.inl ⟨a, ha, hm, hopen⟩)), hname⟩
    · exact ⟨m, mem_offeredMethods.2 (.inr (.inr ⟨i, hi, hm⟩)), hname⟩

/-! ### The search -/

theorem method?_eq_or (r : Registry) (c : ClassDecl) (name : String) :
    r.method? c name = (c.method? name).or
      (((r.ancestors c).findSome? (·.method? name)).or
        ((r.interfaces c).findSome? (·.method? name))) := by
  rw [method?, supertypes, List.findSome?_cons, List.findSome?_append]
  cases c.method? name <;> rfl

/-- Where the first declaration among the ancestors is not private, none that is private comes
before it. -/
theorem findSome?_open {l : List ClassDecl}
    (h : ∀ m, l.findSome? (·.method? name) = some m → m.isPrivate = false) :
    (l.findSome? fun a => (a.method? name).filter fun m => !m.isPrivate) =
      l.findSome? (·.method? name) := by
  induction l with
  | nil => rfl
  | cons a l ih =>
    rw [List.findSome?_cons] at h ⊢
    rw [List.findSome?_cons]
    cases ha : a.method? name with
    | none =>
      rw [ha] at h
      exact ih h
    | some m =>
      rw [ha] at h
      have hopen : m.isPrivate = false := h m rfl
      simp [Option.filter, hopen]

/-- **What a search finds that ends nowhere at a private method of an ancestor counts.** -/
theorem method?_eq_nearestOpen? (h : ¬r.EndsAtPrivate c name) :
    r.method? c name = r.nearestOpen? c name := by
  rw [method?_eq_or, nearestOpen?]
  cases hc : c.method? name with
  | some m => rfl
  | none =>
    rw [findSome?_open]
    intro m hm
    rw [← Bool.not_eq_true]
    exact fun hprivate => h ⟨hc, m, hm, hprivate⟩

/-- **A method by its name and among all methods.** Where no class declares two methods of one name,
the list of methods has under each name the nearest declaration that counts, and no other method.
The search for the name finds the same method if that is the class's own, is not private or comes
from an interface, as it does if no ancestor declares the name; it finds another one only where it
ends at a private method of an ancestor. -/
theorem methodsNamed_agrees (hnames : ∀ d ∈ r.classes, (d.methods.map Method.key).Nodup)
    (c : ClassDecl) (name : String) :
    r.methodsNamed c name = (r.nearestOpen? c name).toList ∧
    ((∃ m ∈ r.methods c, Text.same m.name name = true) ↔
      (∃ m ∈ c.methods, Text.same m.name name = true) ∨
        (∃ a ∈ r.ancestors c, ∃ m ∈ a.methods,
          Text.same m.name name = true ∧ m.isPrivate = false) ∨
        ∃ i ∈ r.interfaces c, ∃ m ∈ i.methods, Text.same m.name name = true) ∧
    (∀ m, r.method? c name = some m →
      (m ∈ c.methods ∨ m.isPrivate = false ∨ ∀ a ∈ c :: r.ancestors c, a.method? name = none) →
      r.methodsNamed c name = [m]) ∧
    (r.methodsNamed c name ≠ (r.method? c name).toList → r.EndsAtPrivate c name) := by
  have hlist : r.methodsNamed c name = (r.nearestOpen? c name).toList :=
    methodsNamed_eq fun a ha => hnames a (mem_of_mem_ancestors ha)
  have hagree : ¬r.EndsAtPrivate c name → r.methodsNamed c name = (r.method? c name).toList :=
    fun h => by rw [hlist, method?_eq_nearestOpen? h]
  refine ⟨hlist, exists_mem_methods_iff, fun m hm hwhere => ?_, fun h => by_contra (h <| hagree ·)⟩
  rw [hagree, hm, Option.toList_some]
  rintro ⟨hown, p, hp, hprivate⟩
  -- The search ends at the private method, so all three are out of the question.
  obtain rfl : p = m := by
    rw [method?_eq_or, hown, hp] at hm
    exact Option.some.inj hm
  rcases hwhere with hmem | hopen | hnone
  · have hname : Text.same p.name name = true := by
      obtain ⟨a, -, ha⟩ := List.exists_of_findSome?_eq_some hp
      exact same_of_method? ha
    have hsome := method?_isSome_iff.2 ⟨p, hmem, hname⟩
    rw [hown] at hsome
    cases hsome
  · rw [hopen] at hprivate
    cases hprivate
  · obtain ⟨a, ha, hap⟩ := List.exists_of_findSome?_eq_some hp
    rw [hnone a (List.mem_cons_of_mem _ ha)] at hap
    cases hap

end LazyClasses.Registry

namespace LazyClasses.Sample

open Registry

/-- A class with a method of which its heirs have nothing, above one with a method that they
have. -/
def memo : ClassDecl where
  name := "Memo"
  parent := some "Note"
  methods := [{ name := "sign", visibility := .privateAccess, declaringClass := "Memo" }]

def noteSign : Method where
  name := "Sign"
  declaringClass := "Note"

def letter : ClassDecl where
  name := "Letter"
  parent := some "Memo"

/-- The registry of all three. -/
def papers : Registry :=
  insertAll ∅ [{ name := "Note", methods := [noteSign] }, memo, letter]

theorem ancestors_letter :
    papers.ancestors letter = [memo, { name := "Note", methods := [noteSign] }] := by
  have hmemo : papers.find? "Memo" = some memo := by decide
  have hnote : papers.find? "Note" = some { name := "Note", methods := [noteSign] } := by decide
  rw [ancestors]
  change papers.climb _ (some "Memo") = _
  rw [climb_of_find?_eq_some hmemo, if_neg (by decide)]
  change memo :: papers.climb _ (some "Note") = _
  rw [climb_of_find?_eq_some hnote, if_neg (by decide)]
  change memo :: _ :: papers.climb _ none = _
  rw [climb]

/-- The search ends at the private method, and the list has the one above it. -/
theorem letter_signs :
    (∀ d ∈ papers.classes, (d.methods.map Method.key).Nodup) ∧
    papers.methodsNamed letter "SIGN" = [noteSign] ∧ papers.EndsAtPrivate letter "SIGN" := by
  have hnames : ∀ d ∈ papers.classes, (d.methods.map Method.key).Nodup := by decide +kernel
  obtain ⟨hlist, -, -, hdiffer⟩ := methodsNamed_agrees hnames letter "SIGN"
  have hnearest : papers.nearestOpen? letter "SIGN" = some noteSign := by
    rw [nearestOpen?, ancestors_letter]
    rfl
  have hsearch : papers.method? letter "SIGN" = memo.methods.head? := by
    rw [method?_eq_or, ancestors_letter]
    rfl
  rw [hnearest, Option.toList_some] at hlist
  refine ⟨hnames, hlist, hdiffer ?_⟩
  rw [hlist, hsearch]
  decide

end LazyClasses.Sample
