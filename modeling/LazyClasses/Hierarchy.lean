import LazyClasses.Registry.Basic
/-! # The inheritance graph

How classes hang together by the references they hold. References may lead nowhere and may run in
circles: a walk passes over the former and takes no class twice.

* `Registry.ancestors`: the parent chain, nearest first.
* `Registry.interfaces`: the interfaces of a class and of its ancestors, and those that these
  extend, nearest first.
* `Registry.isA`: whether a class is of a type.
* `firstBy`: the elements of a list, the first of each key.
* `Registry.method?`, `Registry.methods`: the method of a name, and all methods.
* `Registry.prototype?`: the declaration that a method overrides or implements.

A walk ends because it takes a class only once: `unseen` counts those still to come. -/

namespace LazyClasses

/-- The elements whose keys are not in `seen`, the first of each key. -/
def firstBy {α : Type} (key : α → String) (seen : List String) : List α → List α
  | [] => []
  | a :: l => if key a ∈ seen then firstBy key seen l else a :: firstBy key (key a :: seen) l

namespace Registry

/-- The number of classes whose keys are not in the list. -/
def unseen (r : Registry) (seen : List String) : Nat :=
  r.classes.countP fun c => !seen.contains c.key

theorem countP_lt_countP {α : Type} {p q : α → Bool} {l : List α} {a : α} (ha : a ∈ l)
    (hp : p a = true) (hq : q a = false) (h : ∀ x, q x = true → p x = true) :
    l.countP q < l.countP p := by
  induction l with
  | nil => simp at ha
  | cons b l ih =>
    have hle : l.countP q ≤ l.countP p := List.countP_mono_left fun x _ => h x
    rcases List.mem_cons.1 ha with rfl | ha
    · simp only [List.countP_cons, hp, hq, if_true, Bool.false_eq_true, if_false]; omega
    · have := ih ha
      simp only [List.countP_cons]
      by_cases hb : q b = true
      · simp only [hb, h b hb, if_true]; omega
      · simp only [hb, Bool.false_eq_true, if_false]; omega

theorem unseen_cons_lt {r : Registry} {c : ClassDecl} {seen : List String} (hc : c ∈ r.classes)
    (h : c.key ∉ seen) : r.unseen (c.key :: seen) < r.unseen seen :=
  countP_lt_countP hc (by simpa using h) (by simp) fun x hx => by
    simp only [List.contains_cons, Bool.not_or, Bool.and_eq_true] at hx
    exact hx.2

/-! ### Ancestors -/

/-- The parent chain from a reference on, without the classes in `seen`. -/
def climb (r : Registry) (seen : List String) (next : Option String) : List ClassDecl :=
  match next with
  | none => []
  | some name =>
    match _h : r.find? name with
    | none => []
    | some c => if c.key ∈ seen then [] else c :: r.climb (c.key :: seen) c.parent
termination_by r.unseen seen
decreasing_by exact unseen_cons_lt (mem_of_find? _h) ‹_›

/-- **The parent chain of a class**, nearest first. It ends at a reference to no known class, and
where it would come back to a class it has passed. -/
def ancestors (r : Registry) (c : ClassDecl) : List ClassDecl := r.climb [c.key] c.parent

/-! ### Interfaces -/

/-- The classes that the references mean and, behind them, those that their own interface
references mean, without the classes in `seen`. -/
def spread (r : Registry) (seen : List String) (pending : List String) : List ClassDecl :=
  match pending with
  | [] => []
  | name :: rest =>
    match _h : r.find? name with
    | none => r.spread seen rest
    | some c =>
      if c.key ∈ seen then r.spread seen rest
      else c :: r.spread (c.key :: seen) (rest ++ c.interfaces)
termination_by (r.unseen seen, pending.length)
decreasing_by
  · exact Prod.Lex.right _ (by simp)
  · exact Prod.Lex.right _ (by simp)
  · exact Prod.Lex.left _ _ (unseen_cons_lt (mem_of_find? _h) ‹_›)

/-- **All interfaces of a class**: those it names, those its ancestors name, and those that these
extend. -/
def interfaces (r : Registry) (c : ClassDecl) : List ClassDecl :=
  r.spread [] (c.interfaces ++ (r.ancestors c).flatMap ClassDecl.interfaces)

/-- The classes that a class inherits from: its ancestors, then its interfaces. -/
def supertypes (r : Registry) (c : ClassDecl) : List ClassDecl := r.ancestors c ++ r.interfaces c

/-- **Whether a class is of a type**: the class itself or one that it inherits from has the
name. -/
def isA (r : Registry) (c : ClassDecl) (type : String) : Bool :=
  (c :: r.supertypes c).any fun d => Text.same d.name (ClassName.bare type)

/-! ### Methods -/

/-- The method that a class has under the name: its own, or else the first that it inherits. -/
def method? (r : Registry) (c : ClassDecl) (name : String) : Option Method :=
  (c :: r.supertypes c).findSome? fun d => d.method? name

/-- The methods of the list whose names are not in `seen`, the first of each name. -/
def firstOfEach (seen : List String) (l : List Method) : List Method := firstBy Method.key seen l

/-- What a class has to offer, nearest first: its own methods, those of its ancestors that are not
private, and those of its interfaces. -/
def offeredMethods (r : Registry) (c : ClassDecl) : List Method :=
  c.methods ++ (r.ancestors c).flatMap (fun a => a.methods.filter fun m => !m.isPrivate) ++
    (r.interfaces c).flatMap ClassDecl.methods

/-- **The methods of a class**: of each name the nearest. -/
def methods (r : Registry) (c : ClassDecl) : List Method := firstOfEach [] (r.offeredMethods c)

/-- **The declaration that a method overrides or implements**: the nearest one among the ancestors
of its declaring class that is not private, or else the first among the interfaces. A private
method has none. -/
def prototype? (r : Registry) (m : Method) : Option Method :=
  if m.isPrivate then none
  else
    match r.find? m.declaringClass with
    | none => none
    | some c =>
      (((r.ancestors c).filterMap (·.method? m.name)).find? fun p => !p.isPrivate).or
        ((r.interfaces c).findSome? (·.method? m.name))

/-- A method and the declarations it overrides or implements, one behind the other, at most `n`
of them. -/
def prototypes (r : Registry) : Nat → Method → List Method
  | 0, _ => []
  | n + 1, m =>
    m :: match r.prototype? m with
      | none => []
      | some p => r.prototypes n p

end Registry

end LazyClasses
