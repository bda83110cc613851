import LazyClasses.ClassName
import LazyClasses.ClassScope
import LazyClasses.Declaration
/-! # The registry

A registry holds the classes that are known, each under the lower-case form of its name, and
`stdClass` from the start. Registering a class brings it into normal form first: references lose a
leading `\`, methods learn their declaring class, and the methods of an interface are abstract.

* `Registry.insert` replaces a class of the same name.
* `Registry.find?` looks a reference up, in any case of letters and with or without a leading `\`.
* `Registry.scope` is what `self` and `parent` stand for in a class. -/

namespace LazyClasses

namespace Method

/-- The method as a class of the given name and kind has it: a method without a declaring class
belongs to that class, and a method of an interface is abstract. -/
def normalize (cls : String) (ofInterface : Bool) (m : Method) : Method :=
  { m with
    isAbstract := m.isAbstract || ofInterface
    declaringClass := if m.declaringClass.isEmpty then cls else ClassName.bare m.declaringClass }

end Method

namespace ClassDecl

/-- The class in normal form. -/
def normalize (c : ClassDecl) : ClassDecl :=
  { c with
    name := ClassName.bare c.name
    parent := c.parent.map ClassName.bare
    interfaces := c.interfaces.map ClassName.bare
    methods := c.methods.map (Method.normalize (ClassName.bare c.name) c.isInterface) }

end ClassDecl

/-- The classes that are known. -/
structure Registry where
  /-- The classes, in the order in which their names came first. -/
  classes : List ClassDecl
  nodup : (classes.map ClassDecl.key).Nodup
deriving Repr

namespace Registry

def size (r : Registry) : Nat := r.classes.length

/-- Whether no class is known. -/
def isEmpty (r : Registry) : Bool := r.classes.isEmpty

/-- The class filed under a key. -/
def byKey? (r : Registry) (key : String) : Option ClassDecl := r.classes.find? (·.key == key)

/-- **The class that a reference means.** -/
def find? (r : Registry) (name : String) : Option ClassDecl := r.byKey? (ClassName.key name)

/-- Whether a reference means a known class. -/
def contains (r : Registry) (name : String) : Bool := (r.find? name).isSome

/-- The class itself, or the new one if it has the same name. -/
def replaceClass (c old : ClassDecl) : ClassDecl := if old.key = c.key then c else old

theorem key_replaceClass (c old : ClassDecl) : (replaceClass c old).key = old.key := by
  unfold replaceClass
  split
  · rename_i h; exact h.symm
  · rfl

theorem map_key_replaceClass (c : ClassDecl) (l : List ClassDecl) :
    (l.map (replaceClass c)).map ClassDecl.key = l.map ClassDecl.key := by
  simp [Function.comp_def, key_replaceClass]

/-- Files a class as it is, in the place of one of the same name. -/
def file (r : Registry) (c : ClassDecl) : Registry :=
  if h : c.key ∈ r.classes.map ClassDecl.key then
    ⟨r.classes.map (replaceClass c), by rw [map_key_replaceClass]; exact r.nodup⟩
  else
    ⟨r.classes ++ [c], by
      rw [List.map_append, List.nodup_append]
      exact ⟨r.nodup, by simp, fun a ha b hb => by
        simp only [List.map_cons, List.map_nil, List.mem_singleton] at hb
        subst hb; intro e; exact h (e ▸ ha)⟩⟩

/-- **Registers a class**, in the place of one of the same name. -/
def insert (r : Registry) (c : ClassDecl) : Registry := r.file c.normalize

/-- The registry without any class. -/
def nothing : Registry := ⟨[], by simp⟩

/-- The registry that knows `stdClass` alone. -/
def empty : Registry := nothing.insert { name := "stdClass", isInternal := true }

instance : EmptyCollection Registry := ⟨empty⟩

instance : Inhabited Registry := ⟨empty⟩

/-- Registers classes one after the other. -/
def insertAll (r : Registry) (l : List ClassDecl) : Registry := l.foldl insert r

/-- What `self` and `parent` stand for in the class: the names as registered, where they are. -/
def scope (r : Registry) (name : String) : ClassScope :=
  match r.find? name with
  | some c => ⟨some c.name, c.parent.map fun p => ((r.find? p).map ClassDecl.name).getD p⟩
  | none => ⟨some (ClassName.bare name), none⟩

theorem mem_of_byKey? {r : Registry} {key : String} {c : ClassDecl} (h : r.byKey? key = some c) :
    c ∈ r.classes ∧ c.key = key :=
  ⟨List.mem_of_find?_eq_some h, by simpa using List.find?_some h⟩

theorem mem_of_find? {r : Registry} {name : String} {c : ClassDecl} (h : r.find? name = some c) :
    c ∈ r.classes := (mem_of_byKey? h).1

end Registry

end LazyClasses
