import LazyClasses.ClassName
import LazyClasses.LazyClass.Refusal
import LazyClasses.PropertyScope.Cache
import LazyClasses.PropertyScope.Inherited
import LazyClasses.Signature
import LazyClasses.Support
/-! # Generators

A generator writes lazy classes for the classes of a registry. It asks a supplier for property
scopes, by default the inherited ones, and remembers them in a cache that it is handed. What it
writes is the part of a declaration behind the name of the class. -/

namespace LazyClasses

/-- What lazy classes are made from. -/
structure Generator where
  registry : Registry
  /-- What the generated classes may rely on. -/
  options : Options := {}
  /-- The property scopes of a class. -/
  supplier : String → ScopeMap := registry.propertyScopes

/-- The part of a class declaration behind the name. -/
structure GeneratedClass where
  isReadonly : Bool
  /-- Everything behind the name: clauses, members and preload hints. -/
  body : String
deriving DecidableEq, Repr

/-- The whole declaration of a class of the given name. -/
def GeneratedClass.declare (g : GeneratedClass) (name : String) : String :=
  (if g.isReadonly then "readonly " else "") ++ "class " ++ name ++ g.body

namespace Generator

/-- The scopes of a class as they are known or else supplied, and the cache that knows them. -/
def scopes (g : Generator) (cache : ScopeCache) (cls : String) : ScopeMap × ScopeCache :=
  cache.getOrInsert cls (g.supplier cls)

/-- The class that a request names. -/
def lookup (g : Generator) (kind : LazyKind) (name : String) : Except Refusal ClassDecl :=
  match g.registry.find? name with
  | some c => .ok c
  | none => .error ⟨kind, ClassName.bare name, .classNotFound⟩

/-- The result type of `__get` as it reads outside its class; without one it is `mixed`. -/
def getterType (g : Generator) (getter : Method) : String :=
  match getter.returnType with
  | some hint => hint.render (g.registry.scope getter.declaringClass) .full
  | none => "mixed"

/-- The events of rendering the result type of `__get`. -/
def getterEvents (g : Generator) (getter : Method) : List Event :=
  (getter.returnType.map (TypeHint.events (g.registry.scope getter.declaringClass))).getD []

end Generator

end LazyClasses
