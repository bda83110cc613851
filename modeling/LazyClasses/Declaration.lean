import LazyClasses.Text.Case
import LazyClasses.TypeHint.Basic
/-! # Declarations

What a PHP class declares: its kind and modifiers, the classes it refers to, its methods with
their parameters, and its properties. Declarations are plain data; how classes hang together is
for a registry to say. -/

namespace LazyClasses

/-- From where a member may be used. -/
inductive Visibility where
  | publicAccess
  | protectedAccess
  | privateAccess
deriving DecidableEq, Repr, Inhabited

/-- The keyword for a visibility. -/
def Visibility.keyword : Visibility → String
  | .publicAccess => "public"
  | .protectedAccess => "protected"
  | .privateAccess => "private"

/-- All visibilities, widest first. -/
def Visibility.all : List Visibility := [.publicAccess, .protectedAccess, .privateAccess]

/-- The kinds of class-like declarations. -/
inductive ClassKind where
  | plainClass
  | interface
  | trait
  | enum
deriving DecidableEq, Repr, Inhabited

/-- The keyword for a kind. -/
def ClassKind.keyword : ClassKind → String
  | .plainClass => "class"
  | .interface => "interface"
  | .trait => "trait"
  | .enum => "enum"

def ClassKind.all : List ClassKind := [.plainClass, .interface, .trait, .enum]

/-- A parameter of a method or function. -/
structure Parameter where
  /-- The name, without `$`. -/
  name : String := ""
  hint : Option TypeHint := none
  /-- The default value as written. -/
  default : Option String := none
  isVariadic : Bool := false
  byRef : Bool := false
  /-- Whether its value is kept out of stack traces. -/
  isSensitive : Bool := false
deriving DecidableEq, Repr, Inhabited

/-- Whether a call may leave the parameter out. -/
def Parameter.isOptional (p : Parameter) : Bool := p.isVariadic || p.default.isSome

structure Method where
  name : String := ""
  visibility : Visibility := .publicAccess
  isStatic : Bool := false
  isAbstract : Bool := false
  isFinal : Bool := false
  returnsRef : Bool := false
  /-- The class that declares it; empty until the class is registered, if left out. -/
  declaringClass : String := ""
  parameters : List Parameter := []
  returnType : Option TypeHint := none
  /-- Whether the result type is one that overriding methods need not adopt yet. -/
  isTentative : Bool := false
deriving DecidableEq, Repr, Inhabited

namespace Method

/-- Whether only the declaring class may call the method. -/
def isPrivate (m : Method) : Bool := m.visibility = .privateAccess

/-- Whether the class and its relatives may call the method, and nobody else. -/
def isProtected (m : Method) : Bool := m.visibility = .protectedAccess

/-- What the method is found under. -/
def key (m : Method) : String := Text.lower m.name

/-- Whether the declared result type is exactly `void` or `never`. -/
def returnsNothing (m : Method) : Bool :=
  match m.returnType with
  | some (.named name _) => Text.same name "void" || Text.same name "never"
  | _ => false

end Method

/-- A function outside classes, or a closure. -/
structure FunctionDecl where
  name : String := ""
  parameters : List Parameter := []
  returnType : Option TypeHint := none
  returnsRef : Bool := false
  isTentative : Bool := false
  /-- Whether it is a closure, which has no name to call it by. -/
  isClosure : Bool := false
deriving DecidableEq, Repr, Inhabited

structure Property where
  /-- The name, without `$`. -/
  name : String := ""
  visibility : Visibility := .publicAccess
  isStatic : Bool := false
  /-- Whether it is written once only. -/
  isReadonly : Bool := false
  hint : Option TypeHint := none
  /-- The default value as written. -/
  default : Option String := none
deriving DecidableEq, Repr, Inhabited

/-- A class, an interface, a trait or an enumeration. -/
structure ClassDecl where
  name : String := ""
  kind : ClassKind := .plainClass
  isFinal : Bool := false
  isAbstract : Bool := false
  /-- Whether the language itself or an extension defines it. -/
  isInternal : Bool := false
  /-- Whether its properties are written once only. -/
  isReadonly : Bool := false
  parent : Option String := none
  /-- The interfaces it implements, or extends if it is one. -/
  interfaces : List String := []
  methods : List Method := []
  properties : List Property := []
deriving DecidableEq, Repr, Inhabited

namespace ClassDecl

/-- What the class is found under. -/
def key (c : ClassDecl) : String := Text.lower c.name

/-- Whether it is an interface. -/
def isInterface (c : ClassDecl) : Bool := c.kind = .interface

/-- Whether it is a class that can have objects of its own. -/
def isConcrete (c : ClassDecl) : Bool := c.kind = .plainClass && !c.isAbstract

/-- Whether it is internal and not the one internal class that may be extended lazily. -/
def isForeign (sentinel : String) (c : ClassDecl) : Bool :=
  c.isInternal && !Text.same c.name sentinel

/-- The first declared method of the name, in any case of letters. -/
def method? (c : ClassDecl) (name : String) : Option Method :=
  c.methods.find? fun m => Text.same m.name name

end ClassDecl

end LazyClasses
