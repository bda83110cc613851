import LazyClasses.Text.Case
/-! # Class scopes

Inside a class, `self` and `parent` stand for the class and its parent. A class scope says for
which; outside every class both are absent.

* `resolve`: what a name stands for in the scope; `none` for a keyword without a referent. -/

namespace LazyClasses

/-- What `self` and `parent` stand for. -/
structure ClassScope where
  self : Option String
  parent : Option String
deriving DecidableEq, Repr, Inhabited

namespace ClassScope

/-- The scope of code outside every class. -/
def free : ClassScope := ⟨none, none⟩

/-- What the name stands for: any name but `self` and `parent` for itself. -/
def resolve (scope : ClassScope) (name : String) : Option String :=
  if Text.same name "self" then scope.self
  else if Text.same name "parent" then scope.parent
  else some name

/-- Whether the name is `parent` in a scope that has none. -/
def lacksParent (scope : ClassScope) (name : String) : Bool :=
  Text.same name "parent" && scope.parent.isNone

end ClassScope

end LazyClasses
