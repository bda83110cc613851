import LazyClasses.Text.Case
/-! # Type hints

A type hint is the type that a PHP declaration gives to a parameter, a property or a result: one
name, perhaps nullable, or a union or an intersection of hints. Reading gives only unions of names
and of intersections of names, but a hint may nest to any depth.

* `leaves`: the names that occur, from left to right.
* `isBuiltin`: the names that are types of the language itself. `static`, `self` and `parent`
  stand for classes and are none of them. -/

namespace LazyClasses

/-- The type of a parameter, a property or a result. -/
inductive TypeHint where
  /-- One name; `nullable` allows `null` beside it. -/
  | named (name : String) (nullable : Bool)
  /-- Any one of the members. -/
  | union (members : List TypeHint)
  /-- All of the members at once. -/
  | intersection (members : List TypeHint)
deriving Repr, Inhabited

namespace TypeHint

/-- The types of the language itself, in lower case. -/
def builtinNames : List String :=
  ["array", "bool", "callable", "false", "float", "int", "iterable", "mixed", "never", "null",
   "object", "string", "true", "void"]

/-- Whether the name, in any case of letters, is a type of the language itself. -/
def isBuiltin (name : String) : Bool := Text.memIgnoreCase name builtinNames

/-- Whether a nullable hint of this name shows its mark: `mixed` and `null` allow `null` anyway. -/
def showsMark (name : String) : Bool := !Text.same name "mixed" && !Text.same name "null"

/-- Whether the hint is an intersection, which stands in parentheses inside other hints. -/
def isIntersection : TypeHint → Bool
  | .intersection _ => true
  | _ => false

mutual

/-- The names in the hint, from left to right. -/
def leaves : TypeHint → List String
  | .named name _ => [name]
  | .union members => leavesAll members
  | .intersection members => leavesAll members

/-- The names in the hints, from left to right. -/
def leavesAll : List TypeHint → List String
  | [] => []
  | member :: members => leaves member ++ leavesAll members

end

mutual

/-- Structural equality. -/
def same : TypeHint → TypeHint → Bool
  | .named a m, .named b n => a == b && m == n
  | .union as, .union bs => sameAll as bs
  | .intersection as, .intersection bs => sameAll as bs
  | _, _ => false

/-- Structural equality, member by member. -/
def sameAll : List TypeHint → List TypeHint → Bool
  | [], [] => true
  | a :: as, b :: bs => same a b && sameAll as bs
  | _, _ => false

end

mutual

theorem eq_of_same : ∀ {a b : TypeHint}, same a b = true → a = b
  | .named _ _, .named _ _, h => by simpa [same] using h
  | .union _, .union _, h => congrArg union (eq_of_sameAll (by simpa [same] using h))
  | .intersection _, .intersection _, h =>
    congrArg intersection (eq_of_sameAll (by simpa [same] using h))
  | .named _ _, .union _, h => by simp [same] at h
  | .named _ _, .intersection _, h => by simp [same] at h
  | .union _, .named _ _, h => by simp [same] at h
  | .union _, .intersection _, h => by simp [same] at h
  | .intersection _, .named _ _, h => by simp [same] at h
  | .intersection _, .union _, h => by simp [same] at h

theorem eq_of_sameAll : ∀ {as bs : List TypeHint}, sameAll as bs = true → as = bs
  | [], [], _ => rfl
  | _ :: _, _ :: _, h => by
    simp only [sameAll, Bool.and_eq_true] at h
    rw [eq_of_same h.1, eq_of_sameAll h.2]
  | [], _ :: _, h => by simp [sameAll] at h
  | _ :: _, [], h => by simp [sameAll] at h

end

mutual

theorem same_self : ∀ a : TypeHint, same a a = true
  | .named _ _ => by simp [same]
  | .union as => by simpa [same] using sameAll_self as
  | .intersection as => by simpa [same] using sameAll_self as

theorem sameAll_self : ∀ as : List TypeHint, sameAll as as = true
  | [] => rfl
  | a :: as => by simp [sameAll, same_self a, sameAll_self as]

end

instance : DecidableEq TypeHint := fun a b =>
  if h : same a b = true then isTrue (eq_of_same h)
  else isFalse fun e => h (e ▸ same_self a)

end TypeHint

end LazyClasses
