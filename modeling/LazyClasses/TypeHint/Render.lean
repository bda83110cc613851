import LazyClasses.ClassName
import LazyClasses.ClassScope
import LazyClasses.TypeHint.Basic
/-! # Rendering types for another scope

`render` writes a hint so that it means the same outside the class that declared it: `self` and
`parent` become the classes they stand for, and class names get a leading `\`. Members are sorted
by their texts, so the order in which they were declared does not show.

With the detail `classesOnly` the types of the language are left out and class names stay without
`\`; the text is empty when nothing but such types was there. -/

namespace LazyClasses.TypeHint

/-- How much of a hint is rendered. -/
inductive Detail where
  /-- The whole type, class names fully qualified. -/
  | full
  /-- The class names alone, unqualified. -/
  | classesOnly
deriving DecidableEq, Repr

/-- The text of one name, or `none` if it is left out. A keyword without a referent stays, in
lower case. -/
def renderName (scope : ClassScope) (detail : Detail) (name : String) : Option String :=
  let name := ClassName.bare name
  if detail = .classesOnly && isBuiltin name then none
  else
    match scope.resolve name with
    | none => some (Text.lower name)
    | some resolved =>
      if detail = .classesOnly || isBuiltin name || Text.same name "static" then some resolved
      else some ("\\" ++ resolved)

/-- The mark before a nullable name. -/
def mark (detail : Detail) (name : String) (nullable : Bool) : String :=
  if nullable && showsMark name && detail = .full then "?" else ""

/-- The texts in the order of their UTF-8 bytes, which is that of their code points. -/
def sortTexts (texts : List String) : List String := texts.mergeSort (fun a b => decide (a ≤ b))

/-- What a member adds to those around it, `inner` being its own text: a name its text without a
mark, a compound member nothing if it is empty, an intersection itself in parentheses. -/
def contribution (scope : ClassScope) (detail : Detail) (inner : String) : TypeHint → List String
  | .named name _ => (renderName scope detail name).toList
  | .union _ => if inner.isEmpty then [] else [inner]
  | .intersection _ => if inner.isEmpty then [] else ["(" ++ inner ++ ")"]

mutual

/-- **The hint as it reads outside the scope.** -/
def render (scope : ClassScope) (detail : Detail) : TypeHint → String
  | .named name nullable =>
    match renderName scope detail name with
    | none => ""
    | some text => mark detail name nullable ++ text
  | .union members => "|".intercalate (sortTexts (renderMembers scope detail members))
  | .intersection members => "&".intercalate (sortTexts (renderMembers scope detail members))

/-- What the members add, one after the other. -/
def renderMembers (scope : ClassScope) (detail : Detail) : List TypeHint → List String
  | [] => []
  | member :: members =>
    contribution scope detail (render scope detail member) member ++
      renderMembers scope detail members

end

/-- How often rendering the hint meets `parent` in a scope that has none. -/
def countLackingParent (scope : ClassScope) (hint : TypeHint) : Nat :=
  hint.leaves.countP fun name => scope.lacksParent (ClassName.bare name)

end LazyClasses.TypeHint
