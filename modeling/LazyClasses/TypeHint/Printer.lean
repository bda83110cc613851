import LazyClasses.TypeHint.Basic
/-! # The text of a type hint

`text` writes a hint in PHP syntax as it stands: members in their order, names as given, an
intersection inside a union in parentheses. -/

namespace LazyClasses.TypeHint

/-- The mark of a nullable hint, where it shows one, and its name. -/
def markedName (name : String) (nullable : Bool) : String :=
  if nullable && showsMark name then "?" ++ name else name

mutual

/-- The hint in PHP syntax. -/
def text : TypeHint → String
  | .named name nullable => markedName name nullable
  | .union members => "|".intercalate (unionTexts members)
  | .intersection members => "&".intercalate (memberTexts members)

/-- The members of a union: intersections stand in parentheses. -/
def unionTexts : List TypeHint → List String
  | [] => []
  | member :: members =>
    (if member.isIntersection then "(" ++ text member ++ ")" else text member) ::
      unionTexts members

/-- The members of an intersection. -/
def memberTexts : List TypeHint → List String
  | [] => []
  | member :: members => text member :: memberTexts members

end

instance : ToString TypeHint := ⟨text⟩

end LazyClasses.TypeHint
