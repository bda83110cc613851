/-! # Refusals

Why a class cannot be made lazy. A refusal names the kind of lazy class that was wanted, the class
that the request was about, and the cause. -/

namespace LazyClasses

/-- The kinds of lazy classes. -/
inductive LazyKind where
  /-- An object that initializes itself in place. -/
  | ghost
  /-- An object that hands calls on to a real one. -/
  | proxy
deriving DecidableEq, Repr

/-- The kind in words. -/
def LazyKind.name : LazyKind → String
  | .ghost => "lazy ghost"
  | .proxy => "lazy proxy"

/-- What stands in the way. -/
inductive Obstacle where
  | classNotFound
  | notAClass
  | notAnInterface
  | finalClass
  /-- The class cannot have objects of its own. -/
  | notConcrete
  | internalClass
  | internalAncestor (ancestor : String)
  /-- `__get` promises another type than `mixed`. -/
  | incompatibleGetter (returnType : String)
  /-- A method would have to be overridden and may not be. -/
  | finalMethod (method : String)
deriving DecidableEq, Repr

/-- Whose fault an obstacle is. -/
inductive ObstacleKind where
  /-- The shape of the class or of its ancestors. -/
  | structural
  /-- What a member promises. -/
  | contract
  /-- The request names the wrong kind of thing. -/
  | request
deriving DecidableEq, Repr

/-- The kind of an obstacle. -/
def Obstacle.kind : Obstacle → ObstacleKind
  | .classNotFound | .notAClass | .notAnInterface => .request
  | .finalClass | .notConcrete | .internalClass | .internalAncestor _ => .structural
  | .incompatibleGetter _ | .finalMethod _ => .contract

/-- A class that cannot be made lazy, and why. -/
structure Refusal where
  kind : LazyKind
  /-- The class that the request was about. -/
  cls : String
  obstacle : Obstacle
deriving DecidableEq, Repr

/-- What is wrong with the class. -/
def Obstacle.complaint (cls : String) : Obstacle → String
  | .classNotFound => "class \"" ++ cls ++ "\" does not exist."
  | .notAClass => "\"" ++ cls ++ "\" is not a class."
  | .notAnInterface => "\"" ++ cls ++ "\" is not an interface."
  | .finalClass => "class \"" ++ cls ++ "\" is final."
  | .notConcrete => "\"" ++ cls ++ "\" is not a concrete class."
  | .internalClass => "class \"" ++ cls ++ "\" is internal."
  | .internalAncestor ancestor =>
    "class \"" ++ cls ++ "\" extends \"" ++ ancestor ++ "\" which is internal."
  | .incompatibleGetter returnType =>
    "return type of method \"" ++ cls ++ "::__get()\" should be \"mixed\", \"" ++ returnType ++
      "\" given."
  | .finalMethod method => "method \"" ++ cls ++ "::" ++ method ++ "()\" is final."

/-- The refusal in words. -/
def Refusal.message (e : Refusal) : String :=
  "Cannot generate " ++ e.kind.name ++ ": " ++ e.obstacle.complaint e.cls

end LazyClasses
