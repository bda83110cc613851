import LazyClasses.LazyClass.Generator
import LazyClasses.PropertyScope.Literal
/-! # Lazy ghosts

A ghost extends its class and initializes itself in place. So the class must be one that can be
extended and have objects, no class above it may be internal, reading its properties must be left
to the ghost, and none of the methods that the ghost trait defines may be final.

* `Generator.ghostObstacle?`: the first thing in the way, in that order.
* `Generator.ghost`: the ghost, and the cache that then knows its scopes. -/

namespace LazyClasses

structure Ghost where
  parent : ClassDecl
  scopes : ScopeMap

/-- The part of the declaration behind the name. -/
def Ghost.generated (options : Options) (ghost : Ghost) : GeneratedClass where
  isReadonly := options.allowReadonly && ghost.parent.isReadonly
  body :=
    " extends \\" ++ ghost.parent.name ++ " implements " ++ options.symbol "LazyObjectInterface" ++
      "\n\x7b\n    use " ++ options.symbol "LazyGhostTrait" ++
      ";\n\n    private int $lazyObjectId;\n\n" ++
      "    private const LAZY_OBJECT_PROPERTY_SCOPES = " ++
      ScopeLiteral.text ghost.parent.name ghost.scopes ++ ";\n\x7d\n\n" ++
      Support.preloadHints options

namespace Generator

/-- What is wrong with the class itself. -/
def shapeObstacle? (g : Generator) (c : ClassDecl) : Option Obstacle :=
  if c.isFinal then some .finalClass
  else if !c.isConcrete then some .notConcrete
  else if c.isForeign g.options.sentinel then some .internalClass
  else none

/-- What is wrong with the way the class reads undeclared properties. -/
def getterObstacle? (g : Generator) (c : ClassDecl) : Option Obstacle :=
  match g.registry.method? c "__get" with
  | some getter =>
    if g.getterType getter = "mixed" then none
    else some (.incompatibleGetter (g.getterType getter))
  | none => none

/-- The first method that the ghost trait defines and the class may not override. -/
def traitObstacle? (g : Generator) (c : ClassDecl) : Option Obstacle :=
  Support.ghostMethods.findSome? fun name =>
    match g.registry.method? c name with
    | some m => if m.isFinal then some (.finalMethod m.name) else none
    | none => none

/-- The nearest ancestor that is internal. -/
def ancestorObstacle? (g : Generator) (c : ClassDecl) : Option Obstacle :=
  ((g.registry.ancestors c).find? (ClassDecl.isForeign g.options.sentinel)).map fun a =>
    .internalAncestor a.name

/-- **What stands in the way of a ghost**: the first obstacle, if there is one. -/
def ghostObstacle? (g : Generator) (c : ClassDecl) : Option Obstacle :=
  (g.shapeObstacle? c).or <| (g.getterObstacle? c).or <|
    (g.traitObstacle? c).or (g.ancestorObstacle? c)

/-- **The ghost of a class**, and the cache that then knows its scopes. -/
def ghost (g : Generator) (cache : ScopeCache) (c : ClassDecl) :
    Except Refusal (Ghost × ScopeCache) :=
  match g.ghostObstacle? c with
  | some obstacle => .error ⟨.ghost, c.name, obstacle⟩
  | none =>
    let known := g.scopes cache c.name
    .ok (⟨c, known.1⟩, known.2)

/-- The ghost of the class that a reference means. -/
def ghostFor (g : Generator) (cache : ScopeCache) (name : String) :
    Except Refusal (Ghost × ScopeCache) :=
  (g.lookup .ghost name).bind (g.ghost cache)

/-- The events of looking for the ghost of a class. -/
def ghostEvents (g : Generator) (c : ClassDecl) : List Event :=
  (if (g.shapeObstacle? c).isNone then
    ((g.registry.method? c "__get").map g.getterEvents).getD [] else []) ++
  (if (g.ghostObstacle? c).isNone then [.writingGhost c.name] else [])

end Generator

end LazyClasses
