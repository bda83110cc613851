import LazyClasses.LazyClass.Ghost
import LazyClasses.LazyClass.Proxy
import LazyClasses.Registry.Load
/-! # Sessions

In a session lazy classes are made one after the other while the registry and the options change.
All of them share one cache of property scopes, so the scopes of a class stay what they were when
the first lazy class was made for it.

* `Work`: making a lazy class, step by step. What is refused on the way keeps what was done to the
  cache before.
* `Request`: what lazy class to make, of classes as they are given or as references mean them.
* `Session.perform`, `Session.after`: one operation, and several one after the other. -/

namespace LazyClasses

/-- Steps that may use the cache and may be refused. -/
abbrev Work := ExceptT Refusal (StateM ScopeCache)

/-- Stops at an obstacle, which stands in the way of a class. -/
def Work.refuse (kind : LazyKind) : Option (String × Obstacle) → Work Unit
  | some (cls, obstacle) => throw ⟨kind, cls, obstacle⟩
  | none => pure ()

/-- A lazy class of either kind. -/
inductive LazyClass where
  | ghost (ghost : Ghost)
  | proxy (proxy : Proxy)

namespace LazyClass

/-- The class that is extended, if any. -/
def cls : LazyClass → Option ClassDecl
  | ghost g => some g.parent
  | proxy p => p.target.cls

/-- The part of the declaration behind the name. -/
def generated (options : Options) : LazyClass → GeneratedClass
  | ghost g => g.generated options
  | proxy p => p.generated options

end LazyClass

namespace Generator

/-- Asks for the scopes of a class. -/
def askScopes (g : Generator) (cls : String) : Work ScopeMap :=
  modifyGet fun cache => g.scopes cache cls

/-- Asks for the class that a request names. -/
def askClass (g : Generator) (kind : LazyKind) (name : String) : Work ClassDecl :=
  liftExcept (g.lookup kind name)

def makeGhost (g : Generator) (c : ClassDecl) : Work Ghost := do
  Work.refuse .ghost ((g.shapeObstacle? c).map (c.name, ·))
  Work.refuse .ghost ((g.getterObstacle? c).map (c.name, ·))
  Work.refuse .ghost ((g.traitObstacle? c).map (c.name, ·))
  Work.refuse .ghost ((g.ancestorObstacle? c).map (c.name, ·))
  return ⟨c, ← g.askScopes c.name⟩

def makeProxy (g : Generator) (t : Target) : Work Proxy := do
  Work.refuse .proxy (g.targetObstacle? t)
  Work.refuse .proxy (g.narrowGetterObstacle? t)
  Work.refuse .proxy (g.methodObstacle? t)
  let scopes ← t.cls.mapM fun c => g.askScopes c.name
  return ⟨t, scopes, (g.narrowGetter? t).map g.getterType, g.forwarders t⟩

end Generator

/-- A lazy class to make. -/
inductive Request where
  | ghost (c : ClassDecl)
  /-- The ghost of the class that a reference means. -/
  | ghostFor (name : String)
  | proxy (t : Target)
  /-- The proxy for the class and the interfaces that references mean. -/
  | proxyFor (cls : Option String) (interfaces : List String)

/-- Makes what is asked for. -/
def Request.make (g : Generator) : Request → Work LazyClass
  | ghost c => return .ghost (← g.makeGhost c)
  | ghostFor name => do return .ghost (← g.makeGhost (← g.askClass .ghost name))
  | proxy t => return .proxy (← g.makeProxy t)
  | proxyFor cls interfaces => do
    let cls ← cls.mapM (g.askClass .proxy)
    let interfaces ← interfaces.mapM (g.askClass .proxy)
    return .proxy (← g.makeProxy ⟨cls, interfaces⟩)

/-! ### Operations -/

/-- What the operations of a session share. -/
structure Session where
  registry : Registry
  options : Options := {}
  cache : ScopeCache := ∅

/-- One thing that is done in a session. -/
inductive Operation where
  | register (c : ClassDecl)
  | load (sources : List Source)
  | configure (options : Options)
  /-- Makes a lazy class, with another supplier of scopes than the registry if one is given. -/
  | make (request : Request) (supplier : Option (String → ScopeMap))

/-- What comes of an operation. -/
inductive Answer where
  | registered
  | loaded (outcome : LoadOutcome)
  | configured
  | made (made : LazyClass) (generated : GeneratedClass)
  | refused (refusal : Refusal)

namespace Session

/-- The generator that makes lazy classes in a session. -/
def generator (s : Session) (supplier : Option (String → ScopeMap)) : Generator where
  registry := s.registry
  options := s.options
  supplier := supplier.getD s.registry.propertyScopes

/-- What comes of making a lazy class, which leaves the given cache. -/
def conclude (s : Session) : Except Refusal LazyClass × ScopeCache → Answer × Session
  | (.ok made, cache) => (.made made (made.generated s.options), { s with cache })
  | (.error refusal, cache) => (.refused refusal, { s with cache })

/-- **One operation**: what comes of it, and the session afterwards. -/
def perform (s : Session) : Operation → Answer × Session
  | .register c => (.registered, { s with registry := s.registry.insert c })
  | .load sources =>
    let outcome := s.registry.load sources
    (.loaded outcome, { s with registry := outcome.registry })
  | .configure options => (.configured, { s with options })
  | .make request supplier =>
    s.conclude ((request.make (s.generator supplier)).run s.cache)

/-- The session after operations one after the other. -/
def after (s : Session) : List Operation → Session
  | [] => s
  | op :: ops => (s.perform op).2.after ops

end Session

end LazyClasses
