import LazyClasses.Command.Arguments
import LazyClasses.LazyClass.Ghost
import LazyClasses.LazyClass.Proxy
import LazyClasses.Registry.Load
/-! # Running a command

`Command.run` is the whole program but for its surroundings: it takes the arguments and what the
paths in them lead to, and says what is printed, how it ends, and what happened on the way. -/

namespace LazyClasses.Command

/-- Why a command fails. -/
inductive Failure where
  /-- The classes at a path cannot be loaded. -/
  | loading (path : String) (error : LoadError)
  | noClass (name : String)
  | noMethod (cls method : String)
  | refused (refusal : Refusal)
deriving DecidableEq, Repr

/-- The failure in words. -/
def Failure.message : Failure → String
  | .loading path _ => "loading " ++ path
  | .noClass name => "class \"" ++ name ++ "\" does not exist"
  | .noMethod cls method => "method \"" ++ cls ++ "::" ++ method ++ "()\" does not exist"
  | .refused refusal => refusal.message

/-- How a command ends. -/
inductive Conclusion where
  /-- It is not understood, or asks for help. -/
  | stopped (why : Stop)
  | failed (failure : Failure)
  | printed (text : String)
deriving DecidableEq, Repr

/-- The number that the program leaves behind. -/
def Conclusion.exitCode : Conclusion → Nat
  | .stopped .help => 0
  | .stopped .misuse => 2
  | .failed _ => 1
  | .printed _ => 0

/-- How a command ends, and what happened on the way. -/
structure Outcome where
  /-- How it ends. -/
  conclusion : Conclusion
  events : List Event
deriving DecidableEq, Repr

/-- Loads the classes at the paths one after the other, up to the first that fails. -/
def loadAll (look : String → Listing) (r : Registry) :
    List String → Except Failure Registry × List Event
  | [] => (.ok r, [])
  | path :: rest =>
    let outcome := r.load (Source.ofListing path (look path))
    match outcome.error with
    | some e => (.error (.loading path e), outcome.events)
    | none =>
      let more := loadAll look outcome.registry rest
      (more.1, outcome.events ++ more.2)

/-- The text of a generated class, as a whole declaration if there is a name. -/
def printGenerated (name : Option String) (generated : GeneratedClass) : String :=
  match name with
  | some name => generated.declare name
  | none => generated.body

/-- How a task ends. -/
def Task.run (g : Generator) : Task → Conclusion
  | .ghost cls name =>
    match g.ghostFor ∅ cls with
    | .ok made => .printed (printGenerated name (made.1.generated g.options))
    | .error refusal => .failed (.refused refusal)
  | .proxy cls interfaces name =>
    match g.proxyFor ∅ cls interfaces with
    | .ok made => .printed (printGenerated name (made.1.generated g.options))
    | .error refusal => .failed (.refused refusal)
  | .signature cls method withTypes =>
    match g.registry.find? cls with
    | none => .failed (.noClass cls)
    | some c =>
      match g.registry.method? c method with
      | none => .failed (.noMethod cls method)
      | some m =>
        let s := g.registry.signature m withTypes
        .printed (s.header ++ "\n" ++ s.argumentText ++ "\n")

/-- What happens on the way to the end of a task. -/
def Task.events (g : Generator) : Task → List Event
  | .ghost cls _ => ((g.registry.find? cls).map g.ghostEvents).getD []
  | .proxy cls interfaces _ =>
    match g.targetFor cls interfaces with
    | .ok target => g.proxyEvents target
    | .error _ => []
  | .signature cls method withTypes =>
    match (g.registry.find? cls).bind (g.registry.method? · method) with
    | some m => g.registry.signatureEvents m withTypes
    | none => []

/-- The options that an invocation asks for. -/
def Invocation.options (i : Invocation) : Options :=
  { ({} : Options) with
    supportNamespace := i.supportNamespace.getD ({} : Options).supportNamespace
    allowReadonly := i.allowReadonly }

/-- **Runs a command**; `look` is what a path leads to. -/
def run (look : String → Listing) (args : List String) : Outcome :=
  match Invocation.parse args with
  | .error why => ⟨.stopped why, []⟩
  | .ok i =>
    match loadAll look ∅ i.registries with
    | (.error failure, events) => ⟨.failed failure, events⟩
    | (.ok registry, events) =>
      let g : Generator := { registry, options := i.options }
      ⟨i.task.run g, events ++ i.task.events g⟩

end LazyClasses.Command
