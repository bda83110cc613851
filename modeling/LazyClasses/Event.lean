/-! # Events

What happens on the way to an answer and is worth telling someone who watches. Events change no
answer; a level says how much they matter. -/

namespace LazyClasses

/-- How much an event matters. -/
inductive Level where
  | error
  | warn
  | info
  | debug
  | trace
deriving DecidableEq, Repr

/-- The rank of a level, the most important first. -/
def Level.rank : Level → Nat
  | .error => 1
  | .warn => 2
  | .info => 3
  | .debug => 4
  | .trace => 5

/-- The name of a level. -/
def Level.name : Level → String
  | .error => "ERROR"
  | .warn => "WARN"
  | .info => "INFO"
  | .debug => "DEBUG"
  | .trace => "TRACE"

/-- Something that happened. -/
inductive Event where
  /-- The classes of a file were registered. -/
  | loaded (path : String) (classes : Nat)
  /-- The keyword `parent` had nothing to stand for in a class. -/
  | parentMissing (cls : String)
  | writingGhost (cls : String)
  /-- A final method stays as it is inherited. -/
  | keptFinal (method : String)
  /-- A method stays as it is inherited because its result cannot be the proxy. -/
  | notForwarded (method : String)
  | wroteProxy (cls : String) (interfaces : Nat) (mustProxy : Bool)
deriving DecidableEq, Repr

namespace Event

/-- How much the event matters. -/
def level : Event → Level
  | .parentMissing _ => .warn
  | _ => .debug

/-- The event in words. -/
def message : Event → String
  | .loaded _ _ => "loaded class descriptors"
  | .parentMissing _ => "cannot resolve \"parent\": no parent class, keeping the keyword"
  | .writingGhost _ => "generating lazy ghost"
  | .keptFinal _ => "leaving final method to inheritance"
  | .notForwarded _ => "return type cannot alias the proxy, not forwarding"
  | .wroteProxy _ _ _ => "generated lazy proxy"

end Event

end LazyClasses
