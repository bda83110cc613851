import LazyClasses.LazyClass.Generator
import LazyClasses.PropertyScope.Literal
import LazyClasses.Text.Split
/-! # Lazy proxies

A proxy stands for an object of a class, of some interfaces, or of both, and hands calls on to a
real one. It declares again those methods that could otherwise miss the real object: abstract
ones, those that return nothing, and those whose result may be the proxy itself; all of them if
the class has an internal ancestor or a `__get` with a narrow type.

* `Target`: the class and the interfaces of a request.
* `Generator.candidates`: the methods that count, those of the class first.
* `Decision`, `Generator.decide`: what becomes of one method, given what became of those before.
* `Generator.decisions`: what becomes of each, up to the first that is in the way.
* `Generator.proxy`: the proxy, and the cache that then knows the scopes of its class. -/

namespace LazyClasses

/-- What a proxy stands for. -/
structure Target where
  /-- The class that is extended, if any. -/
  cls : Option ClassDecl
  interfaces : List ClassDecl
deriving DecidableEq, Repr

namespace Target

/-- The interface names, each in the spelling of its first occurrence. -/
def firstNames (seen : List String) (l : List ClassDecl) : List String :=
  (firstBy ClassDecl.key seen l).map ClassDecl.name

/-- The names of the interfaces, each once. -/
def interfaceNames (t : Target) : List String := firstNames [] t.interfaces

/-- The type of the real object: the parent class and the interfaces, or any object. -/
def realType (t : Target) : String :=
  let parts := (if t.cls.isSome then ["parent"] else []) ++ t.interfaceNames.map ("\\" ++ ·)
  if parts.isEmpty then "object" else "&".intercalate parts

/-- The class that answers for a method: the one that is extended, or else the one that declares
the method. -/
def answerable (t : Target) (m : Method) : String :=
  match t.cls with
  | some c => c.name
  | none => m.declaringClass

end Target

/-! ### Members -/

/-- A method that a proxy declares again. -/
structure Forwarder where
  method : Method
  signature : Signature
deriving DecidableEq, Repr

namespace Forwarder

/-- What a call comes to without a real object: the parent's method, or for an abstract one an
exception. -/
def fallback (f : Forwarder) : String :=
  if f.method.isAbstract then
    "throw new \\BadMethodCallException('Cannot forward abstract method \"" ++
      f.method.declaringClass ++ "::" ++ f.method.name ++ "()\".')"
  else "parent::" ++ f.method.name ++ "(" ++ f.signature.argumentText ++ ")"

/-- The call on the real object. -/
def forwardedCall (f : Forwarder) : String :=
  "$this->lazyObjectReal->" ++ f.method.name ++ "(" ++ f.signature.argumentText ++ ")"

/-- The statements of the method. -/
def statements (f : Forwarder) : String :=
  if f.method.isStatic then "        " ++ f.fallback ++ ";"
  else if f.method.returnsNothing then
    "        if (isset($this->lazyObjectReal)) \x7b\n            " ++ f.forwardedCall ++
      ";\n        \x7d else \x7b\n            " ++ f.fallback ++ ";\n        \x7d"
  else
    "        if (isset($this->lazyObjectReal)) \x7b\n            return " ++ f.forwardedCall ++
      ";\n        \x7d\n\n        return " ++ f.fallback ++ ";"

/-- The declaration of the method. -/
def text (f : Forwarder) : String :=
  "    " ++ f.signature.header ++ "\n    \x7b\n" ++ f.statements ++ "\n    \x7d"

end Forwarder

structure Proxy where
  target : Target
  /-- The scopes of the properties of its class, if it extends one. -/
  scopes : Option ScopeMap
  /-- The result type of `__get`, if that has to be declared. -/
  getterType : Option String
  /-- The methods that are declared again. -/
  forwarders : List Forwarder

namespace Proxy

/-- The members behind the scopes. -/
def members (options : Options) (p : Proxy) : List String :=
  (if p.target.cls.isNone then [Support.initializer options p.target.realType] else []) ++
    (p.getterType.map (Support.getter options)).toList ++ p.forwarders.map Forwarder.text

/-- The constant that holds the scopes: the real object has one of its own. -/
def scopesConstant (parent : String) (scopes : ScopeMap) : String :=
  "\n    private const LAZY_OBJECT_PROPERTY_SCOPES = [\n" ++
    "        'lazyObjectReal' => [self::class, 'lazyObjectReal', null],\n" ++
    "        \"\\0\".self::class.\"\\0lazyObjectReal\" => [self::class, 'lazyObjectReal', null],\n" ++
    String.join ((ScopeLiteral.lines parent scopes).map (· ++ "\n")) ++ "    ];\n"

/-- The names in the `implements` clause. -/
def implemented (options : Options) (p : Proxy) : List String :=
  p.target.interfaceNames.map ("\\" ++ ·) ++ [options.symbol "LazyObjectInterface"]

/-- The part of the declaration behind the name. -/
def generated (options : Options) (p : Proxy) : GeneratedClass where
  isReadonly := options.allowReadonly && p.target.cls.any (·.isReadonly)
  body :=
    (match p.target.cls with
      | some c => " extends \\" ++ c.name
      | none => "") ++
    " implements " ++ ", ".intercalate (p.implemented options) ++ "\n\x7b\n    use " ++
    options.symbol "LazyProxyTrait" ++ ";\n\n    private int $lazyObjectId;\n    private " ++
    p.target.realType ++ " $lazyObjectReal;\n" ++
    (match p.target.cls, p.scopes with
      | some c, some scopes => scopesConstant c.name scopes
      | _, _ => "") ++
    (match p.members options with
      | [] => ""
      | members => "\n" ++ "\n\n".intercalate members ++ "\n") ++
    "\x7d\n\n" ++ Support.preloadHints options

end Proxy

/-! ### Decisions -/

/-- What becomes of a method. -/
inductive Decision where
  /-- It needs no thought: it is taken care of, or never reaches the real object. -/
  | passOver
  /-- It is final and stays as it is inherited. -/
  | keepFinal
  /-- It stays as it is inherited, since its result cannot be the proxy. -/
  | keepInherited
  /-- It is declared again. -/
  | forward
  /-- A final method, this one or one of the same name before it, is in the way. -/
  | refuse (final : Method)
deriving DecidableEq, Repr

namespace Generator

/-- The types that any object may be of. -/
def identityTypes : List String := ["static", "object", "mixed"]

/-- The characters that separate the names in a rendered type. -/
def isTypePunctuation (c : Char) : Bool := c == '(' || c == ')' || c == '|' || c == '&'

/-- The class names in the result type, as they read outside the class that declares the method. -/
def resultClasses (g : Generator) (m : Method) (hint : TypeHint) : List String :=
  let text := hint.render (g.registry.scope m.declaringClass) .classesOnly
  ((Text.split isTypePunctuation text.toList).filter (!·.isEmpty)).map String.ofList

/-- Whether what the method returns could be the proxy itself. -/
def mayReturnProxy (g : Generator) (t : Target) (m : Method) : Bool :=
  match m.returnType with
  | none => true
  | some hint =>
    hint.leaves.any (Text.memIgnoreCase · identityTypes) ||
      (g.resultClasses m hint).any fun name =>
        (t.cls.toList ++ t.interfaces).any fun c => g.registry.isA c name

/-- The methods that count, those of the class first. Private methods of the class do not. -/
def candidates (g : Generator) (t : Target) : List Method :=
  t.cls.toList.flatMap (fun c => (g.registry.methods c).filter fun m => !m.isPrivate) ++
    t.interfaces.flatMap g.registry.methods

/-- Whether the class or an ancestor of it is internal. -/
def extendsInternal (g : Generator) (t : Target) : Bool :=
  t.cls.any fun c => (c :: g.registry.ancestors c).any (ClassDecl.isForeign g.options.sentinel)

/-- Whether the method is called `__get`. -/
def isGetter (m : Method) : Bool := Text.same m.name "__get"

/-- The first `__get` that promises another type than `mixed`. -/
def narrowGetter? (g : Generator) (t : Target) : Option Method :=
  (g.candidates t).find? fun m => isGetter m && g.getterType m != "mixed"

/-- Whether every call has to reach the real object. -/
def mustProxy (g : Generator) (t : Target) : Bool :=
  g.extendsInternal t || (g.narrowGetter? t).isSome

/-- What became of the methods before. -/
structure Progress where
  taken : List String
  /-- The final methods that stay as they are inherited, first come first. -/
  finals : List Method
deriving DecidableEq, Repr

/-- What becomes of a method, if `must` says whether every call has to reach the real object. -/
def decide (g : Generator) (t : Target) (must : Bool) (before : Progress) (m : Method) :
    Decision :=
  if (m.isStatic && !m.isAbstract) || before.taken.contains m.key then .passOver
  else if m.isFinal then
    if must || Support.isProxyMethod m.name then .refuse m else .keepFinal
  else if Support.isProxyMethod m.name || (m.isProtected && !m.isAbstract) then .passOver
  else
    match before.finals.find? (·.key == m.key) with
    | some final => .refuse final
    | none =>
      if m.isStatic || m.returnsNothing || must || m.isAbstract || g.mayReturnProxy t m
      then .forward
      else .keepInherited

/-- What a decision leaves for the methods behind. -/
def Progress.note (before : Progress) (m : Method) : Decision → Progress
  | .forward => { before with taken := m.key :: before.taken }
  | .keepFinal => { before with finals := before.finals ++ [m] }
  | _ => before

/-- What becomes of each method, up to the first that is in the way. -/
def decideAll (g : Generator) (t : Target) (must : Bool) (before : Progress) :
    List Method → List (Method × Decision)
  | [] => []
  | m :: rest =>
    let decision := g.decide t must before m
    (m, decision) ::
      match decision with
      | .refuse _ => []
      | _ => g.decideAll t must (before.note m decision) rest

/-- At first only a `__get` that is declared in any case takes its name. -/
def atFirst (g : Generator) (t : Target) : Progress :=
  ⟨if (g.narrowGetter? t).isSome then ["__get"] else [], []⟩

/-- What becomes of each method that counts. -/
def decisions (g : Generator) (t : Target) : List (Method × Decision) :=
  g.decideAll t (g.mustProxy t) (g.atFirst t) (g.candidates t)

/-! ### The proxy -/

/-- What is wrong with the class and the interfaces themselves, and with which. -/
def targetObstacle? (g : Generator) (t : Target) : Option (String × Obstacle) :=
  (t.cls.bind fun c =>
    if c.kind ≠ .plainClass || !g.registry.contains c.name then some (c.name, .notAClass)
    else if c.isFinal then some (c.name, .finalClass)
    else none).or
  ((t.interfaces.find? fun i => !i.isInterface).map fun i => (i.name, .notAnInterface))

/-- A `__get` that has to be declared again and may not be. -/
def narrowGetterObstacle? (g : Generator) (t : Target) : Option (String × Obstacle) :=
  (g.narrowGetter? t).bind fun m =>
    if m.isFinal then some (t.answerable m, .finalMethod m.name) else none

/-- A final method that has to be declared again. -/
def methodObstacle? (g : Generator) (t : Target) : Option (String × Obstacle) :=
  (g.decisions t).findSome? fun
    | (_, .refuse final) => some (t.answerable final, .finalMethod final.name)
    | _ => none

/-- **What stands in the way of a proxy**: the first obstacle, if there is one. -/
def proxyObstacle? (g : Generator) (t : Target) : Option (String × Obstacle) :=
  (g.targetObstacle? t).or <| (g.narrowGetterObstacle? t).or (g.methodObstacle? t)

/-- The methods that are declared again. -/
def forwarders (g : Generator) (t : Target) : List Forwarder :=
  (g.decisions t).filterMap fun
    | (m, .forward) => some ⟨m, g.registry.signature m true⟩
    | _ => none

/-- **The proxy for a target**, and the cache that then knows the scopes of its class. -/
def proxy (g : Generator) (cache : ScopeCache) (t : Target) :
    Except Refusal (Proxy × ScopeCache) :=
  match g.proxyObstacle? t with
  | some (cls, obstacle) => .error ⟨.proxy, cls, obstacle⟩
  | none =>
    let write (scopes : Option ScopeMap) : Proxy :=
      ⟨t, scopes, (g.narrowGetter? t).map g.getterType, g.forwarders t⟩
    match t.cls with
    | none => .ok (write none, cache)
    | some c =>
      let known := g.scopes cache c.name
      .ok (write (some known.1), known.2)

/-- The target that references mean, the class being looked up first. -/
def targetFor (g : Generator) (cls : Option String) (interfaces : List String) :
    Except Refusal Target := do
  let cls ← cls.mapM (g.lookup .proxy)
  let interfaces ← interfaces.mapM (g.lookup .proxy)
  return ⟨cls, interfaces⟩

/-- The proxy for the class and the interfaces that references mean. -/
def proxyFor (g : Generator) (cache : ScopeCache) (cls : Option String)
    (interfaces : List String) : Except Refusal (Proxy × ScopeCache) :=
  (g.targetFor cls interfaces).bind (g.proxy cache)

/-! ### Events -/

/-- The methods up to the first that the test holds of, that one included. -/
def upTo (p : Method → Bool) : List Method → List Method
  | [] => []
  | m :: rest => if p m then [m] else m :: upTo p rest

/-- The events of looking for a `__get` with a narrow type. -/
def narrowGetterEvents (g : Generator) (t : Target) : List Event :=
  (upTo (fun m => g.getterType m != "mixed") ((g.candidates t).filter isGetter)).flatMap
    g.getterEvents

/-- The events of asking whether the method may return the proxy. -/
def mayReturnProxyEvents (g : Generator) (m : Method) : List Event :=
  match m.returnType with
  | none => []
  | some hint =>
    if hint.leaves.any (Text.memIgnoreCase · identityTypes) then []
    else hint.events (g.registry.scope m.declaringClass)

/-- The events of deciding about a method. -/
def decisionEvents (g : Generator) (must : Bool) (m : Method) : Decision → List Event
  | .keepFinal => [.keptFinal m.name]
  | .keepInherited =>
    g.registry.signatureEvents m true ++ g.mayReturnProxyEvents m ++ [.notForwarded m.name]
  | .forward =>
    g.registry.signatureEvents m true ++
      (if m.isStatic || m.returnsNothing || must || m.isAbstract then []
        else g.mayReturnProxyEvents m)
  | _ => []

/-- The events of looking for the proxy for a target. -/
def proxyEvents (g : Generator) (t : Target) : List Event :=
  let must := g.mustProxy t
  if (g.targetObstacle? t).isSome then []
  else
    g.narrowGetterEvents t ++
      (if (g.narrowGetterObstacle? t).isSome then []
        else (g.decisions t).flatMap fun d => g.decisionEvents must d.1 d.2) ++
      (if (g.proxyObstacle? t).isSome then []
        else [.wroteProxy ((t.cls.map ClassDecl.name).getD "") t.interfaceNames.length
          must])

end Generator

end LazyClasses
