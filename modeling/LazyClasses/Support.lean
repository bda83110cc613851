import LazyClasses.Text.Case
import LazyClasses.Text.Replace
/-! # The support library

Lazy classes take most of their behaviour from traits of a PHP library, which lives in a namespace
of its own. `Options` says where, and what the target runtime allows.

* `Options.symbol`: the absolute name of a symbol of the library.
* `ghostMethods`, `proxyMethods`: what the two traits define on every lazy class.
* `getter`, `initializer`: the two methods whose text depends only on their result type.
* `preloadHints`: the calls behind each lazy class that make its support classes known early. -/

namespace LazyClasses

/-- What the generated classes may rely on. -/
structure Options where
  supportNamespace : String := "Symfony\\Component\\VarExporter"
  /-- Whether the target runtime accepts read-only lazy classes. -/
  allowReadonly : Bool := true
  /-- The one internal class that a lazy class may extend. -/
  sentinel : String := "stdClass"
deriving DecidableEq, Repr, Inhabited

namespace Options

/-- The characters without those at both ends that are `\`. -/
def trimSeparators (l : List Char) : List Char :=
  ((l.dropWhile (· == '\\')).reverse.dropWhile (· == '\\')).reverse

/-- The absolute name of a symbol given relative to the support namespace. -/
def symbol (options : Options) (relative : String) : String :=
  match trimSeparators options.supportNamespace.toList with
  | [] => "\\" ++ relative
  | ns => "\\" ++ String.ofList ns ++ "\\" ++ relative

end Options

namespace Support

/-- The methods that the ghost trait defines. -/
def ghostMethods : List String :=
  ["createLazyGhost", "isLazyObjectInitialized", "initializeLazyObject", "resetLazyObject",
   "__get", "__set", "__isset", "__unset", "__clone", "__serialize", "__destruct"]

/-- The methods that the proxy trait defines. -/
def proxyMethods : List String :=
  ["createLazyProxy", "isLazyObjectInitialized", "initializeLazyObject", "resetLazyObject",
   "__get", "__set", "__isset", "__unset", "__clone", "__serialize", "__unserialize",
   "__destruct"]

/-- Whether the ghost trait defines a method of this name. -/
def isGhostMethod (name : String) : Bool := Text.memIgnoreCase name ghostMethods

/-- Whether the proxy trait defines a method of this name. -/
def isProxyMethod (name : String) : Bool := Text.memIgnoreCase name proxyMethods

/-! ### Method texts -/

/-- The text of `__get`, with places for its result type and two support classes. -/
def getterTemplate : String := "\n".intercalate [
  "    public function &__get($name): \x7btype\x7d",
  "    \x7b",
  "        $instance = isset($this->lazyObjectReal) ? $this->lazyObjectReal : $this->initializeLazyObject();",
  "        $propertyScopes = \x7bhydrator\x7d::$propertyScopes[$instance::class] ??= \x7bhydrator\x7d::getPropertyScopes($instance::class);",
  "        $scope = isset($propertyScopes[$name]) ? \x7bregistry\x7d::getScope($propertyScopes, $propertyScopes[$name][0], $name) : null;",
  "",
  "        if (null === $scope) \x7b",
  "            $value = $instance->$name;",
  "",
  "            return $value;",
  "        \x7d",
  "        $accessor = \x7bregistry\x7d::$classAccessors[$scope] ??= \x7bregistry\x7d::getClassAccessors($scope);",
  "",
  "        return $accessor['get']($instance, $name, true);",
  "    \x7d"]

/-- The text of `initializeLazyObject`, with places for its result type and a support class. -/
def initializerTemplate : String := "\n".intercalate [
  "    public function initializeLazyObject(): \x7btype\x7d",
  "    \x7b",
  "        if (isset($this->lazyObjectReal)) \x7b",
  "            return $this->lazyObjectReal;",
  "        \x7d",
  "",
  "        if (!$state = \x7bregistry\x7d::$states[$this->lazyObjectId] ?? null) \x7b",
  "            return $this;",
  "        \x7d",
  "",
  "        return $this->lazyObjectReal = ($state->initializer)();",
  "    \x7d"]

/-- Fills the places of a template one kind after the other, so a place that comes in with the
result type is filled too. -/
def fill (options : Options) (resultType template : String) : String :=
  Text.replace "\x7bregistry\x7d" (options.symbol "Internal\\LazyObjectRegistry")
    (Text.replace "\x7bhydrator\x7d" (options.symbol "Internal\\Hydrator")
      (Text.replace "\x7btype\x7d" resultType template))

/-- `__get` for a class that declares a narrower result type than `mixed`. -/
def getter (options : Options) (resultType : String) : String :=
  fill options resultType getterTemplate

/-- `initializeLazyObject` for a proxy that extends no class. -/
def initializer (options : Options) (resultType : String) : String :=
  fill options resultType initializerTemplate

/-- The calls that make the support classes known to a preloader. -/
def preloadHints (options : Options) : String :=
  "// Help opcache.preload discover always-needed symbols\n" ++
    String.join (["Internal\\Hydrator", "Internal\\LazyObjectRegistry",
      "Internal\\LazyObjectState"].map fun s => "class_exists(" ++ options.symbol s ++ "::class);\n")

end Support

end LazyClasses
